import CqlDriver.Metadata.Replicas

/-! # Racks of the replicas of `NetworkTopologyStrategy` -/

namespace CqlDriver.Metadata

open Lib List

variable {τ η : Type} [DecidableEq τ] [DecidableEq η]

variable {hosts walk : List η}

theorem select_firsts {rack : η → Option String} {rf : Nat} (hmem : ∀ g, g ∈ hosts ↔ g ∈ walk) : let r := (selectLoop rack (firsts rack walk).length hosts.length walk ⟨[], rf, 0, [], []⟩).replicas
    r = (firsts rack walk).take rf ∨ firsts rack walk <+: r ∧ (firsts rack walk).length ≤ rf := by
  intro r
  have hf : firsts rack walk ⊆ hosts := fun g hg => (hmem g).mpr (firsts_subset rack walk hg)
  have hrc : (firsts rack walk).length ≤ hosts.length := ((firsts_nodup rack walk).subperm hf).length_le
  rcases Nat.eq_zero_or_pos (firsts rack walk).length with hz | hpos
  · right
    rw [length_eq_zero_iff.mp hz]
    exact ⟨ nil_prefix, Nat.zero_le _⟩
  rcases select_firstPhase rf hrc walk [] rfl hpos (Nat.zero_le _) with
    ⟨-, hres⟩ | ⟨p, q, hw, -, hm, hres⟩
  · exact .inl hres
  right
  have hq : q ⊆ hosts := fun g hg => (hmem g).mpr (by rw [hw]; exact mem_append_right _ hg)
  obtain ⟨extra, he, -⟩ := select_secondPhase rack (firsts rack walk).length q (secondPhase rack rf walk)
    (firsts rack walk) hq rfl (by simp [secondPhase]) (firsts_nodup rack walk) rfl (subset_append_left _ _) hf
  have hr : r = firsts rack walk ++ (deferred rack walk).take (rf - (firsts rack walk).length) ++ extra :=
    (congrArg Selection.replicas hres).trans he
  rw [hr, append_assoc]
  exact ⟨prefix_append _ _, hm⟩

/-- One host in each rack as far as the factor goes. -/
structure RackSpread (rack : η → Option String) (racks : List (Option String)) (rf : Nat) (hosts : List η) : Prop where
  covers : min rf racks.length ≤ (hosts.map rack).dedup.length
  once : ∀ p h q, hosts = p ++ h :: q → rack h ∈ p.map rack → ∀ r ∈ racks, r ∈ p.map rack

variable {rack : η → Option String}

omit [DecidableEq η] in
theorem not_mem_of_nodup_racks {l p q : List η} {h : η} (hn : (l.map rack).Nodup) (hl : p ++ h :: q <+: l) :
    rack h ∉ p.map rack := by
  have hsub : ((p ++ h :: q).map rack).Nodup := hn.sublist (hl.sublist.map rack)
  rw [map_append, nodup_append] at hsub
  exact fun hmem => hsub.2.2 _ hmem _ mem_cons_self rfl

theorem rackSpread_select {rf : Nat} (hmem : ∀ g, g ∈ hosts ↔ g ∈ walk) {racks : List (Option String)}
    (hrc : racks.Perm ((firsts rack walk).map rack)) : RackSpread rack racks rf
      (selectLoop rack (firsts rack walk).length hosts.length walk ⟨[], rf, 0, [], []⟩).replicas := by
  have hf := firsts_rack_nodup rack walk
  have hlen : racks.length = (firsts rack walk).length := by rw [hrc.length_eq, length_map]
  rcases select_firsts hmem with hres | ⟨hres, hm⟩
  · rw [hres]
    have ht : (((firsts rack walk).take rf).map rack).Nodup := hf.sublist ((take_sublist ..).map rack)
    constructor
    · rw [ht.dedup, length_map, length_take, hlen]
    · intro p h q heq hh
      exact absurd hh (not_mem_of_nodup_racks ht ⟨[], by rw [← heq, append_nil]⟩)
  constructor
  · -- each of the first hosts has a rack of its own
    have hsub : (firsts rack walk).map rack ⊆ (map rack _).dedup := fun r hr =>
      mem_dedup.mpr (map_subset rack hres.subset hr)
    have hle := (hf.subperm hsub).length_le
    rw [length_map] at hle
    omega
  intro p h q heq hh r hr
  rw [heq] at hres
  rw [hrc.mem_iff] at hr
  rcases Nat.lt_or_ge p.length (firsts rack walk).length with hlt | hge
  · -- `h` would be among the first hosts
    have hp : p ++ h :: [] <+: firsts rack walk := by
      refine prefix_of_prefix_length_le ⟨q, by simp⟩ hres ?_
      rw [length_append, length_singleton]
      omega
    exact absurd hh (not_mem_of_nodup_racks hf hp)
  · have hp : firsts rack walk <+: p := prefix_of_prefix_length_le hres (prefix_append _ _) hge
    exact map_subset rack hp.subset hr

/-! ## The replica lists -/

def dcRacks (loc : Locations η) (owners : List η) (dc : Option String) : List (Option String) :=
  ((owners.filter fun h => loc.datacenter h = dc).map loc.rack).dedup

omit [DecidableEq η] in
theorem dcRacks_perm {loc : Locations η} (ows : List η) (i : Nat) (dc : Option String) :
    (dcRacks loc ows dc).Perm ((firsts loc.rack (walkFrom loc ows i dc)).map loc.rack) := by
  refine (perm_ext_iff_of_nodup (nodup_dedup _) (firsts_rack_nodup _ _)).mpr fun r => ?_
  rw [mem_dedup, mem_firsts_rack, mem_map, mem_map]
  refine exists_congr fun h => and_congr_left fun _ => ?_
  rw [mem_walkFrom, mem_filter, decide_eq_true_eq]

/-- **Rack spread.** Each datacenter's part is spread over its racks. -/
theorem nts_rack_spread (loc : Locations η) (factors : Dict String Int) (owner : Dict τ η) (ring : List τ)
    (hring : ring.Nodup) (howned : ∀ t ∈ ring, t ∈ owner.keys) (hloc : ∀ t ∈ ring, ∀ h, owner.get? t = some h →
      truthy (loc.datacenter h) = true ∧ truthy (loc.rack h) = true) :
    ∃ owners m, ring.mapM owner.get? = some owners ∧ ntsReplicaMap loc factors owner ring = some m ∧
      ∀ t ∈ ring, ∃ replicas, m.get? t = some replicas ∧ ∀ dc rf, dcRf factors dc = some rf →
        RackSpread loc.rack (dcRacks loc owners dc) rf (replicas.filter fun h => loc.datacenter h = dc) := by
  obtain ⟨owners, m, hmap, hm, -, hget⟩ := ntsReplicaMap_spec loc factors hring howned
  have hl : Located loc owners := by
    intro g hg
    obtain ⟨t, ht, hget⟩ := owner_of_mapM hmap g hg
    exact hloc t ht g hget
  refine ⟨owners, m, hmap, hm, fun t ht => ?_⟩
  obtain ⟨i, hi⟩ := getElem?_of_mem ht
  refine ⟨_, hget i t hi, fun dc rf hrf => ?_⟩
  rw [replicasAt_filter, dcReplicas_eq hl i hrf]
  exact rackSpread_select (mem_dcTables_hosts hl i dc) (dcRacks_perm owners i dc)

theorem nts_rack_spread_two_racks :
    ∃ m replicas, ntsReplicaMap twoRacks factorFour twoTokens twoTokens.keys = some m ∧ m.get? 0 = some replicas ∧
      RackSpread twoRacks.rack (dcRacks twoRacks [0, 1, 1, 2, 3] (some "dc1")) 4
        (replicas.filter fun h => twoRacks.datacenter h = some "dc1") := by
  obtain ⟨owners, m, ho, hm, h⟩ := nts_rack_spread twoRacks factorFour twoTokens twoTokens.keys
    (by decide) (by decide) (by decide)
  obtain rfl : [0, 1, 1, 2, 3] = owners := Option.some.inj (by rw [← ho]; rfl)
  obtain ⟨replicas, hr, hs⟩ := h 0 (by decide)
  exact ⟨m, replicas, hm, hr, hs _ 4 (by decide)⟩

end CqlDriver.Metadata
