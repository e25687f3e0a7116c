import CqlDriver.Metadata.Selection

/-! # The replica lists of `NetworkTopologyStrategy` -/

namespace CqlDriver.Metadata

open Lib List

variable {τ η : Type} [DecidableEq τ] [DecidableEq η]

/-! ## One part for each datacenter -/

def dcReplicas (loc : Locations η) (factors : Dict String Int) (owners : List η) (i : Nat) (dc : Option String) :
    List η :=
  addDc loc factors owners i [] dc

variable {dc : Option String} {i rf : Nat} {loc : Locations η} {owners : List η} {factors : Dict String Int}

omit [DecidableEq η] in
theorem mem_walkFrom {h : η} : h ∈ walkFrom loc owners i dc ↔ h ∈ owners ∧ loc.datacenter h = dc := by
  have hp : (owners.drop i ++ owners.take i).Perm owners := by
    conv_rhs => rw [← take_append_drop i owners]
    exact perm_append_comm
  rw [walkFrom, mem_filter, decide_eq_true_eq, hp.mem_iff]

theorem dcReplicas_subset (loc : Locations η) (factors : Dict String Int) (owners : List η) (i : Nat)
    (dc : Option String) : dcReplicas loc factors owners i dc ⊆ walkFrom loc owners i dc := by
  unfold dcReplicas addDc
  cases dcRf factors dc with
  | none => exact nil_subset _
  | some rf => exact Subset.trans (selectLoop_subset ..) (by simp)

theorem addDc_append {replicas : List η} (h : ∀ g ∈ replicas, loc.datacenter g ≠ dc) :
    addDc loc factors owners i replicas dc = replicas ++ dcReplicas loc factors owners i dc := by
  unfold dcReplicas addDc
  cases dcRf factors dc with
  | none => simp
  | some rf =>
    have hd : ∀ g ∈ walkFrom loc owners i dc, g ∉ replicas := fun g hg hr => h g hr (mem_walkFrom.mp hg).2
    simpa [selectDc] using selectLoop_append loc.rack (orEmpty (dcTables loc owners).racks dc).length
      (orEmpty (dcTables loc owners).hosts dc).length replicas _ hd ⟨[], rf, 0, [], []⟩

theorem foldl_addDc {loc : Locations η} {factors : Dict String Int} {owners : List η} {i : Nat}
    (dcs : List (Option String)) : ∀ reps : List η, dcs.Nodup → (∀ g ∈ reps, loc.datacenter g ∉ dcs) →
      dcs.foldl (addDc loc factors owners i) reps = reps ++ dcs.flatMap (dcReplicas loc factors owners i) := by
  induction dcs with
  | nil => intro reps _ _; simp
  | cons dc dcs ih =>
    intro reps hn hdc
    rw [nodup_cons] at hn
    have hnew : ∀ g ∈ reps, loc.datacenter g ≠ dc := fun g hg he => hdc g hg (by simp [he])
    rw [foldl_cons, addDc_append hnew, ih _ hn.2, flatMap_cons, append_assoc]
    intro g hg
    rcases mem_append.mp hg with hg | hg
    · exact fun hm => hdc g hg (mem_cons_of_mem _ hm)
    rw [(mem_walkFrom.mp (dcReplicas_subset _ _ _ _ _ hg)).2]
    exact hn.1

theorem replicasAt_eq (loc : Locations η) (factors : Dict String Int) (owners : List η) (i : Nat) :
    replicasAt loc factors owners i =
      (dcTables loc owners).tokenOffset.keys.flatMap (dcReplicas loc factors owners i) := by
  simpa [replicasAt] using foldl_addDc (dcTables loc owners).tokenOffset.keys [] (Dict.keys_nodup _) (by simp)

/-! ## How many replicas -/

def Located (loc : Locations η) (owners : List η) : Prop :=
  ∀ h ∈ owners, truthy (loc.datacenter h) = true ∧ truthy (loc.rack h) = true

def dcHosts (loc : Locations η) (owners : List η) (dc : Option String) : List η :=
  (owners.filter fun h => loc.datacenter h = dc).dedup

/-- No host twice, and as many as the factor asks for. -/
structure CountOk (loc : Locations η) (factors : Dict String Int) (owners replicas : List η) : Prop where
  nodup : replicas.Nodup
  positive : ∀ h ∈ replicas, (dcRf factors (loc.datacenter h)).isSome
  count : ∀ dc rf, dcRf factors dc = some rf → (∃ h ∈ owners, loc.datacenter h = dc) →
    (replicas.filter fun h => loc.datacenter h = dc).length = min rf (dcHosts loc owners dc).length

/-- The hosts put aside and still needed are distinct. -/
def DistinctDeferred (loc : Locations η) (factors : Dict String Int) (owners : List η) (i : Nat) : Prop :=
  ∀ dc rf, dcRf factors dc = some rf →
    let walk := walkFrom loc owners i dc
    ((deferred loc.rack walk).take (rf - (firsts loc.rack walk).length)).Nodup

section

variable (hloc : Located loc owners)
include hloc

theorem racks_length (i : Nat) {dc : Option String} :
    (orEmpty (dcTables loc owners).racks dc).length = (firsts loc.rack (walkFrom loc owners i dc)).length := by
  have ht := dcTables_ok loc owners
  have hmap : (firsts loc.rack (walkFrom loc owners i dc)).length =
      ((firsts loc.rack (walkFrom loc owners i dc)).map loc.rack).length := by simp
  rw [hmap]
  refine ((perm_ext_iff_of_nodup (ht.racksNodup dc) (firsts_rack_nodup _ _)).mpr fun r => ?_).length_eq
  rw [ht.racks, mem_firsts_rack, mem_map]
  constructor
  · rintro ⟨h, hmem, hdc, hr, -⟩
    exact ⟨h, mem_walkFrom.mpr ⟨hmem, hdc⟩, hr⟩
  rintro ⟨h, hw, rfl⟩
  obtain ⟨hmem, rfl⟩ := mem_walkFrom.mp hw
  exact ⟨h, hmem, rfl, rfl, hloc h hmem⟩

theorem mem_dcTables_hosts (i : Nat) (dc : Option String) (g : η) :
    g ∈ orEmpty (dcTables loc owners).hosts dc ↔ g ∈ walkFrom loc owners i dc := by
  rw [(dcTables_ok loc owners).hosts, mem_walkFrom]
  constructor
  · exact fun h => ⟨h.1, h.2.1⟩
  rintro ⟨hmem, rfl⟩
  exact ⟨hmem, rfl, hloc g hmem⟩

theorem dcReplicas_eq (i : Nat) (hrf : dcRf factors dc = some rf) :
    dcReplicas loc factors owners i dc = (selectLoop loc.rack
      (firsts loc.rack (walkFrom loc owners i dc)).length (orEmpty (dcTables loc owners).hosts dc).length
      (walkFrom loc owners i dc) ⟨[], rf, 0, [], []⟩).replicas := by
  simp only [dcReplicas, addDc, hrf, selectDc, racks_length hloc i]

theorem dcReplicas_spec {i : Nat} (hrf : dcRf factors dc = some rf) :
    ((dcReplicas loc factors owners i dc).Nodup ↔ ((deferred loc.rack (walkFrom loc owners i dc)).take
        (rf - (firsts loc.rack (walkFrom loc owners i dc)).length)).Nodup) ∧
    ((dcReplicas loc factors owners i dc).Nodup →
      (dcReplicas loc factors owners i dc).length = min rf (dcHosts loc owners dc).length) := by
  have hn := (dcTables_ok loc owners).hostsNodup dc
  have hh := mem_dcTables_hosts hloc i dc
  have hlen : (orEmpty (dcTables loc owners).hosts dc).length = (dcHosts loc owners dc).length := by
    refine ((perm_ext_iff_of_nodup hn (nodup_dedup _)).mpr fun g => ?_).length_eq
    rw [hh, mem_walkFrom, mem_dedup, mem_filter, decide_eq_true_eq]
  rw [dcReplicas_eq hloc i hrf, ← hlen]
  exact (select_spec loc.rack rf hn hh).2

end

theorem flatMap_eq_of_nodup {α β : Type} {l : List α} {a : α} {f : α → List β} (hl : l.Nodup) (ha : a ∈ l)
    (h : ∀ x ∈ l, x ≠ a → f x = []) : l.flatMap f = f a := by
  induction l with
  | nil => simp at ha
  | cons b l ih =>
    rw [nodup_cons] at hl
    rw [flatMap_cons]
    by_cases hb : b = a
    · subst hb
      have : l.flatMap f = [] := flatMap_eq_nil_iff.mpr fun x hx =>
        h x (mem_cons_of_mem _ hx) (fun he => hl.1 (he ▸ hx))
      rw [this, append_nil]
    rw [h b mem_cons_self hb]
    exact ih hl.2 ((mem_cons.mp ha).resolve_left (Ne.symm hb)) fun x hx => h x (mem_cons_of_mem _ hx)

theorem dcReplicas_of_not_mem (h : dc ∉ (dcTables loc owners).tokenOffset.keys) {factors : Dict String Int} {i : Nat} :
    dcReplicas loc factors owners i dc = [] := by
  rw [(dcTables_ok loc owners).keys] at h
  refine eq_nil_iff_forall_not_mem.mpr fun g hg => h ⟨g, ?_⟩
  exact mem_walkFrom.mp (dcReplicas_subset loc factors owners i dc hg)

theorem replicasAt_filter (loc : Locations η) (factors : Dict String Int) (owners : List η) (i : Nat)
    (dc : Option String) : (replicasAt loc factors owners i).filter (fun h => loc.datacenter h = dc) =
      dcReplicas loc factors owners i dc := by
  have hw := fun x g (hg : g ∈ dcReplicas loc factors owners i x) =>
    mem_walkFrom.mp (dcReplicas_subset loc factors owners i x hg)
  have ho : ∀ x, x ≠ dc → (dcReplicas loc factors owners i x).filter (fun h => loc.datacenter h = dc) = [] := by
    intro x hx
    exact filter_eq_nil_iff.mpr fun g hg => by simp [(hw x g hg).2, hx]
  have hs : (dcReplicas loc factors owners i dc).filter (fun h => loc.datacenter h = dc) =
      dcReplicas loc factors owners i dc :=
    filter_eq_self.mpr fun g hg => by simp [(hw dc g hg).2]
  rw [replicasAt_eq, filter_flatMap]
  by_cases hdc : dc ∈ (dcTables loc owners).tokenOffset.keys
  · rw [flatMap_eq_of_nodup (Dict.keys_nodup _) hdc fun x _ hx => ho x hx, hs]
  · rw [dcReplicas_of_not_mem hdc, flatMap_eq_nil_iff]
    exact fun x hx => ho x fun he => hdc (he ▸ hx)

theorem replicasAt_nodup :
    (replicasAt loc factors owners i).Nodup ↔ ∀ dc, (dcReplicas loc factors owners i dc).Nodup := by
  have hw := fun x g (hg : g ∈ dcReplicas loc factors owners i x) =>
    mem_walkFrom.mp (dcReplicas_subset loc factors owners i x hg)
  rw [replicasAt_eq, nodup_flatMap]
  constructor
  · rintro ⟨hp, -⟩ dc
    by_cases hdc : dc ∈ (dcTables loc owners).tokenOffset.keys
    · exact hp dc hdc
    · rw [dcReplicas_of_not_mem hdc]
      exact nodup_nil
  intro hp
  refine ⟨fun dc _ => hp dc, (Dict.keys_nodup _).imp ?_⟩
  intro a b hab g ha hb
  exact hab ((hw a g ha).2.symm.trans (hw b g hb).2)

theorem replicasAt_countOk (hloc : Located loc owners) {i : Nat} :
    CountOk loc factors owners (replicasAt loc factors owners i) ↔ DistinctDeferred loc factors owners i := by
  constructor
  · intro h dc rf hrf
    exact (dcReplicas_spec hloc hrf).1.mp (replicasAt_nodup.mp h.nodup dc)
  intro h
  have hn : ∀ dc, (dcReplicas loc factors owners i dc).Nodup := by
    intro dc
    cases hrf : dcRf factors dc with
    | none => simp [dcReplicas, addDc, hrf]
    | some rf => exact (dcReplicas_spec hloc hrf).1.mpr (h dc rf hrf)
  refine ⟨replicasAt_nodup.mpr hn, ?_, ?_⟩
  · intro g hg
    rw [replicasAt_eq, mem_flatMap] at hg
    obtain ⟨dc, -, hg⟩ := hg
    rw [(mem_walkFrom.mp (dcReplicas_subset loc factors owners i dc hg)).2]
    by_contra hnn
    rw [Option.not_isSome_iff_eq_none] at hnn
    simp [dcReplicas, addDc, hnn] at hg
  intro dc rf hrf _
  rw [replicasAt_filter]
  exact (dcReplicas_spec hloc hrf).2 (hn dc)

omit [DecidableEq η] in
theorem owner_of_mapM {owner : Dict τ η} {ring : List τ} (h : ring.mapM owner.get? = some owners) :
    ∀ g ∈ owners, ∃ t ∈ ring, owner.get? t = some g := by
  induction ring generalizing owners with
  | nil => simp_all
  | cons tok ring ih =>
    simp only [mapM_cons, Option.pure_def, Option.bind_eq_bind, Option.bind_eq_some_iff, Option.some.injEq] at h
    obtain ⟨host, hh, rest, hr, rfl⟩ := h
    intro g hg
    rcases mem_cons.mp hg with rfl | hg
    · exact ⟨tok, mem_cons_self, hh⟩
    obtain ⟨t, ht, hget⟩ := ih hr g hg
    exact ⟨t, mem_cons_of_mem _ ht, hget⟩

/-- **Replica count.** It is right exactly when no host is put aside twice. -/
theorem nts_replica_count (loc : Locations η) (factors : Dict String Int) (owner : Dict τ η) (ring : List τ)
    (hring : ring.Nodup) (howned : ∀ t ∈ ring, t ∈ owner.keys) (hloc : ∀ t ∈ ring, ∀ h, owner.get? t = some h →
      truthy (loc.datacenter h) = true ∧ truthy (loc.rack h) = true) :
    ∃ owners m, ring.mapM owner.get? = some owners ∧ ntsReplicaMap loc factors owner ring = some m ∧
      ∀ i t, ring[i]? = some t → ∃ replicas, m.get? t = some replicas ∧
        (CountOk loc factors owners replicas ↔ DistinctDeferred loc factors owners i) := by
  obtain ⟨owners, m, hmap, hm, -, hget⟩ := ntsReplicaMap_spec loc factors hring howned
  have hl : Located loc owners := by
    intro g hg
    obtain ⟨t, ht, hget⟩ := owner_of_mapM hmap g hg
    exact hloc t ht g hget
  exact ⟨owners, m, hmap, hm, fun i t ht => ⟨_, hget i t ht, replicasAt_countOk hl⟩⟩

/-! ## A ring where a host owns two tokens -/

def twoRacks : Locations Nat where
  datacenter _ := some "dc1"
  rack host := if host < 2 then some "rack1" else some "rack2"

def twoTokens : Dict Nat Nat := ⟨[(0, 0), (10, 1), (20, 1), (30, 2), (40, 3)], by decide⟩

def factorFour : Dict String Int := ⟨[("dc1", 4)], by decide⟩

theorem nts_replica_count_two_racks :
    ∃ m replicas, ntsReplicaMap twoRacks factorFour twoTokens twoTokens.keys = some m ∧
      m.get? 30 = some replicas ∧ CountOk twoRacks factorFour [0, 1, 1, 2, 3] replicas := by
  obtain ⟨owners, m, ho, hm, h⟩ := nts_replica_count twoRacks factorFour twoTokens twoTokens.keys
    (by decide) (by decide) (by decide)
  obtain rfl : [0, 1, 1, 2, 3] = owners := Option.some.inj (by rw [← ho]; rfl)
  obtain ⟨replicas, hr, hiff⟩ := h 3 30 rfl
  refine ⟨m, replicas, hm, hr, hiff.mpr ?_⟩
  intro dc rf hrf
  obtain ⟨rfl, rfl⟩ : dc = some "dc1" ∧ rf = 4 := by
    cases dc with
    | none => simp [dcRf] at hrf
    | some name =>
      by_cases hn : name = "dc1" <;> simp [dcRf, factorFour, Dict.get?, Dict.find, hn, eq_comm] at hrf ⊢
      exact hrf
  decide

/-- Host 1 is put aside and taken twice, host 3 never. -/
theorem nts_host_taken_twice : ¬ ∃ m replicas, ntsReplicaMap twoRacks factorFour twoTokens twoTokens.keys = some m ∧
      m.get? 0 = some replicas ∧ CountOk twoRacks factorFour [0, 1, 1, 2, 3] replicas := by
  rintro ⟨m, replicas, hm, hr, hok⟩
  have hl : (ntsReplicaMap twoRacks factorFour twoTokens twoTokens.keys).bind (·.get? 0) =
      some [0, 2, 1, 1] := by decide
  rw [hm, Option.bind_some, hr, Option.some.injEq] at hl
  rw [hl] at hok
  exact absurd hok.nodup (by decide)

end CqlDriver.Metadata
