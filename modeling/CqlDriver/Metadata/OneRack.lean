import CqlDriver.Metadata.Replicas
import CqlDriver.Metadata.Simple

/-! # `SimpleStrategy` and `NetworkTopologyStrategy` with one rack -/

namespace CqlDriver.Metadata

open Lib List

variable {τ η : Type} [DecidableEq τ] [DecidableEq η]

def distinctOwners : List η → List η
  | [] => []
  | h :: rest => h :: (distinctOwners rest).filter (· ≠ h)

variable {walk hosts owners : List η} {r : Option String} {loc : Locations η}

theorem mem_distinctOwners {g : η} : g ∈ distinctOwners walk ↔ g ∈ walk := by
  induction walk with
  | nil => rfl
  | cons h rest ih =>
    rw [distinctOwners, mem_cons, mem_filter, ih]
    by_cases hg : g = h
    · simp [hg]
    · simp [hg]

theorem distinctOwners_nodup (walk : List η) : (distinctOwners walk).Nodup := by
  induction walk with
  | nil => exact nodup_nil
  | cons h rest ih =>
    rw [distinctOwners, nodup_cons]
    exact ⟨by simp, ih.filter _⟩

theorem takeNew_eq (rf : Nat) (walk : List η) (h : hosts.length ≤ rf) :
    takeNew rf walk hosts = (hosts ++ (distinctOwners walk).filter (· ∉ hosts)).take rf := by
  induction walk generalizing hosts with
  | nil => rw [takeNew, distinctOwners, filter_nil, append_nil, take_of_length_le h]
  | cons g rest ih =>
    by_cases hf : hosts.length < rf
    · rw [takeNew, if_pos (by exact_mod_cast hf), distinctOwners]
      by_cases hg : g ∈ hosts
      · rw [if_pos hg, ih h, filter_cons_of_neg (by simpa using hg), filter_filter]
        have hs : ∀ x, (decide (x ∉ hosts) && decide (x ≠ g)) = decide (x ∉ hosts) := by
          intro x
          by_cases hx : x = g <;> simp [hx, hg]
        simp only [hs]
      rw [if_neg hg, ih (by rw [length_append, length_singleton]; omega),
        filter_cons_of_pos (by simpa using hg), filter_filter, append_assoc, singleton_append]
      have hs : ∀ x, decide (x ∉ hosts ++ [g]) = (decide (x ∉ hosts) && decide (x ≠ g)) := by
        simp
      simp only [hs]
    · rw [takeNew_full (by exact_mod_cast hf), take_append_of_le_length (by omega), take_of_length_le h]

theorem length_distinctOwners (h : ∀ g, g ∈ walk ↔ g ∈ owners) :
    (distinctOwners walk).length = owners.dedup.length := by
  refine ((perm_ext_iff_of_nodup (distinctOwners_nodup walk) (nodup_dedup _)).mpr fun g => ?_).length_eq
  rw [mem_distinctOwners, h, mem_dedup]

theorem takeNew_rotate_eq (rf : Nat) (owners : List η) (i : Nat) :
    takeNew rf (owners.rotate i) [] = (distinctOwners (owners.rotate i)).take (min rf owners.dedup.length) := by
  have hlen : (distinctOwners (owners.rotate i)).length = owners.dedup.length :=
    length_distinctOwners fun g => mem_rotate
  have hall : (distinctOwners (owners.rotate i)).filter (· ∉ ([] : List η)) = distinctOwners (owners.rotate i) := by
    simp
  rw [takeNew_eq rf _ (Nat.zero_le _), hall, nil_append, ← hlen, take_eq_take_min]

/-! ## One rack -/

theorem takeNew_of_subset (rf : Int) (h : walk ⊆ hosts) : takeNew rf walk hosts = hosts := by
  induction walk with
  | nil => rfl
  | cons g rest ih =>
    rw [cons_subset] at h
    rw [takeNew, if_pos h.1, ih h.2, ite_self]

def oneRack (rf : Nat) (r : Option String) (placed : List η) : Selection η where
  replicas := placed
  replicasRemaining := rf - placed.length
  replicasThisDc := placed.length
  skippedHosts := []
  racksPlaced := if placed = [] then [] else [r]

omit [DecidableEq η] in
theorem oneRack_place (rf : Nat) (r : Option String) (placed : List η) (host : η) :
    (oneRack rf r placed).place r 1 host = oneRack rf r (placed ++ [host]) := by
  have hins : (if placed = [] then [] else [r]).insert r = [r] := by split <;> simp
  simp [Selection.place, oneRack, hins, addSkipped, Nat.sub_sub]

theorem selectLoop_oneRack {rack : η → Option String} (rf : Nat) (hr : ∀ h ∈ walk, rack h = r)
    (hw : walk ⊆ hosts) : ∀ placed : List η, placed.Nodup → placed ⊆ hosts →
      (selectLoop rack 1 hosts.length walk (oneRack rf r placed)).replicas = takeNew rf walk placed := by
  induction walk with
  | nil => exact fun placed _ _ => rfl
  | cons host rest ih =>
    intro placed hn hplc
    rw [forall_mem_cons] at hr
    rw [cons_subset] at hw
    have hrs := ih hr.2 hw.2
    have hs : ¬ (r ∈ (oneRack rf r placed).racksPlaced ∧ (oneRack rf r placed).racksPlaced.length < 1) := by
      unfold oneRack
      by_cases he : placed = [] <;> simp
    rw [selectLoop]
    by_cases hf : rf ≤ placed.length
    · rw [if_pos (.inl (by simp only [oneRack]; omega)), takeNew_full (by omega)]
      rfl
    by_cases hall : placed.length = hosts.length
    · -- every host is a replica
      have hp := (subperm_of_subset hn hplc).perm_of_length_le hall.ge
      rw [if_pos (.inr hall), takeNew_of_subset]
      · rfl
      · exact cons_subset.mpr ⟨hp.symm.subset hw.1, Subset.trans hw.2 hp.symm.subset⟩
    have hrm : (placed.length : Int) < rf := by omega
    rw [if_neg (by simp only [oneRack]; omega), takeNew, if_pos hrm]
    by_cases hin : host ∈ placed
    · have hin' : host ∈ (oneRack rf r placed).replicas := hin
      rw [if_pos hin', if_pos hin]
      exact hrs placed hn hplc
    have hin' : host ∉ (oneRack rf r placed).replicas := hin
    rw [if_neg hin', hr.1, if_neg hs, oneRack_place, if_neg hin]
    refine hrs _ ?_ (append_subset.mpr ⟨hplc, by simpa using hw.1⟩)
    rw [← concat_eq_append]
    exact hn.concat hin

theorem racks_oneRack {dc : Option String} (hdc : truthy dc) (hr : truthy r)
    (hloc : ∀ h ∈ owners, loc.datacenter h = dc ∧ loc.rack h = r) (hne : owners ≠ []) :
    (orEmpty (dcTables loc owners).racks dc).length = 1 := by
  have ht := dcTables_ok loc owners
  obtain ⟨g, hg⟩ := exists_mem_of_ne_nil owners hne
  refine ((perm_ext_iff_of_nodup (ht.racksNodup dc) (nodup_singleton r)).mpr fun x => ?_).length_eq
  rw [ht.racks, mem_singleton]
  constructor
  · rintro ⟨h, hmem, -, rfl, -⟩
    exact (hloc h hmem).2
  rintro rfl
  exact ⟨g, hg, (hloc g hg).1, (hloc g hg).2, hdc, hr⟩

theorem replicasAt_oneRack {fs : Dict String Int} {dc r : String} {rf : Nat} (hdc : dc ≠ "") (hr : r ≠ "")
    (hloc : ∀ h ∈ owners, loc.datacenter h = some dc ∧ loc.rack h = some r) (hrf : fs.get? dc = some (rf : Int))
    {i : Nat} (hi : i < owners.length) : replicasAt loc fs owners i = takeNew rf (owners.rotate i) [] := by
  have hdct : truthy (some dc) := by simpa [truthy] using hdc
  have hrt : truthy (some r) := by simpa [truthy] using hr
  have hl : Located loc owners := by
    intro h hh
    rw [(hloc h hh).1, (hloc h hh).2]
    exact ⟨hdct, hrt⟩
  have hw : walkFrom loc owners i (some dc) = owners.rotate i := by
    rw [walkFrom, ← rotate_eq_drop_append_take hi.le]
    refine filter_eq_self.mpr fun h hh => ?_
    exact decide_eq_true (hloc h (mem_rotate.mp hh)).1
  have hs : (replicasAt loc fs owners i).filter (fun h => loc.datacenter h = some dc) = replicasAt loc fs owners i := by
    refine filter_eq_self.mpr fun h hh => ?_
    rw [replicasAt_eq, mem_flatMap] at hh
    obtain ⟨x, -, hh⟩ := hh
    exact decide_eq_true (hloc h (mem_walkFrom.mp (dcReplicas_subset loc fs owners i x hh)).1).1
  rw [← hs, replicasAt_filter]
  rcases Nat.eq_zero_or_pos rf with rfl | hpos
  · have hn : dcRf fs (some dc) = none := by simp [dcRf, hrf]
    rw [takeNew_full (by simp), dcReplicas, addDc, hn]
  have hsm : dcRf fs (some dc) = some rf := by simp [dcRf, hrf, hpos]
  have hone := racks_oneRack hdct hrt hloc (ne_nil_of_length_pos (by omega))
  have hhs : owners.rotate i ⊆ orEmpty (dcTables loc owners).hosts (some dc) := by
    intro h hh
    rwa [mem_dcTables_hosts hl, hw]
  simp only [dcReplicas, addDc, hsm, selectDc, hone, hw]
  exact selectLoop_oneRack rf (fun h hh => (hloc h (mem_rotate.mp hh)).2) hhs [] nodup_nil (nil_subset _)

/-- **First distinct owners.** With one rack both strategies give the same lists. -/
theorem simple_eq_nts_one_rack (owner : Dict τ η) (ring : List τ) (rf : Nat) (hring : ring.Nodup)
    (howned : ∀ t ∈ ring, t ∈ owner.keys) :
    ∃ owners m, ring.mapM owner.get? = some owners ∧ simpleReplicaMap rf owner ring = some m ∧
      (∀ i t, ring[i]? = some t →
        m.get? t = some ((distinctOwners (owners.rotate i)).take (min rf owners.dedup.length))) ∧
      ∀ (loc : Locations η) (factors : Dict String Int) (dc r : String), dc ≠ "" → r ≠ "" →
        (∀ h ∈ owners, loc.datacenter h = some dc ∧ loc.rack h = some r) → factors.get? dc = some (rf : Int) →
        ∃ m', ntsReplicaMap loc factors owner ring = some m' ∧ ∀ t ∈ ring, m'.get? t = m.get? t := by
  obtain ⟨owners, m, hmap, hm, -, hget⟩ := simpleReplicaMap_spec rf hring howned
  refine ⟨owners, m, hmap, hm, fun i t hi => ?_, fun loc factors dc r hdc hr hloc hrf => ?_⟩
  · rw [hget i t hi, takeNew_rotate_eq]
  obtain ⟨owners', m', hmap', hm', -, hget'⟩ := ntsReplicaMap_spec loc factors hring howned
  obtain rfl : owners = owners' := Option.some.inj (hmap.symm.trans hmap')
  refine ⟨m', hm', fun t ht => ?_⟩
  obtain ⟨i, hi⟩ := getElem?_of_mem ht
  have hlen : i < owners.length := by
    rw [← (forall₂_of_mapM hmap).length_eq]
    exact (List.getElem?_eq_some_iff.mp hi).1
  rw [hget' i t hi, hget i t hi, replicasAt_oneRack hdc hr hloc hrf hlen]

def singleRack : Locations Nat := ⟨fun _ => some "dc1", fun _ => some "rack1"⟩

theorem simple_eq_nts_single_rack : ∃ m m', simpleReplicaMap 2 twoTokens twoTokens.keys = some m ∧
      ntsReplicaMap singleRack ⟨[("dc1", 2)], by decide⟩ twoTokens twoTokens.keys = some m' ∧
      m.get? 10 = some [1, 2] ∧ m'.get? 10 = m.get? 10 := by
  obtain ⟨owners, m, ho, hm, hl, hnts⟩ :=
    simple_eq_nts_one_rack twoTokens twoTokens.keys 2 (by decide) (by decide)
  obtain rfl : [0, 1, 1, 2, 3] = owners := Option.some.inj (by rw [← ho]; rfl)
  obtain ⟨m', hm', hs⟩ := hnts singleRack ⟨[("dc1", 2)], by decide⟩ "dc1" "rack1" (by decide) (by decide)
    (fun _ _ => ⟨rfl, rfl⟩) (by decide)
  exact ⟨m, m', hm, hm', (hl 1 10 rfl).trans (by decide), hs 10 (by decide)⟩

end CqlDriver.Metadata
