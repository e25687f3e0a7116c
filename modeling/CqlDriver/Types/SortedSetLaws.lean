import CqlDriver.Types.SortedSet
import Mathlib.Data.Finset.Max
import Mathlib.Data.Finset.SymmDiff

/-! # `SortedSet` over a total order -/

namespace CqlDriver.Types

open Lib List Option SortedSet

variable {α : Type} [LinearOrder α]

def totalLt (a b : α) : Option Bool := some (decide (a < b))

def totalEq (a b : α) : Bool := decide (a = b)

/-- The items are the elements of the set in increasing order. -/
structure Represents (items : List α) (s : Finset α) : Prop where
  increasing : items.Pairwise (· < ·)
  mem_iff : ∀ x, x ∈ items ↔ x ∈ s

namespace Represents

variable {xs other : List α} {s t : Finset α}

theorem nil : Represents ([] : List α) ∅ := ⟨.nil, by simp⟩

variable (h : Represents xs s)
include h

theorem nodup : xs.Nodup := h.increasing.imp ne_of_lt

theorem toFinset : xs.toFinset = s := by
  ext x
  rw [List.mem_toFinset, h.mem_iff]

theorem length : xs.length = s.card := by
  rw [← h.toFinset, toFinset_card_of_nodup h.nodup]

theorem unique (h' : Represents other s) : xs = other := by
  have hp : xs.Perm other := by
    rw [perm_ext_iff_of_nodup h.nodup h'.nodup]
    exact fun x => (h.mem_iff x).trans (h'.mem_iff x).symm
  exact hp.eq_of_pairwise (fun a b _ _ hab hba => absurd hab (lt_asymm hba)) h.increasing h'.increasing

theorem filter (p : α → Prop) [DecidablePred p] : Represents (xs.filter fun x => decide (p x)) (s.filter p) :=
  ⟨h.increasing.filter _, fun x => by simp [h.mem_iff]⟩

end Represents

/-! ## Searching -/

variable {items oth : List α} {item : α}

variable {back front : List α} {s : Finset α}

theorem sortedPlaceFrom_spec (hs : items.Pairwise (· < ·)) (hsp : items = front ++ back) (hf : ∀ y ∈ front, y < item) :
    ∃ fr' back', items = fr' ++ back' ∧ sortedPlaceFrom totalLt items item front.length = some fr'.length ∧
      (∀ y ∈ fr', y < item) ∧ ∀ y ∈ back', item ≤ y := by
  have hlen : front.length ≤ items.length := by
    rw [hsp, length_append]
    omega
  have hlow : ∀ i y, items[i]? = some y → i < front.length → y < item := by
    intro i y hy hi
    rw [hsp, getElem?_append_left hi] at hy
    exact hf y (mem_of_getElem? hy)
  obtain ⟨hp, hiff⟩ := bisectLeft_splits (hs.imp le_of_lt) item front.length hlen hlow
  set point := bisectLeft items item front.length with hdef
  refine ⟨items.take point, items.drop point, (take_append_drop ..).symm, ?_, ?_, ?_⟩
  · rw [length_take, Nat.min_eq_left hp]
    exact bisectLoopM_eq (fun x _ => rfl) _ _ _ le_rfl
  · intro y hy
    obtain ⟨i, hi, rfl⟩ := getElem_of_mem hy
    rw [length_take] at hi
    simpa using (hiff i _ (getElem?_eq_getElem (by omega))).mpr (by omega)
  intro y hy
  obtain ⟨i, hi, rfl⟩ := getElem_of_mem hy
  rw [length_drop] at hi
  by_contra hlt
  have := (hiff (point + i) _ (getElem?_eq_getElem (by omega))).mp (by simpa using hlt)
  omega

theorem sortedPlace_spec (hs : items.Pairwise (· < ·)) (item : α) :
    ∃ front back, items = front ++ back ∧ sortedPlace totalLt items item = some front.length ∧
      (∀ y ∈ front, y < item) ∧ ∀ y ∈ back, item ≤ y :=
  sortedPlaceFrom_spec hs (nil_append items).symm (by simp)

theorem mem_iff_head (hs : (front ++ back).Pairwise (· < ·)) (hf : ∀ y ∈ front, y < item)
    (hb : ∀ y ∈ back, item ≤ y) : item ∈ front ++ back ↔ back.head? = some item := by
  have hnot : item ∉ front := fun h => lt_irrefl _ (hf item h)
  rw [mem_append, or_iff_right hnot]
  cases back with
  | nil => simp
  | cons x rest =>
    rw [head?_cons, some.injEq, mem_cons]
    constructor
    · rintro (rfl | hr)
      · rfl
      have hlt : x < item := (pairwise_cons.mp (pairwise_append.mp hs).2.1).1 item hr
      exact absurd (hb x mem_cons_self) (not_le.mpr hlt)
    · exact fun h => .inl h.symm

theorem contains_eq (hs : items.Pairwise (· < ·)) (item : α) :
    contains totalLt totalEq items item = some (decide (item ∈ items)) := by
  obtain ⟨front, back, rfl, hp, hf, hb⟩ := sortedPlace_spec hs item
  simp only [SortedSet.contains, hp, mem_iff_head hs hf hb]
  cases back with
  | nil => simp
  | cons x rest => simp [totalEq]

/-! ## Adding -/

def putAt (front : List α) (item : α) (back : List α) : List α :=
  if back.head? = some item then front ++ back else front ++ item :: back

theorem putAt_eq {front : List α} (item : α) {back : List α} : ∃ back', putAt front item back = front ++ back' := by
  unfold putAt
  split
  · exact ⟨back, rfl⟩
  · exact ⟨item :: back, rfl⟩

omit [LinearOrder α] in
theorem insertIdx_length_append {front back : List α} {item : α} :
    (front ++ back).insertIdx front.length item = front ++ item :: back := by
  induction front with
  | nil => rfl
  | cons x front ih => exact congrArg (x :: ·) ih

theorem put_at_place {front : List α} {item : α} {back : List α} (f : List α → Option (List α)) (same : α → Bool)
    (hs : ∀ x, same x = decide (item = x)) : (match (front ++ back)[front.length]? with
      | some x => if same x then f (front ++ back) else f ((front ++ back).insertIdx front.length item)
      | none => f (front ++ back ++ [item])) = f (putAt front item back) := by
  rw [getElem?_append_right le_rfl, Nat.sub_self, putAt]
  cases back with
  | nil => simp
  | cons x rest =>
    simp only [getElem?_cons_zero, hs, head?_cons, some.injEq, decide_eq_true_eq,
      insertIdx_length_append, eq_comm (a := item)]
    split <;> rfl

theorem Represents.putAt (h : Represents (front ++ back) s) (hf : ∀ y ∈ front, y < item)
    (hb : ∀ y ∈ back, item ≤ y) : Represents (putAt front item back) (insert item s) := by
  have hmem := mem_iff_head h.increasing hf hb
  unfold Types.putAt
  split
  · rename_i hh
    rwa [Finset.insert_eq_of_mem ((h.mem_iff item).mp (hmem.mpr hh))]
  rename_i hh
  have hnot : item ∉ back := fun hi => hh (hmem.mp (mem_append_right front hi))
  have hp := pairwise_append.mp h.increasing
  constructor
  · rw [pairwise_append, pairwise_cons]
    refine ⟨hp.1, ⟨fun y hy => lt_of_le_of_ne (hb y hy) ?_, hp.2.1⟩, fun y hy z hz => ?_⟩
    · rintro rfl
      exact hnot hy
    rcases mem_cons.mp hz with rfl | hz
    · exact hf y hy
    · exact hp.2.2 y hy z hz
  intro x
  rw [Finset.mem_insert, ← h.mem_iff, mem_append, mem_append, mem_cons]
  tauto

theorem Represents.add (h : Represents items s) (item : α) :
    ∃ xs', SortedSet.add totalLt totalEq items item = some xs' ∧ Represents xs' (insert item s) := by
  obtain ⟨front, back, rfl, hp, hf, hb⟩ := sortedPlace_spec h.increasing item
  refine ⟨Types.putAt front item back, ?_, h.putAt hf hb⟩
  rw [SortedSet.add, hp, bind_eq_bind]
  exact put_at_place some (totalEq · item) (fun x => by simp [totalEq, eq_comm])

theorem Represents.update (h : Represents items s) (xs : List α) :
    ∃ xs', SortedSet.update totalLt totalEq items xs = some xs' ∧ Represents xs' (s ∪ xs.toFinset) := by
  induction xs generalizing items s with
  | nil => exact ⟨items, rfl, by simpa using h⟩
  | cons x xs ih =>
    obtain ⟨xs₁, hadd, h₁⟩ := h.add x
    obtain ⟨xs₂, hupd, h₂⟩ := ih h₁
    refine ⟨xs₂, by simp [SortedSet.update, hadd, hupd], ?_⟩
    rwa [toFinset_cons, Finset.union_insert, ← Finset.insert_union]

theorem Represents.unionLoop (rest : List α) : ∀ {front back : List α} {s : Finset α}, Represents (front ++ back) s →
    rest.Pairwise (· < ·) → (∀ y ∈ front, ∀ z ∈ rest, y < z) →
    ∃ xs', unionLoop totalLt totalEq (front ++ back) front.length rest = some xs' ∧
      Represents xs' (s ∪ rest.toFinset) := by
  induction rest with
  | nil => exact fun h _ _ => ⟨_, rfl, by simpa using h⟩
  | cons item rest ih =>
    intro front back s h hr hbl
    rw [pairwise_cons] at hr
    obtain ⟨fr', back', hsp, hp, hf, hb⟩ := sortedPlaceFrom_spec h.increasing rfl
      fun y hy => hbl y hy item mem_cons_self
    rw [hsp] at h
    have hn : ∃ xs', SortedSet.unionLoop totalLt totalEq (Types.putAt fr' item back') fr'.length rest =
        some xs' ∧ Represents xs' (insert item s ∪ rest.toFinset) := by
      have hput := h.putAt hf hb
      have hl : ∀ y ∈ fr', ∀ z ∈ rest, y < z := fun y hy z hz => (hf y hy).trans (hr.1 z hz)
      obtain ⟨back'', hs⟩ := putAt_eq item
      rw [hs] at hput ⊢
      exact ih hput hr.2 hl
    rw [Finset.insert_union, ← Finset.union_insert, ← toFinset_cons] at hn
    obtain ⟨xs', hlp, hrep⟩ := hn
    refine ⟨xs', ?_, hrep⟩
    rw [SortedSet.unionLoop, hp, bind_eq_bind, hsp, ← hlp]
    exact put_at_place (fun items => SortedSet.unionLoop totalLt totalEq items fr'.length rest)
      (totalEq item) (fun x => rfl)

theorem Represents.union (h : Represents items s) {others : List (List α)} {ts : List (Finset α)}
    (hot : List.Forall₂ Represents others ts) :
    ∃ xs', union totalLt totalEq items others = some xs' ∧ Represents xs' (ts.foldl (· ∪ ·) s) := by
  induction hot generalizing items s with
  | nil => exact ⟨items, rfl, h⟩
  | @cons oth t others ts ho _ ih =>
    obtain ⟨xs₁, hl, h₁⟩ : ∃ xs₁, SortedSet.unionLoop totalLt totalEq items 0 oth = some xs₁ ∧
        Represents xs₁ (s ∪ oth.toFinset) :=
      @Represents.unionLoop α _ oth [] items s h ho.increasing (by simp)
    rw [ho.toFinset] at h₁
    obtain ⟨xs₂, hu, h₂⟩ := ih h₁
    exact ⟨xs₂, by simp [union, hl, hu], h₂⟩

/-! ## Differences and intersections -/

theorem diffLoop_eq (rest : List α) : ∀ {front back : List α}, (front ++ back).Pairwise (· < ·) →
    rest.Pairwise (· < ·) → (∀ y ∈ front, ∀ z ∈ rest, y < z) →
    diffLoop totalLt totalEq (front ++ back) front.length rest =
      some (rest.filter fun x => decide (x ∉ front ++ back)) := by
  induction rest with
  | nil => exact fun _ _ _ => rfl
  | cons item rest ih =>
    intro front back ho hr hbl
    rw [pairwise_cons] at hr
    obtain ⟨fr', back', hs, hp, hf, hb⟩ := sortedPlaceFrom_spec ho rfl fun y hy => hbl y hy item mem_cons_self
    rw [hs] at ho hp ⊢
    have hl := ih ho hr.2 fun y hy z hz => (hf y hy).trans (hr.1 z hz)
    have hmem := mem_iff_head ho hf hb
    simp only [diffLoop, hp, hl, bind_eq_bind, bind_some, filter_cons, hmem]
    cases back' with
    | nil => simp
    | cons x back' => by_cases hx : x = item <;> simp [totalEq, hx, eq_comm (a := item)]

theorem intersectLoop_eq (rest : List α) : ∀ {front back : List α}, (front ++ back).Pairwise (· < ·) →
    rest.Pairwise (· < ·) → (∀ y ∈ front, ∀ z ∈ rest, y < z) →
    intersectLoop totalLt totalEq (front ++ back) front.length rest =
      some (rest.filter fun x => decide (x ∈ front ++ back)) := by
  induction rest with
  | nil => exact fun _ _ _ => rfl
  | cons item rest ih =>
    intro front back ho hr hbl
    rw [pairwise_cons] at hr
    obtain ⟨front', back', hs, hp, hf, hb⟩ := sortedPlaceFrom_spec ho rfl fun y hy => hbl y hy item mem_cons_self
    rw [hs] at ho hp ⊢
    have hl : ∀ y ∈ front', ∀ z ∈ rest, y < z := fun y hy z hz => (hf y hy).trans (hr.1 z hz)
    have hlp := ih ho hr.2 hl
    have hmem := mem_iff_head ho hf hb
    simp only [intersectLoop, hp, hlp, bind_eq_bind, bind_some, filter_cons, hmem]
    cases back' with
    | nil =>
      -- All that the other set has is below the item, and so below the items that follow it.
      have hn : ∀ z ∈ rest, z ∉ front' := fun z hz hin => lt_irrefl z (hl z hin z hz)
      simpa using hn
    | cons x back' => by_cases hx : x = item <;> simp [totalEq, hx, eq_comm (a := item)]

theorem diff_eq (hi : items.Pairwise (· < ·)) (ho : oth.Pairwise (· < ·)) :
    diff totalLt totalEq items oth = some (items.filter fun x => decide (x ∉ oth)) :=
  @diffLoop_eq α _ items [] oth ho hi (by simp)

theorem intersect_eq (hi : items.Pairwise (· < ·)) (ho : oth.Pairwise (· < ·)) :
    intersect totalLt totalEq items oth = some (items.filter fun x => decide (x ∈ oth)) :=
  @intersectLoop_eq α _ items [] oth ho hi (by simp)

namespace Represents

variable {s t : Finset α}

section

variable (h : Represents items s)
include h

theorem diff (ho : Represents oth t) : ∃ xs', diff totalLt totalEq items oth = some xs' ∧ Represents xs' (s \ t) := by
  refine ⟨_, diff_eq h.increasing ho.increasing, ?_⟩
  convert h.filter (· ∉ oth)
  ext x
  simp [ho.mem_iff]

theorem intersect (ho : Represents oth t) :
    ∃ xs', intersect totalLt totalEq items oth = some xs' ∧ Represents xs' (s ∩ t) := by
  refine ⟨_, intersect_eq h.increasing ho.increasing, ?_⟩
  convert h.filter (· ∈ oth)
  ext x
  simp [ho.mem_iff]

theorem isEmpty_iff : items.isEmpty ↔ s = ∅ := by
  rw [List.isEmpty_iff, ← length_eq_zero_iff, h.length, Finset.card_eq_zero]

end

variable {others : List (List α)} {ts : List (Finset α)}

section

variable (h : Represents items s)
include h

theorem difference (hot : List.Forall₂ Represents others ts) :
    ∃ xs', difference totalLt totalEq items others = some xs' ∧ Represents xs' (ts.foldl (· \ ·) s) := by
  induction hot generalizing items s with
  | nil => exact ⟨items, rfl, h⟩
  | @cons oth t others ts ho _ ih =>
    obtain ⟨xs₁, hd, h₁⟩ := h.diff ho
    rw [difference, hd, bind_eq_bind, bind_some]
    by_cases he : xs₁.isEmpty
    · have hset := h₁.isEmpty_iff.mp he
      rw [if_pos he, foldl_cons, hset, foldl_fixed' Finset.empty_sdiff]
      exact ⟨xs₁, rfl, hset ▸ h₁⟩
    rw [if_neg he]
    exact ih h₁

theorem intersection (hot : List.Forall₂ Represents others ts) :
    ∃ xs', intersection totalLt totalEq items others = some xs' ∧ Represents xs' (ts.foldl (· ∩ ·) s) := by
  induction hot generalizing items s with
  | nil => exact ⟨items, rfl, h⟩
  | @cons oth t others ts ho _ ih =>
    obtain ⟨xs₁, hi, h₁⟩ := h.intersect ho
    rw [intersection, hi, bind_eq_bind, bind_some]
    by_cases he : xs₁.isEmpty
    · have hset := h₁.isEmpty_iff.mp he
      rw [if_pos he, foldl_cons, hset, foldl_fixed' Finset.empty_inter]
      exact ⟨xs₁, rfl, hset ▸ h₁⟩
    rw [if_neg he]
    exact ih h₁

theorem symmetricDifference (ho : Represents oth t) :
    ∃ xs', symmetricDifference totalLt totalEq items oth = some xs' ∧ Represents xs' (symmDiff s t) := by
  obtain ⟨left, hl, hs⟩ := h.diff ho
  obtain ⟨right, hr, ht⟩ := ho.difference (.cons h .nil)
  obtain ⟨xs', hu, hi⟩ := hs.union (.cons ht .nil)
  exact ⟨xs', by simp [SortedSet.symmetricDifference, hl, hr, hu], hi⟩

end

/-! ## Tests -/

section

variable (h : Represents items s)
include h

variable (ho : Represents oth t)
include ho

theorem isdisjoint : SortedSet.isdisjoint totalLt totalEq items oth = some (decide (Disjoint s t)) := by
  obtain ⟨isect, hi, hst⟩ := h.intersect ho
  simp only [SortedSet.isdisjoint, hi, bind_eq_bind, bind_some, Option.pure_def, hst.length,
    Finset.card_eq_zero, Finset.disjoint_iff_inter_eq_empty]

theorem issubset : issubset totalLt totalEq items oth = some (decide (s ⊆ t)) := by
  obtain ⟨isect, hi, hst⟩ := h.intersect ho
  have hcr : (s ∩ t).card = s.card ↔ s ⊆ t := by
    rw [← Finset.inter_eq_left]
    exact ⟨fun hc => Finset.eq_of_subset_of_card_le Finset.inter_subset_left hc.ge, congrArg Finset.card⟩
  simp only [SortedSet.issubset, hi, Option.bind_eq_bind, Option.bind_some, Option.pure_def, hst.length, h.length, hcr]

theorem issuperset : issuperset totalLt totalEq items oth = some (decide (t ⊆ s)) := by
  obtain ⟨isect, hi, hst⟩ := h.intersect ho
  have hcr : (s ∩ t).card = t.card ↔ t ⊆ s := by
    rw [← Finset.inter_eq_right]
    exact ⟨fun hc => Finset.eq_of_subset_of_card_le Finset.inter_subset_right hc.ge, congrArg Finset.card⟩
  simp only [SortedSet.issuperset, hi, Option.bind_eq_bind, Option.bind_some, Option.pure_def, hst.length,
    ho.length, hcr]

theorem less : SortedSet.less totalLt totalEq items oth = some (decide (s ⊂ t)) := by
  rw [SortedSet.less, h.length, ho.length, h.issubset ho]
  split
  · rename_i hlt
    have hiff : s ⊆ t ↔ s ⊂ t := ⟨fun hsub => hsub.ssubset_of_ne fun he => by simp [he] at hlt, fun hss => hss.subset⟩
    simp only [hiff]
  rename_i hle
  have hnot : ¬ s ⊂ t := fun hss => hle (Finset.card_lt_card hss)
  simp [hnot]

theorem greater : SortedSet.greater totalLt totalEq items oth = some (decide (t ⊂ s)) := by
  rw [SortedSet.greater, h.length, ho.length, h.issuperset ho]
  split
  · rename_i hlt
    have hiff : t ⊆ s ↔ t ⊂ s := ⟨fun hsub => hsub.ssubset_of_ne fun he => by simp [he] at hlt, fun hss => hss.subset⟩
    simp only [hiff]
  rename_i hle
  have hnot : ¬ t ⊂ s := fun hss => hle (Finset.card_lt_card hss)
  simp [hnot]

end

theorem equal_eq {items oth : List α} : equal totalEq items oth = decide (items = oth) := by
  induction items generalizing oth with
  | nil => cases oth <;> simp [equal]
  | cons x items ih => cases oth <;> simp [equal, totalEq, ih]

theorem equal (h : Represents items s) (ho : Represents oth t) : equal totalEq items oth = decide (s = t) := by
  rw [equal_eq, decide_eq_decide]
  constructor
  · rintro rfl
    rw [← h.toFinset, ho.toFinset]
  rintro rfl
  exact h.unique ho

/-! ## Removing -/

variable (h : Represents items s)
include h

theorem contains (item : α) : contains totalLt totalEq items item = some (decide (item ∈ s)) := by
  rw [contains_eq h.increasing, decide_eq_decide.mpr (h.mem_iff item)]

theorem remove (item : α) : ∃ xs', remove totalLt totalEq items item = some (if item ∈ s then some xs' else none) ∧
      (item ∈ s → Represents xs' (s.erase item)) := by
  obtain ⟨front, back, rfl, hpl, hf, hb⟩ := sortedPlace_spec h.increasing item
  have hmem := (h.mem_iff item).symm.trans (mem_iff_head h.increasing hf hb)
  simp only [remove, hpl, bind_eq_bind, bind_some, getElem?_append_right (Nat.le_refl _), Nat.sub_self, hmem]
  cases back with
  | nil => exact ⟨[], by simp, by simp⟩
  | cons x rest =>
    refine ⟨front ++ rest, ?_, ?_⟩
    · have he : (front ++ x :: rest).eraseIdx front.length = front ++ rest := by
        rw [eraseIdx_append_of_length_le (Nat.le_refl _), Nat.sub_self, eraseIdx_cons_zero]
      simp only [getElem?_cons_zero, totalEq, decide_eq_true_eq, he, head?_cons, Option.some.injEq]
      split <;> rfl
    rw [head?_cons, Option.some.injEq]
    rintro rfl
    have hp := pairwise_append.mp h.increasing
    refine ⟨h.increasing.sublist (by simp), fun y => ?_⟩
    rw [Finset.mem_erase, ← h.mem_iff]
    simp only [mem_append, mem_cons]
    have hbl : y ∈ front → y ≠ x := fun hy => ne_of_lt (hf y hy)
    have ha : y ∈ rest → y ≠ x := fun hy => ne_of_gt ((pairwise_cons.mp hp.2.1).1 y hy)
    tauto

theorem pop : (s = ∅ ∧ pop items = none) ∨
      ∃ (x : α) (xs' : List α), s.max = x ∧ pop items = some (x, xs') ∧ Represents xs' (s.erase x) := by
  rcases items.eq_nil_or_concat' with rfl | ⟨front, x, rfl⟩
  · exact .inl ⟨h.toFinset.symm, rfl⟩
  have hp := pairwise_append.mp h.increasing
  have hb : ∀ y ∈ front, y < x := fun y hy => hp.2.2 y hy x (by simp)
  have hx : x ∈ s := (h.mem_iff x).mp (by simp)
  refine .inr ⟨x, front, ?_, by simp [pop], hp.1, fun y => ?_⟩
  · refine le_antisymm (Finset.max_le fun y hy => ?_) (Finset.le_max hx)
    rcases mem_append.mp ((h.mem_iff y).mpr hy) with hy | hy
    · exact WithBot.coe_le_coe.mpr (hb y hy).le
    · exact WithBot.coe_le_coe.mpr (mem_singleton.mp hy).le
  rw [Finset.mem_erase, ← h.mem_iff, mem_append, mem_singleton]
  have : y ∈ front → y ≠ x := fun hy => ne_of_lt (hb y hy)
  tauto

end Represents

end CqlDriver.Types
