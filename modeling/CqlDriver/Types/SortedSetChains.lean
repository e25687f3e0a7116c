import CqlDriver.Types.SortedSetLaws
import Mathlib.Data.Fintype.Basic
import Mathlib.Data.List.FinRange
import Mathlib.Data.List.Sort

/-! # `SortedSet` over any comparison -/

namespace CqlDriver.Types

open Lib List Option SortedSet

variable {α β : Type} {lt : α → α → Option Bool} {eq : α → α → Bool}

/-! ## Elements by their places -/

structure Embeds (lt' : β → β → Option Bool) (eq' : β → β → Bool) (lt : α → α → Option Bool) (eq : α → α → Bool)
    (f : β → α) : Prop where
  lt_map : ∀ x y, lt (f x) (f y) = lt' x y
  eq_map : ∀ x y, eq (f x) (f y) = eq' x y

namespace Embeds

variable {lt' : β → β → Option Bool} {eq' : β → β → Bool} {f : β → α} (h : Embeds lt' eq' lt eq f)
include h

variable (xs : List β)

section

variable (item : β)

theorem bisectLoopM (fuel : Nat) : ∀ lo hi, Lib.bisectLoopM (fun y => lt y (f item)) (xs.map f) fuel lo hi =
      Lib.bisectLoopM (fun y => lt' y item) xs fuel lo hi := by
  induction fuel with
  | zero => exact fun _ _ => rfl
  | succ fuel ih =>
    intro lo hi
    simp only [Lib.bisectLoopM, getElem?_map, ih]
    cases xs[(lo + hi) / 2]? with
    | none => rfl
    | some y => simp only [map_some, h.lt_map]

theorem sortedPlace : Types.sortedPlace lt (xs.map f) (f item) = Types.sortedPlace lt' xs item := by
  rw [Types.sortedPlace, Types.sortedPlace, length_map, h.bisectLoopM]

theorem contains : SortedSet.contains lt eq (xs.map f) (f item) = SortedSet.contains lt' eq' xs item := by
  rw [SortedSet.contains, SortedSet.contains, h.sortedPlace]
  cases Types.sortedPlace lt' xs item with
  | none => rfl
  | some i =>
    simp only [bind_eq_bind, bind_some, getElem?_map]
    cases xs[i]? with
    | none => rfl
    | some x => simp only [map_some, h.eq_map]

theorem add : SortedSet.add lt eq (xs.map f) (f item) = (SortedSet.add lt' eq' xs item).map (map f) := by
  rw [SortedSet.add, SortedSet.add, h.sortedPlace]
  cases Types.sortedPlace lt' xs item with
  | none => rfl
  | some i =>
    simp only [bind_eq_bind, bind_some, getElem?_map]
    cases xs[i]? with
    | none => simp
    | some x =>
      simp only [map_some, h.eq_map]
      cases eq' x item with
      | true => rfl
      | false => simp [map_insertIdx]

end

theorem update : ∀ its : List β,
    SortedSet.update lt eq (its.map f) (xs.map f) = (SortedSet.update lt' eq' its xs).map (map f) := by
  induction xs with
  | nil => exact fun _ => rfl
  | cons x xs ih =>
    intro its
    rw [map_cons, SortedSet.update, SortedSet.update, h.add]
    cases SortedSet.add lt' eq' its x with
    | none => rfl
    | some xs' => exact ih xs'

end Embeds

/-! ## Chains -/

structure Precedes (lt : α → α → Option Bool) (eq : α → α → Bool) (a b : α) : Prop where
  below : lt a b = some true
  not_above : lt b a = some false
  ne : eq a b = false
  ne' : eq b a = false

structure Chain (lt : α → α → Option Bool) (eq : α → α → Bool) (ws : List α) : Prop where
  ordered : ws.Pairwise (Precedes lt eq)
  self : ∀ w ∈ ws, lt w w = some false ∧ eq w w = true

variable {ws vs : List α}

theorem Chain.embeds (h : Chain lt eq ws) : Embeds totalLt totalEq lt eq (ws.get : Fin ws.length → α) := by
  have hp : ∀ {i j}, i < j → Precedes lt eq (ws.get i) (ws.get j) := fun hij =>
    pairwise_iff_get.mp h.ordered _ _ hij
  have hs : ∀ i, lt (ws.get i) (ws.get i) = some false ∧ eq (ws.get i) (ws.get i) :=
    fun i => h.self _ (get_mem ws i)
  constructor
  · intro i j
    rcases lt_trichotomy i j with hij | rfl | hji
    · rw [(hp hij).below, totalLt, decide_eq_true hij]
    · rw [(hs i).1, totalLt, decide_eq_false (lt_irrefl i)]
    · rw [(hp hji).not_above, totalLt, decide_eq_false (lt_asymm hji)]
  intro i j
  rcases lt_trichotomy i j with hij | rfl | hji
  · rw [(hp hij).ne, totalEq, decide_eq_false (ne_of_lt hij)]
  · rw [(hs i).2, totalEq, decide_eq_true rfl]
  · rw [(hp hji).ne', totalEq, decide_eq_false (ne_of_gt hji)]

theorem Chain.update (h : Chain lt eq ws) (hp : vs.Perm ws) :
    SortedSet.update lt eq [] vs = some ws ∧ ∀ v ∈ vs, contains lt eq ws v = some true := by
  let places := finRange ws.length
  have hws : places.map ws.get = ws := map_get_finRange ws
  -- The elements come by their places in some order.
  obtain ⟨ord, rfl, ho⟩ : ∃ ord : List (Fin ws.length), vs = ord.map ws.get ∧ ord.Perm places := by
    have hc : ((· ~ map ws.get ·) : List α → List (Fin ws.length) → Prop) vs places := by
      show vs ~ places.map ws.get
      rwa [hws]
    rw [← eq_map_comp_perm] at hc
    exact hc
  have hpl : Represents places Finset.univ := ⟨pairwise_lt_finRange _, by simp [places]⟩
  obtain ⟨xs, hupd, hi⟩ := Represents.nil.update ord
  have hall : (∅ ∪ ord.toFinset : Finset (Fin ws.length)) = Finset.univ := by
    ext i
    simp [ho.mem_iff, places]
  obtain rfl := hpl.unique (hall ▸ hi)
  constructor
  · have hmap := h.embeds.update ord []
    rw [hupd, map_some, hws] at hmap
    exact hmap
  intro v hv
  obtain ⟨i, -, rfl⟩ := mem_map.mp hv
  have hf := h.embeds.contains places i
  rw [contains_eq hpl.increasing] at hf
  simpa [places] using hf

/-! ## Keys -/

def Different (eq : α → α → Bool) (a b : α) : Prop := eq a b = false ∧ eq b a = false

/-- The comparisons are those of a key in a total order. -/
def Keyed (lt : α → α → Option Bool) (eq : α → α → Bool) (P : α → Prop) : Prop :=
  ∃ (κ : Type) (_ : LinearOrder κ) (key : α → κ), ∀ a b, P a → P b →
    (∃ below, lt a b = some below ∧ (below = true ↔ key a < key b)) ∧ (eq a b = true ↔ key a = key b)

theorem Keyed.exists_chain {P : α → Prop} (h : Keyed lt eq P) (hP : ∀ v ∈ vs, P v)
    (hd : vs.Pairwise (Different eq)) : ∃ ws, vs.Perm ws ∧ Chain lt eq ws := by
  obtain ⟨κ, _, key, hkey⟩ := h
  let ws := vs.insertionSort (fun a b => key a ≤ key b)
  have hp : ws.Perm vs := perm_insertionSort _ vs
  have hmem : ∀ {w}, w ∈ ws → P w := fun hw => hP _ (hp.mem_iff.mp hw)
  have hsr : ws.Pairwise fun a b => key a ≤ key b := by
    exact pairwise_insertionSort _ vs
  have hd : ws.Pairwise (Different eq) := by
    refine (hp.pairwise_iff ?_).mpr hd
    exact fun hab => ⟨hab.2, hab.1⟩
  have hlt : ∀ {a b}, a ∈ ws → b ∈ ws → lt a b = some (decide (key a < key b)) := by
    intro a b ha hb
    obtain ⟨below, hbl, hiff⟩ := (hkey a b (hmem ha) (hmem hb)).1
    rw [hbl, some.injEq, Bool.eq_iff_iff, hiff, decide_eq_true_iff]
  refine ⟨ws, hp.symm, ?_, ?_⟩
  · refine Pairwise.imp_of_mem ?_ (hsr.and hd)
    intro a b ha hb hab
    have hl : key a < key b := by
      refine lt_of_le_of_ne hab.1 fun hs => ?_
      rw [← (hkey a b (hmem ha) (hmem hb)).2, hab.2.1] at hs
      cases hs
    refine ⟨?_, ?_, hab.2.1, hab.2.2⟩
    · rw [hlt ha hb, decide_eq_true hl]
    · rw [hlt hb ha, decide_eq_false (lt_asymm hl)]
  intro w hw
  rw [hlt hw hw, decide_eq_false (lt_irrefl _)]
  exact ⟨rfl, (hkey w w (hmem hw) (hmem hw)).2.mpr rfl⟩

/-! ## Where the elements are found -/

theorem bisectLoopM_before {bef : α → Option Bool} {xs : List α} (fuel : Nat) : ∀ {lo hi i : Nat},
    bisectLoopM bef xs fuel lo hi = some i → i = lo ∨ ∃ x, 0 < i ∧ xs[i - 1]? = some x ∧ bef x = some true := by
  induction fuel with
  | zero =>
    intro lo hi i h
    exact .inl (some.inj h).symm
  | succ fuel ih =>
    intro lo hi i h
    rw [bisectLoopM] at h
    split at h
    · cases hx : xs[(lo + hi) / 2]? with
      | none => simp [hx] at h
      | some x =>
        simp only [hx] at h
        cases hbef : bef x with
        | none => simp [hbef] at h
        | some b =>
          cases b with
          | true =>
            simp only [hbef] at h
            rcases ih h with rfl | hl
            · exact .inr ⟨x, Nat.succ_pos _, hx, hbef⟩
            · exact .inr hl
          | false =>
            simp only [hbef] at h
            exact ih h
    · exact .inl (some.inj h).symm

theorem below_of_found {a b : α} (hne : eq a b = false) (hne' : eq b a = false) {s : List α} (hp : s.Perm [a, b])
    (hf : ∀ v ∈ [a, b], contains lt eq s v = some true) : lt a b = some true ∨ lt b a = some true := by
  have hsnd : ∀ {x y}, eq x y = false → contains lt eq [x, y] y = some true → lt x y = some true := by
    intro x y hxy hy
    simp only [SortedSet.contains, bind_eq_bind, bind_eq_some_iff] at hy
    obtain ⟨i, hpl, hy⟩ := hy
    rcases bisectLoopM_before _ hpl with rfl | ⟨z, hpos, hz, ht⟩
    · simp [hxy] at hy
    match i with
    | 1 =>
      cases hz
      exact ht
    | i + 2 => simp at hy
  obtain ⟨x, y, rfl⟩ := length_eq_two.mp hp.length_eq
  rcases mem_pair.mp (hp.subset mem_cons_self) with rfl | rfl
  · obtain rfl := singleton_perm_singleton.mp ((perm_cons x).mp hp)
    exact .inl (hsnd hne (hf y (by simp)))
  obtain rfl := singleton_perm_singleton.mp ((perm_cons x).mp (hp.trans (.swap x a [])))
  exact .inr (hsnd hne' (hf y (by simp)))

end CqlDriver.Types
