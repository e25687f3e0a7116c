import Mathlib.Logic.Function.Basic

/-! # A map merged from the maps of several owners -/

namespace CqlDriver.Lib

variable {ο κ ν : Type}

/-- `d` has the entries of all the maps `part o` and no others. -/
def IsUnion (d : κ → Option ν) (part : ο → κ → Option ν) : Prop := ∀ k v, d k = some v ↔ ∃ o, part o k = some v

theorem IsUnion.disjoint {d : κ → Option ν} {part : ο → κ → Option ν} {own : ν → ο} (h : IsUnion d part)
    (hown : ∀ o k v, part o k = some v → own v = o) {o o' : ο} (ho : o' ≠ o) {k : κ} (hk : (part o k).isSome) :
    part o' k = none := by
  obtain ⟨v, hv⟩ := Option.isSome_iff_exists.mp hk
  by_contra hne
  obtain ⟨w, hw⟩ := Option.ne_none_iff_exists'.mp hne
  have hvw : some v = some w := ((h k v).mpr ⟨o, hv⟩).symm.trans ((h k w).mpr ⟨o', hw⟩)
  rw [← hown o' k w hw, ← Option.some.inj hvw, hown o k v hv] at ho
  exact ho rfl

variable [DecidableEq ο] {d d' : κ → Option ν} {part : ο → κ → Option ν} {own : ν → ο} {o : ο} {new : κ → Option ν}

variable (h : IsUnion d part)
include h

variable (hown : ∀ o k v, part o k = some v → own v = o)
include hown

/-- The union stays right exactly if no other owner has a new key. -/
theorem IsUnion.update_iff (hnew : ∀ k v, new k = some v → own v = o) (hset : ∀ k v, new k = some v → d' k = some v)
    (hg : ∀ k, new k = none → (part o k).isSome → d' k = none) (hr : ∀ k, new k = none → part o k = none → d' k = d k) :
    IsUnion d' (Function.update part o new) ↔ ∀ o', o' ≠ o → ∀ k, (new k).isSome → part o' k = none := by
  constructor
  · intro hu o' ho' k hk
    obtain ⟨v, hv⟩ := Option.isSome_iff_exists.mp hk
    by_contra hne
    obtain ⟨w, hw⟩ := Option.ne_none_iff_exists'.mp hne
    have hm : d' k = some w := (hu k w).mpr ⟨o', by rw [Function.update_of_ne ho', hw]⟩
    rw [hset k v hv, Option.some.injEq] at hm
    rw [← hown o' k w hw, ← hm, hnew k v hv] at ho'
    exact ho' rfl
  intro hc k v
  constructor
  · intro hv
    cases hk : new k with
    | some w =>
      rw [hset k w hk] at hv
      exact ⟨o, by rw [Function.update_self, hk, hv]⟩
    | none =>
      cases hold : part o k with
      | some w =>
        rw [hg k hk (by rw [hold]; rfl)] at hv
        cases hv
      | none =>
        rw [hr k hk hold] at hv
        obtain ⟨o', ho'⟩ := (h k v).mp hv
        have hne : o' ≠ o := by
          rintro rfl
          rw [hold] at ho'
          cases ho'
        exact ⟨o', by rw [Function.update_of_ne hne, ho']⟩
  rintro ⟨o', ho'⟩
  by_cases hne : o' = o
  · rw [hne, Function.update_self] at ho'
    exact hset k v ho'
  rw [Function.update_of_ne hne] at ho'
  have hk : new k = none := by
    by_contra hk
    rw [hc o' hne k (Option.isSome_iff_ne_none.mpr hk)] at ho'
    cases ho'
  have hold : part o k = none := h.disjoint hown (Ne.symm hne) (by rw [ho']; rfl)
  rw [hr k hk hold]
  exact (h k v).mpr ⟨o', ho'⟩

theorem IsUnion.remove (hg : ∀ k, (part o k).isSome → d' k = none) (hr : ∀ k, part o k = none → d' k = d k) :
    IsUnion d' (Function.update part o fun _ => none) := by
  refine (h.update_iff hown ?_ ?_ (fun k _ => hg k) (fun k _ => hr k)).mpr ?_
  · nofun
  · nofun
  · nofun

theorem IsUnion.update_key_iff [DecidableEq κ]
    {key : κ} {x : Option ν} (hx : ∀ v, x = some v → own v = o) (hhad : x = none → (part o key).isSome)
    (hnew : ∀ k, new k = if k = key then x else part o k) (hd' : ∀ k, d' k = if k = key then x else d k) :
    IsUnion d' (Function.update part o new) ↔ (x.isSome → ∀ o', o' ≠ o → part o' key = none) := by
  have hkp : ∀ k v, k ≠ key → new k = some v → part o k = some v ∧ d' k = some v := by
    intro k v hk hv
    rw [hnew, if_neg hk] at hv
    rw [hd', if_neg hk]
    exact ⟨hv, (h k v).mpr ⟨o, hv⟩⟩
  refine (h.update_iff hown ?_ ?_ ?_ ?_).trans ⟨?_, ?_⟩
  · intro k v hv
    by_cases hk : k = key
    · rw [hnew, if_pos hk] at hv
      exact hx v hv
    · exact hown o k v (hkp k v hk hv).1
  · intro k v hv
    by_cases hk : k = key
    · rw [hnew, if_pos hk] at hv
      rw [hd', if_pos hk, hv]
    · exact (hkp k v hk hv).2
  · intro k hv hold
    rw [hnew] at hv
    rw [hd']
    split at hv
    · rename_i hk
      rw [if_pos hk, hv]
    rw [hv] at hold
    cases hold
  · intro k hv hold
    rw [hnew] at hv
    rw [hd']
    split at hv
    · rename_i hk
      rw [← hk, hold] at hhad
      cases hhad hv
    rename_i hk
    rw [if_neg hk]
  · intro hc hs o' ho'
    exact hc o' ho' key (by rw [hnew, if_pos rfl]; exact hs)
  intro hc o' ho' k hk
  rw [hnew] at hk
  split at hk
  · rename_i hkey
    rw [hkey]
    exact hc hk o' ho'
  · exact h.disjoint hown ho' hk

end CqlDriver.Lib
