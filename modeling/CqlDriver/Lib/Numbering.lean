import CqlDriver.Lib.Dict
import Mathlib.Algebra.GroupWithZero.Nat

/-! # Consecutive numbers for a list of items -/

namespace CqlDriver.Lib

open List

def starts : Nat → List Nat → List Nat
  | _, [] => []
  | i, n :: sizes => i :: starts (i + n) sizes

theorem length_starts (sizes : List Nat) : ∀ i, (starts i sizes).length = sizes.length := by
  induction sizes with
  | nil => exact fun _ => rfl
  | cons n sizes ih => exact fun i => congrArg (· + 1) (ih (i + n))

section Slots

variable {σ γ : Type} [DecidableEq σ] (slot : γ → σ) (size : γ → Nat)

def number : (σ → Nat) → Nat → List γ → σ → Nat
  | ids, _, [] => ids
  | ids, i, x :: items => number (Function.update ids (slot x) i) (i + size x) items

variable {slot size}

variable {xs : List γ}

theorem number_of_not_mem {s : σ} (h : s ∉ xs.map slot) :
    ∀ (ids : σ → Nat) (i : Nat), number slot size ids i xs s = ids s := by
  induction xs with
  | nil => exact fun _ _ => rfl
  | cons x xs ih =>
    intro ids i
    rw [map_cons, mem_cons, not_or] at h
    rw [number, ih h.2, Function.update_of_ne h.1]

theorem map_number (h : (xs.map slot).Nodup) : ∀ (ids : σ → Nat) (i : Nat),
      xs.map (fun x => number slot size ids i xs (slot x)) = starts i (xs.map size) := by
  induction xs with
  | nil => exact fun _ _ => rfl
  | cons x xs ih =>
    intro ids i
    rw [map_cons, nodup_cons] at h
    simp only [number, map_cons, starts, cons.injEq]
    refine ⟨?_, ih h.2 _ _⟩
    rw [number_of_not_mem h.1, Function.update_self]

end Slots

variable {γ κ ν : Type} {xs : List γ}

theorem flatMap_starts {size : γ → Nat} {numbers : γ → List Nat} (first : γ → Nat)
    (hn : ∀ x ∈ xs, numbers x = range' (first x) (size x)) : ∀ {i : Nat}, xs.map first = starts i (xs.map size) →
      xs.flatMap numbers = range' i (xs.map size).sum := by
  induction xs with
  | nil => exact fun _ => rfl
  | cons x xs ih =>
    intro i h
    rw [forall_mem_cons] at hn
    simp only [map_cons, starts, cons.injEq] at h
    rw [flatMap_cons, hn.1, ih hn.2 h.2, h.1, map_cons, sum_cons, range'_append_1]

theorem foldl_eq_setAll [DecidableEq κ] {f : Dict κ ν → γ → Dict κ ν} {ps : γ → List (κ × ν)}
    (h : ∀ x ∈ xs, ∀ d, f d x = d.setAll (ps x)) : ∀ d, xs.foldl f d = d.setAll (xs.flatMap ps) := by
  induction xs with
  | nil => exact fun _ => rfl
  | cons x xs ih =>
    intro d
    rw [forall_mem_cons] at h
    rw [foldl_cons, ih h.2, h.1]
    exact (Dict.setAll_append d _ _).symm

theorem map_get?_of_entries [DecidableEq κ] {keys : γ → List κ} {vs : γ → List ν}
    (hlen : ∀ x ∈ xs, (keys x).length = (vs x).length) {d : Dict κ ν}
    (hd : d.entries = xs.flatMap fun x => (keys x).zip (vs x)) {x : γ} (hx : x ∈ xs) :
    (keys x).map d.get? = (vs x).map some := by
  apply ext_getElem (by simp [hlen x hx])
  intro n hn hn'
  rw [getElem_map, getElem_map, Dict.get?_eq_some, hd]
  refine mem_flatMap.mpr ⟨x, hx, ?_⟩
  rw [length_map] at hn hn'
  have hzip : n < ((keys x).zip (vs x)).length := by
    rw [length_zip]
    omega
  rw [← getElem_zip (h := hzip)]
  exact getElem_mem hzip

end CqlDriver.Lib
