import CqlDriver.Lib.Run
import Mathlib.Data.List.Rotate

/-! # Taking turns -/

namespace CqlDriver.Lib

open List

variable {α : Type}

/-- Each turn has each element once, and each place too. -/
structure Balanced (xs : List α) (turns : List (List α)) : Prop where
  each_once : ∀ turn ∈ turns, turn.Nodup ∧ ∀ x, x ∈ turn ↔ x ∈ xs
  each_place : ∀ x ∈ xs, ∀ place < xs.length, ∃! i : Nat, ∃ turn, turns[i]? = some turn ∧ turn[place]? = some x

def turnsFrom (xs : List α) (pos n : Nat) : List (List α) := (List.range n).map fun i => xs.rotate (pos + i)

theorem turnsFrom_succ (xs : List α) (pos n : Nat) :
    turnsFrom xs pos (n + 1) = xs.rotate pos :: turnsFrom xs (pos + 1) n := by
  unfold turnsFrom
  rw [range_succ_eq_map, map_cons, map_map]
  congr 2
  funext i
  exact congrArg xs.rotate (by simp only [Nat.succ_eq_add_one]; omega)

theorem turnsFrom_place {xs : List α} {pos place i : Nat} (hp : place < xs.length) (hi : i < xs.length) :
    (xs.rotate (pos + i))[place]? = (xs.rotate (pos + place))[i]? := by
  rw [getElem?_rotate hp, getElem?_rotate hi]
  congr 2
  omega

theorem balanced_turnsFrom {xs : List α} (hn : xs.Nodup) (pos : Nat) : Balanced xs (turnsFrom xs pos xs.length) := by
  constructor
  · intro turn ht
    obtain ⟨i, -, rfl⟩ := mem_map.mp ht
    exact ⟨nodup_rotate.mpr hn, fun x => mem_rotate⟩
  intro x hx place hp
  have htr : ∀ i : Nat, (∃ turn, (turnsFrom xs pos xs.length)[i]? = some turn ∧ turn[place]? = some x) ↔
      (xs.rotate (pos + place))[i]? = some x := by
    intro i
    by_cases hi : i < xs.length
    · simp [turnsFrom, hi, turnsFrom_place hp hi]
    · simp [turnsFrom, hi]
  simp only [htr]
  obtain ⟨i, hi, rfl⟩ := getElem_of_mem (mem_rotate.mpr hx : x ∈ xs.rotate (pos + place))
  refine ⟨i, getElem?_eq_getElem hi, fun j hj => ?_⟩
  obtain ⟨hj, heq⟩ := List.getElem?_eq_some_iff.mp hj
  exact (nodup_rotate.mpr hn).getElem_inj_iff.mp heq

/-! ## In a run -/

section

variable {σ ι : Type} (step : σ → ι → σ) (isTurn : ι → Bool) (turn : σ → List α)

def turnsOf : σ → List ι → List (List α)
  | _, [] => []
  | s, a :: as => if isTurn a then turn s :: turnsOf (step s a) as else turnsOf (step s a) as

variable {step isTurn turn} {xs : σ → List α} {pos : σ → Nat}

theorem turnsOf_eq (ht : ∀ s, turn s = (xs s).rotate (pos s))
    (hpos : ∀ s a, pos (step s a) = if isTurn a then pos s + 1 else pos s) (as : List ι) :
    ∀ s, RunOk step (fun s a => xs (step s a) = xs s) s as →
      turnsOf step isTurn turn s as = turnsFrom (xs s) (pos s) (as.countP isTurn) := by
  induction as with
  | nil => exact fun s _ => rfl
  | cons a as ih =>
    rintro s ⟨hs, hr⟩
    have hn := ih (step s a) hr
    rw [hs, hpos] at hn
    rw [turnsOf, hn]
    cases ha : isTurn a with
    | true => rw [if_pos rfl, if_pos rfl, countP_cons_of_pos ha, turnsFrom_succ, ht]
    | false => simp [ha]

end

end CqlDriver.Lib
