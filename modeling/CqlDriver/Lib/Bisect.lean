import Mathlib.Order.Lattice
import Mathlib.Data.List.Basic

/-!
# Bisection

The loop of `bisect_left` and `bisect_right`: it finds the point up to which a test holds in a list
where it holds for a first part only.
-/

namespace CqlDriver.Lib

open List

variable {α : Type}

/-- Each round makes the range smaller. -/
def bisectLoop (before : α → Bool) (xs : List α) : Nat → Nat → Nat → Nat
  | 0, lo, _ => lo
  | fuel + 1, lo, hi =>
    if lo < hi then
      let mid := (lo + hi) / 2
      match xs[mid]? with
      | none => lo
      | some x => if before x then bisectLoop before xs fuel (mid + 1) hi else bisectLoop before xs fuel lo mid
    else lo

def bisectLeft [LT α] [DecidableLT α] (xs : List α) (x : α) (lo : Nat) : Nat :=
  bisectLoop (fun y => decide (y < x)) xs (xs.length - lo) lo xs.length

def bisectRight [LT α] [DecidableLT α] (xs : List α) (x : α) (lo : Nat) : Nat :=
  bisectLoop (fun y => !decide (x < y)) xs (xs.length - lo) lo xs.length

def bisectLoopM (before : α → Option Bool) (xs : List α) : Nat → Nat → Nat → Option Nat
  | 0, lo, _ => some lo
  | fuel + 1, lo, hi =>
    if lo < hi then
      let mid := (lo + hi) / 2
      match xs[mid]? with
      | none => none
      | some x =>
        match before x with
        | none => none
        | some true => bisectLoopM before xs fuel (mid + 1) hi
        | some false => bisectLoopM before xs fuel lo mid
    else some lo

variable {xs : List α} {before : α → Bool}

theorem bisectLoopM_eq {before : α → Option Bool} {test : α → Bool} (h : ∀ x ∈ xs, before x = some (test x))
    (fuel : Nat) :
    ∀ lo hi, hi ≤ xs.length → bisectLoopM before xs fuel lo hi = some (bisectLoop test xs fuel lo hi) := by
  induction fuel with
  | zero => intro lo hi _; rfl
  | succ fuel ih =>
    intro lo hi hlen
    rw [bisectLoopM, bisectLoop]
    split
    · have hmid : (lo + hi) / 2 < xs.length := by omega
      simp only [getElem?_eq_getElem hmid, h _ (getElem_mem hmid)]
      cases test xs[(lo + hi) / 2] with
      | true => exact ih _ _ hlen
      | false => exact ih _ _ (by omega)
    · rfl

theorem bisectLoop_le (before : α → Bool) (xs : List α) (fuel : Nat) :
    ∀ lo hi, lo ≤ hi → bisectLoop before xs fuel lo hi ≤ hi := by
  induction fuel with
  | zero => intro lo hi h; exact h
  | succ fuel ih =>
    intro lo hi h
    rw [bisectLoop]
    split
    · simp only
      split
      · exact h
      split
      · exact ih _ _ (by omega)
      · exact Nat.le_trans (ih _ _ (by omega)) (by omega)
    · exact h

def SplitsAt (before : α → Bool) (xs : List α) (point : Nat) : Prop :=
  point ≤ xs.length ∧ ∀ (i : Nat) (x : α), xs[i]? = some x → (before x = true ↔ i < point)

section

variable (hm : xs.Pairwise fun a b => before b = true → before a = true)
include hm

theorem before_of_le {i j : Nat} {a b : α}
    (ha : xs[i]? = some a) (hb : xs[j]? = some b) (hij : i ≤ j) (h : before b) : before a := by
  rcases Nat.lt_or_eq_of_le hij with hlt | rfl
  · obtain ⟨hi, rfl⟩ := List.getElem?_eq_some_iff.mp ha
    obtain ⟨hj, rfl⟩ := List.getElem?_eq_some_iff.mp hb
    exact pairwise_iff_getElem.mp hm i j hi hj hlt h
  rw [ha] at hb
  rwa [Option.some.inj hb]

theorem bisectLoop_splits (fuel : Nat) :
    ∀ lo hi, lo ≤ hi → hi ≤ xs.length → hi - lo ≤ fuel → (∀ i x, xs[i]? = some x → i < lo → before x) →
      (∀ i x, xs[i]? = some x → before x → i < hi) → SplitsAt before xs (bisectLoop before xs fuel lo hi) := by
  induction fuel with
  | zero =>
    intro lo hi hle hlen hf hlow hh
    obtain rfl : lo = hi := by omega
    exact ⟨hlen, fun i x hx => ⟨hh i x hx, hlow i x hx⟩⟩
  | succ fuel ih =>
    intro lo hi hle hlen hf hlow hh
    rw [bisectLoop]
    split
    · have hmid : (lo + hi) / 2 < xs.length := by omega
      simp only [getElem?_eq_getElem hmid]
      split
      · rename_i hbef
        refine ih _ _ (by omega) hlen (by omega) ?_ hh
        intro i x hx hi
        exact before_of_le hm hx (getElem?_eq_getElem hmid) (by omega) hbef
      rename_i ha
      refine ih _ _ (by omega) (by omega) (by omega) hlow ?_
      intro i x hx hbef
      by_contra hge
      exact ha (before_of_le hm (getElem?_eq_getElem hmid) hx (by omega) hbef)
    obtain rfl : lo = hi := by omega
    exact ⟨hlen, fun i x hx => ⟨hh i x hx, hlow i x hx⟩⟩

end

section LinearOrder

variable [LinearOrder α] {xs : List α}

theorem bisectRight_splits (hs : xs.Pairwise (· ≤ ·)) (x : α) :
    SplitsAt (fun y => !decide (x < y)) xs (bisectRight xs x 0) := by
  refine bisectLoop_splits ?_ _ 0 xs.length (Nat.zero_le _) le_rfl (by omega)
    (by intro i y _ hi; omega) (fun i y hy _ => (List.getElem?_eq_some_iff.mp hy).1)
  refine hs.imp ?_
  intro a b hab hb
  simp only [Bool.not_eq_true', decide_eq_false_iff_not, not_lt] at hb ⊢
  exact le_trans hab hb

theorem bisectLeft_splits (hs : xs.Pairwise (· ≤ ·)) (x : α) (lo : Nat) (hlo : lo ≤ xs.length)
    (hlow : ∀ i y, xs[i]? = some y → i < lo → y < x) : SplitsAt (fun y => decide (y < x)) xs (bisectLeft xs x lo) := by
  refine bisectLoop_splits ?_ _ lo xs.length hlo le_rfl le_rfl
    (by simpa using hlow) (fun i y hy _ => (List.getElem?_eq_some_iff.mp hy).1)
  refine hs.imp ?_
  intro a b hab hb
  simp only [decide_eq_true_eq] at hb ⊢
  exact lt_of_le_of_lt hab hb

end LinearOrder

end CqlDriver.Lib
