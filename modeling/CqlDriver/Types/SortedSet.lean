import CqlDriver.Lib.Bisect
import Mathlib.Data.List.Perm.Basic

/-!
# `SortedSet`

A list that is kept sorted by bisection. Elements are compared with `<` and `==` of Python, and
`<` may raise.
-/

namespace CqlDriver.Types

open Lib

section

variable {α : Type} (lt : α → α → Option Bool) (eq : α → α → Bool)

def sortedPlace (items : List α) (item : α) : Option Nat :=
  bisectLoopM (fun y => lt y item) items items.length 0 items.length

def SortedSet.add (items : List α) (item : α) : Option (List α) := do
  let i ← sortedPlace lt items item
  match items[i]? with
  | some x => if eq x item then return items else return items.insertIdx i item
  | none => return items ++ [item]

def SortedSet.update (items : List α) : List α → Option (List α)
  | [] => some items
  | item :: rest => do SortedSet.update (← SortedSet.add lt eq items item) rest

def sortedPlaceFrom (items : List α) (item : α) (lo : Nat) : Option Nat :=
  bisectLoopM (fun y => lt y item) items (items.length - lo) lo items.length

namespace SortedSet

def contains (items : List α) (item : α) : Option Bool := do
  let i ← sortedPlace lt items item
  match items[i]? with
  | some x => return eq x item
  | none => return false

/-- `some none` is the `KeyError`. -/
def remove (items : List α) (item : α) : Option (Option (List α)) := do
  let i ← sortedPlace lt items item
  match items[i]? with
  | some x => if eq x item then return some (items.eraseIdx i) else return none
  | none => return none

/-- `none` is the `KeyError`. -/
def pop (items : List α) : Option (α × List α) := items.getLast?.map fun x => (x, items.dropLast)

/-- Each search starts where the one before it ended. -/
def unionLoop (items : List α) (i : Nat) : List α → Option (List α)
  | [] => some items
  | item :: rest => do
    let i ← sortedPlaceFrom lt items item i
    match items[i]? with
    | some x => if eq item x then unionLoop items i rest else unionLoop (items.insertIdx i item) i rest
    | none => unionLoop (items ++ [item]) i rest

def union (items : List α) : List (List α) → Option (List α)
  | [] => some items
  | other :: others => do union (← unionLoop lt eq items 0 other) others

def diffLoop (other : List α) (i : Nat) : List α → Option (List α)
  | [] => some []
  | item :: rest => do
    let i ← sortedPlaceFrom lt other item i
    let diff ← diffLoop other i rest
    match other[i]? with
    | some x => if eq item x then return diff else return item :: diff
    | none => return item :: diff

def diff (items other : List α) : Option (List α) := diffLoop lt eq other 0 items

/-- It ends when there is nothing left in the other set. -/
def intersectLoop (other : List α) (i : Nat) : List α → Option (List α)
  | [] => some []
  | item :: rest => do
    let i ← sortedPlaceFrom lt other item i
    match other[i]? with
    | some x =>
      let isect ← intersectLoop other i rest
      if eq item x then return item :: isect else return isect
    | none => return []

def intersect (items other : List α) : Option (List α) := intersectLoop lt eq other 0 items

def intersection (items : List α) : List (List α) → Option (List α)
  | [] => some items
  | other :: others => do
    let isect ← intersect lt eq items other
    if isect.isEmpty then return isect else intersection isect others

def difference (items : List α) : List (List α) → Option (List α)
  | [] => some items
  | other :: others => do
    let diff ← diff lt eq items other
    if diff.isEmpty then return diff else difference diff others

def symmetricDifference (items other : List α) : Option (List α) := do
  let diffSelfOther ← diff lt eq items other
  let diffOtherSelf ← difference lt eq other [items]
  union lt eq diffSelfOther [diffOtherSelf]

def isdisjoint (items other : List α) : Option Bool := do return (← intersect lt eq items other).length = 0

def issubset (items other : List α) : Option Bool := do return (← intersect lt eq items other).length = items.length

def issuperset (items other : List α) : Option Bool := do return (← intersect lt eq items other).length = other.length

def equal : List α → List α → Bool
  | [], [] => true
  | x :: xs, y :: ys => eq x y && equal xs ys
  | _, _ => false

def less (items other : List α) : Option Bool :=
  if other.length > items.length then issubset lt eq items other else some false

def greater (items other : List α) : Option Bool :=
  if items.length > other.length then issuperset lt eq items other else some false

end SortedSet

end

variable {α : Type} {lt : α → α → Option Bool} {eq : α → α → Bool}

theorem add_perm {xs : List α} {item : α} (hlt : ∀ x ∈ xs, (lt x item).isSome) (hne : ∀ x ∈ xs, eq x item = false) :
    ∃ xs', SortedSet.add lt eq xs item = some xs' ∧ xs'.Perm (item :: xs) := by
  have hp : ∃ i ≤ xs.length, sortedPlace lt xs item = some i := by
    have ht : ∀ x ∈ xs, lt x item = some ((lt x item).getD false) := by
      intro x hx
      obtain ⟨b, hb⟩ := Option.isSome_iff_exists.mp (hlt x hx)
      simp [hb]
    exact ⟨_, bisectLoop_le _ xs xs.length 0 xs.length (Nat.zero_le _), bisectLoopM_eq ht _ _ _ le_rfl⟩
  obtain ⟨i, hi, hp⟩ := hp
  simp only [SortedSet.add, hp, Option.bind_eq_bind, Option.bind_some]
  cases hx : xs[i]? with
  | some x =>
    simp only [hne x (List.mem_of_getElem? hx)]
    exact ⟨_, rfl, List.perm_insertIdx item xs hi⟩
  | none => exact ⟨_, rfl, List.perm_append_singleton item xs⟩

theorem update_perm (heq : ∀ a b, eq a b → a = b) (xs : List α) : ∀ its : List α,
    (∀ a ∈ its ++ xs, ∀ b ∈ its ++ xs, (lt a b).isSome) → (its ++ xs).Nodup →
    ∃ xs', SortedSet.update lt eq its xs = some xs' ∧ xs'.Perm (its ++ xs) := by
  induction xs with
  | nil => intro its _ _; exact ⟨its, rfl, by simp⟩
  | cons x xs ih =>
    intro its hlt hn
    have hnew : ∀ y ∈ its, eq y x = false := by
      intro y hy
      by_contra ht
      rw [Bool.not_eq_false] at ht
      exact (List.nodup_append.mp hn).2.2 y hy x List.mem_cons_self (heq y x ht)
    obtain ⟨xs₁, hadd, hp₁⟩ := add_perm (fun y hy => hlt y (by simp [hy]) x (by simp)) hnew
    have hp : (xs₁ ++ xs).Perm (its ++ x :: xs) :=
      (hp₁.append_right xs).trans List.perm_middle.symm
    obtain ⟨xs₂, hupd, hp₂⟩ := ih xs₁ (fun a ha b hb => hlt a (hp.subset ha) b (hp.subset hb)) (hp.nodup_iff.mpr hn)
    refine ⟨xs₂, ?_, hp₂.trans hp⟩
    simp [SortedSet.update, hadd, hupd]

end CqlDriver.Types
