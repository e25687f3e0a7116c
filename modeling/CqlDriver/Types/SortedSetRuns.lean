import CqlDriver.Lib.Run
import CqlDriver.Types.SortedSetLaws

/-! # Programs with `SortedSet`s -/

namespace CqlDriver.Types

open Lib SortedSet

variable {ι α : Type} [DecidableEq ι]

inductive SetOp (ι α : Type)
  | construct (a : ι) (iterable : List α)
  | add (a : ι) (item : α)
  | update (a : ι) (iterable : List α)
  | updateFrom (a b : ι)
  | remove (a : ι) (item : α)
  | pop (a : ι)
  | clear (a : ι)
  | copy (a b : ι)
  | iand (a b : ι)
  | ior (a b : ι)
  | isub (a b : ι)
  | ixor (a b : ι)

inductive SetResult (α : Type)
  | done
  | popped (item : α)
  | keyError
  | typeError

namespace SortedSet

variable (lt : α → α → Option Bool) (eq : α → α → Bool)

def assign (s : ι → List α) (a : ι) : Option (List α) → SetResult α × (ι → List α)
  | some items => (.done, Function.update s a items)
  | none => (.typeError, s)

def step (s : ι → List α) : SetOp ι α → SetResult α × (ι → List α)
  | .construct a iterable => assign s a (update lt eq [] iterable)
  | .add a item => assign s a (add lt eq (s a) item)
  | .update a iterable => assign s a (update lt eq (s a) iterable)
  | .updateFrom a b => assign s a (update lt eq (s a) (s b))
  | .remove a item =>
    match remove lt eq (s a) item with
    | some (some items) => (.done, Function.update s a items)
    | some none => (.keyError, s)
    | none => (.typeError, s)
  | .pop a =>
    match pop (s a) with
    | some (x, items) => (.popped x, Function.update s a items)
    | none => (.keyError, s)
  | .clear a => (.done, Function.update s a [])
  | .copy a b => (.done, Function.update s a (s b))
  | .iand a b => assign s a (intersect lt eq (s a) (s b))
  | .ior a b => assign s a (union lt eq (s a) [s b])
  | .isub a b => assign s a (diff lt eq (s a) (s b))
  | .ixor a b => assign s a (symmetricDifference lt eq (s a) (s b))

end SortedSet

/-! ## The sets -/

variable [LinearOrder α]

def finsetStep (t : ι → Finset α) : SetOp ι α → SetResult α × (ι → Finset α)
  | .construct a iterable => (.done, Function.update t a iterable.toFinset)
  | .add a item => (.done, Function.update t a (insert item (t a)))
  | .update a iterable => (.done, Function.update t a (t a ∪ iterable.toFinset))
  | .updateFrom a b | .ior a b => (.done, Function.update t a (t a ∪ t b))
  | .remove a item =>
    if item ∈ t a then (.done, Function.update t a ((t a).erase item)) else (.keyError, t)
  | .pop a =>
    match (t a).max with
    | some x => (.popped x, Function.update t a ((t a).erase x))
    | none => (.keyError, t)
  | .clear a => (.done, Function.update t a ∅)
  | .copy a b => (.done, Function.update t a (t b))
  | .iand a b => (.done, Function.update t a (t a ∩ t b))
  | .isub a b => (.done, Function.update t a (t a \ t b))
  | .ixor a b => (.done, Function.update t a (symmDiff (t a) (t b)))

variable {s : ι → List α} {t : ι → Finset α}

variable {a : ι} {u : Finset α}

theorem represents_update (h : ∀ a, Represents (s a) (t a)) {xs : List α} (hi : Represents xs u) (b : ι) :
    Represents (Function.update s a xs b) (Function.update t a u b) := by
  rw [Function.update_apply, Function.update_apply]
  split
  · exact hi
  · exact h b

theorem assign_represents (h : ∀ a, Represents (s a) (t a)) {res : Option (List α)}
    (hres : ∃ xs, res = some xs ∧ Represents xs u) : (assign s a res).1 = .done ∧
      ∀ b, Represents ((assign s a res).2 b) (Function.update t a u b) := by
  obtain ⟨xs, rfl, hi⟩ := hres
  exact ⟨rfl, represents_update h hi⟩

theorem step_represents (s : ι → List α) (t : ι → Finset α) (op : SetOp ι α) (h : ∀ a, Represents (s a) (t a)) :
    (SortedSet.step totalLt totalEq s op).1 = (finsetStep t op).1 ∧
      ∀ a, Represents ((SortedSet.step totalLt totalEq s op).2 a) ((finsetStep t op).2 a) := by
  cases op with
  | construct a iterable =>
    have hnew := Represents.nil.update iterable
    exact assign_represents h hnew
  | add a item => exact assign_represents h ((h a).add item)
  | update a iterable => exact assign_represents h ((h a).update iterable)
  | updateFrom a b =>
    have hb := (h a).update (s b)
    rw [(h b).toFinset] at hb
    exact assign_represents h hb
  | remove a item =>
    obtain ⟨xs, hrm, hi⟩ := (h a).remove item
    simp only [SortedSet.step, finsetStep, hrm]
    by_cases hmem : item ∈ t a
    · simp only [if_pos hmem]
      exact ⟨trivial, represents_update h (hi hmem)⟩
    simp only [if_neg hmem]
    exact ⟨trivial, h⟩
  | pop a =>
    simp only [SortedSet.step, finsetStep]
    rcases (h a).pop with ⟨he, hpop⟩ | ⟨x, xs, hmax, hpop, hi⟩
    · rw [hpop, he]
      exact ⟨rfl, h⟩
    rw [hpop, hmax]
    exact ⟨rfl, represents_update h hi⟩
  | clear a => exact ⟨rfl, represents_update h .nil⟩
  | copy a b => exact ⟨rfl, represents_update h (h b)⟩
  | iand a b => exact assign_represents h ((h a).intersect (h b))
  | ior a b => exact assign_represents h ((h a).union (.cons (h b) .nil))
  | isub a b => exact assign_represents h ((h a).diff (h b))
  | ixor a b => exact assign_represents h ((h a).symmetricDifference (h b))

omit [DecidableEq ι] in
theorem forall₂_represents (h : ∀ a, Represents (s a) (t a)) (bs : List ι) :
    List.Forall₂ Represents (bs.map s) (bs.map t) := by
  induction bs with
  | nil => exact .nil
  | cons b bs ih => exact .cons (h b) ih

/-- **`SortedSet` is a set**, in order, after any operations. -/
theorem sorted_set_refines (ops : List (SetOp ι α)) :
    let concrete := perform (SortedSet.step totalLt totalEq) (fun _ => []) ops
    let sets := perform finsetStep (fun _ => ∅) ops
    let s : ι → List α := concrete.2
    let t : ι → Finset α := sets.2
    concrete.1 = sets.1 ∧
    (∀ a, Represents (s a) (t a) ∧ ∀ item, contains totalLt totalEq (s a) item = some (decide (item ∈ t a))) ∧
    (∀ a (bs : List ι),
      (∃ items, union totalLt totalEq (s a) (bs.map s) = some items ∧
        Represents items ((bs.map t).foldl (· ∪ ·) (t a))) ∧
      (∃ items, intersection totalLt totalEq (s a) (bs.map s) = some items ∧
        Represents items ((bs.map t).foldl (· ∩ ·) (t a))) ∧
      ∃ items, difference totalLt totalEq (s a) (bs.map s) = some items ∧
        Represents items ((bs.map t).foldl (· \ ·) (t a))) ∧
    ∀ a b,
      (∃ items, symmetricDifference totalLt totalEq (s a) (s b) = some items ∧
        Represents items (symmDiff (t a) (t b))) ∧
      issubset totalLt totalEq (s a) (s b) = some (decide (t a ⊆ t b)) ∧
      issuperset totalLt totalEq (s a) (s b) = some (decide (t b ⊆ t a)) ∧
      isdisjoint totalLt totalEq (s a) (s b) = some (decide (Disjoint (t a) (t b))) ∧
      less totalLt totalEq (s a) (s b) = some (decide (t a ⊂ t b)) ∧
      greater totalLt totalEq (s a) (s b) = some (decide (t b ⊂ t a)) ∧
      equal totalEq (s a) (s b) = decide (t a = t b) := by
  intro concrete sets s t
  obtain ⟨hr, h⟩ : concrete.1 = sets.1 ∧ ∀ a, Represents (s a) (t a) :=
    perform_simulates step_represents ops _ _ fun _ => Represents.nil
  refine ⟨hr, fun a => ⟨h a, (h a).contains⟩, fun a bs => ?_, fun a b => ?_⟩
  · have hbs := forall₂_represents h bs
    exact ⟨(h a).union hbs, (h a).intersection hbs, (h a).difference hbs⟩
  · exact ⟨(h a).symmetricDifference (h b), (h a).issubset (h b), (h a).issuperset (h b), (h a).isdisjoint (h b),
      (h a).less (h b), (h a).greater (h b), (h a).equal (h b)⟩

end CqlDriver.Types
