import CqlDriver.Mapper.Clauses

/-! # What the clauses do to a column whose value before is not known -/

namespace CqlDriver.Mapper

open Lib

variable {α : Type} [LinearOrder α]

/-- One whose value is `None` is not there. -/
def entryOf (d : Dict α (Option α)) (k : α) : Option (Option α) := ((d.get? k).getD none).map some

namespace MapUpdate

omit [LinearOrder α] in
theorem size_updates_ne_zero (keys : List α) : getContextSize none ({ updates := some keys } : MapUpdate α) ≠ 0 := by
  unfold getContextSize isAssignment
  cases keys <;> simp

omit [LinearOrder α] in
theorem size_removals_ne_zero (keys : List α) : getContextSize none ({ removals := some keys } : MapUpdate α) ≠ 0 := by
  unfold getContextSize isAssignment intBool
  cases keys <;> simp

variable {cell : Value α} {keys : List α}

theorem get?_updates {v : Dict α (Option α)} (k : α) :
    (applyAll (({ updates := some keys } : MapUpdate α).ops none v) cell).asMap.get? k =
      if keys = [] then none else if k ∈ keys then entryOf v k else cell.asMap.get? k := by
  unfold ops isAssignment
  by_cases h : keys = []
  · simp [h, Op.apply, Value.asMap]
  · simp [h, get?_applyAll_put, entryOf]

theorem get?_removals (v : Dict α (Option α)) (k : α) :
    (applyAll (({ removals := some keys } : MapUpdate α).ops none v) cell).asMap.get? k =
      if keys = [] then none else if k ∈ keys then none else cell.asMap.get? k := by
  unfold ops isAssignment
  by_cases h : keys = []
  · simp [h, Op.apply, Value.asMap]
  · simp [h, get?_applyAll_deleteKey]

end MapUpdate

namespace Column

variable {c : Column α}

theorem addUpdate_blind_set (hk : c.kind = .set) (xs : List α) (op : Option Operation) :
    c.addUpdate (.set xs) op .none = (ContainerUpdate.set (some (xs.map c.toDb)) op none).added := by
  rw [addUpdate, containerUpdate, hk]
  rfl

theorem addUpdate_blind_list (hk : c.kind = .list) (xs : List α) (op : Option Operation) :
    c.addUpdate (.list xs) op .none = (ContainerUpdate.list (some (xs.map c.toDb)) op none).added := by
  rw [addUpdate, containerUpdate, hk]
  rfl

theorem addUpdate_set_none (hk : c.kind = .set) (xs : List α) :
    c.addUpdate (.set xs) none .none = [.assign (c.toDatabase (.set xs))] := by
  rw [addUpdate_blind_set hk, ContainerUpdate.added_set]
  rfl

theorem addUpdate_list_none (hk : c.kind = .list) (xs : List α) :
    c.addUpdate (.list xs) none .none = [.assign (c.toDatabase (.list xs))] := by
  rw [addUpdate_blind_list hk, ContainerUpdate.added_list]
  rfl

theorem mem_addUpdate_set (hk : c.kind = .set) (xs : List α) (cell : Value α) (x : α) :
    (x ∈ (applyAll (c.addUpdate (.set xs) (some .add) .none) cell).asSet ↔
      x ∈ cell.asSet ∨ x ∈ (c.toDatabase (.set xs)).asSet) ∧
    (x ∈ (applyAll (c.addUpdate (.set xs) (some .remove) .none) cell).asSet ↔
      x ∈ cell.asSet ∧ x ∉ (c.toDatabase (.set xs)).asSet) := by
  rw [addUpdate_blind_set hk, addUpdate_blind_set hk]
  cases xs <;> simp [toDatabase, ContainerUpdate.added, ContainerUpdate.getContextSize, ContainerUpdate.ops,
    SetUpdate.analyze, SetUpdate.getContextSize, SetUpdate.ops, intBool, Op.apply, Value.asSet]

theorem asList_addUpdate_list (hk : c.kind = .list) (xs : List α) (cell : Value α) :
    (applyAll (c.addUpdate (.list xs) (some .append) .none) cell).asList =
      cell.asList ++ (c.toDatabase (.list xs)).asList ∧
    (applyAll (c.addUpdate (.list xs) (some .prepend) .none) cell).asList =
      (c.toDatabase (.list xs)).asList ++ cell.asList := by
  rw [addUpdate_blind_list hk, addUpdate_blind_list hk]
  cases xs <;> simp [toDatabase, ContainerUpdate.added, ContainerUpdate.getContextSize, ContainerUpdate.ops,
    ListUpdate.analyze, ListUpdate.getContextSize, ListUpdate.ops, intBool, Op.apply, Value.asList]

variable (hk : c.kind = .map)
include hk

theorem addUpdate_map_none {d : Dict α (Option α)} (op : Option Operation)
    (hs : (ContainerUpdate.map (c.toDatabase (.map d)).asMap op none).getContextSize ≠ 0) :
    c.addUpdate (.map d) op .none = (ContainerUpdate.map (c.toDatabase (.map d)).asMap op none).ops := by
  unfold addUpdate containerUpdate
  rw [hk]
  exact if_neg hs

variable (d : Dict α (Option α))

theorem get?_addUpdate_map {op : Option Operation} (ho : op = none ∨ op = some .update) (cell : Value α) (k : α) :
    (applyAll (c.addUpdate (.map d) op .none) cell).asMap.get? k = if (c.toDatabase (.map d)).asMap.keys = [] then none
      else if k ∈ (c.toDatabase (.map d)).asMap.keys then entryOf (c.toDatabase (.map d)).asMap k
      else cell.asMap.get? k := by
  rcases ho with rfl | rfl
  · rw [addUpdate_map_none hk none (MapUpdate.size_updates_ne_zero _)]
    refine (MapUpdate.get?_updates k).trans ?_
    simp [← List.length_eq_zero_iff]
  rw [addUpdate_map_none hk (some .update) (MapUpdate.size_updates_ne_zero _)]
  exact MapUpdate.get?_updates k

theorem get?_addUpdate_remove (cell : Value α) (k : α) :
    (applyAll (c.addUpdate (.map d) (some .remove) .none) cell).asMap.get? k =
      if (c.toDatabase (.map d)).asMap.keys = [] then none
      else if k ∈ (c.toDatabase (.map d)).asMap.keys then none else cell.asMap.get? k := by
  rw [addUpdate_map_none hk (some .remove) (MapUpdate.size_removals_ne_zero _)]
  exact MapUpdate.get?_removals (c.toDatabase (.map d)).asMap k

end Column

end CqlDriver.Mapper
