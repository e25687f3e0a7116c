import CqlDriver.Mapper.Batch

/-! # The row that deleted columns are in -/

namespace CqlDriver.Mapper

open Lib List

variable {α : Type} [LinearOrder α]

structure ModelColumn (α : Type) where
  dbFieldName : String
  column : Column α
  partitionKey : Bool
  static : Bool

/-- The columns in order, with the instance's values. -/
abbrev Values (α : Type) := List (ModelColumn α × ValueManager α)

def partitionKeys (values : Values α) : Values α := values.filter fun v => v.1.column.primaryKey && v.1.partitionKey

def primaryKeys (values : Values α) : Values α := values.filter fun v => v.1.column.primaryKey

structure Deletion (α : Type) where
  fields : List (Clause α) := []
  deletedFields : Bool := false
  staticOnly : Bool := true

def deleteColumn (d : Deletion α) (v : ModelColumn α × ValueManager α) : Deletion α :=
  let col := v.1
  if v.2.deleted col.column then
    { fields := d.fields ++ [.fieldDelete col.dbFieldName], deletedFields := true, staticOnly := d.staticOnly && col.static }
  else if col.column.kind = .map then
    let uc := Clause.mapDelete col.dbFieldName v.2.value.asMap v.2.previousValue.asMap
    if uc.getContextSize > 0 then
      { fields := d.fields ++ [uc], deletedFields := true, staticOnly := d.staticOnly || col.static }
    else d
  else d

/-- The fields of the `DELETE` and what it restricts, if there is one. -/
def deleteNullColumns (values : Values α) : Option (List (Clause α) × List (String × Value α)) :=
  let d := values.foldl deleteColumn {}
  if d.deletedFields then
    let keys := if d.staticOnly then partitionKeys values else primaryKeys values
    some (d.fields, keys.map fun v => (v.1.dbFieldName, v.2.value))
  else none

/-! ## What is deleted -/

def nulled (v : ModelColumn α × ValueManager α) : Bool := v.2.deleted v.1.column

def removesKeys (v : ModelColumn α × ValueManager α) : Bool :=
  !nulled v && v.1.column.kind = .map && !(Clause.removals v.2.value.asMap v.2.previousValue.asMap).isEmpty

theorem deleteColumn_eq (d : Deletion α) (v : ModelColumn α × ValueManager α) :
    (deleteColumn d v).deletedFields = (d.deletedFields || nulled v || removesKeys v) ∧ (deleteColumn d v).staticOnly =
        if nulled v then d.staticOnly && v.1.static else if removesKeys v then d.staticOnly || v.1.static else d.staticOnly := by
  unfold deleteColumn removesKeys nulled
  by_cases hn : v.2.deleted v.1.column
  · simp [hn]
  by_cases hmap : v.1.column.kind = .map
  · cases hk : Clause.removals v.2.value.asMap v.2.previousValue.asMap <;> simp [hn, hmap, Clause.getContextSize, hk]
  · simp [hn, hmap]

/-- A row column is null, and no static map key goes after it. -/
def LeavesRows (values : Values α) : Prop :=
  ∃ before v after, values = before ++ v :: after ∧ nulled v ∧ v.1.static = false ∧
    ∀ w ∈ after, removesKeys w → w.1.static = false

theorem leavesRows_cons (v : ModelColumn α × ValueManager α) (values : Values α) : LeavesRows (v :: values) ↔
      nulled v ∧ v.1.static = false ∧ (∀ w ∈ values, removesKeys w → w.1.static = false) ∨ LeavesRows values := by
  constructor
  · rintro ⟨_ | ⟨u, bef⟩, w, aft, h, hn, hs, ha⟩
    · obtain ⟨rfl, rfl⟩ := cons.inj h
      exact .inl ⟨hn, hs, ha⟩
    · exact .inr ⟨bef, w, aft, (cons.inj h).2, hn, hs, ha⟩
  rintro (⟨hn, hs, ha⟩ | ⟨bef, w, aft, rfl, h⟩)
  · exact ⟨[], v, values, rfl, hn, hs, ha⟩
  · exact ⟨v :: bef, w, aft, rfl, h⟩

theorem staticOnly_foldl (values : Values α) : ∀ d : Deletion α, (values.foldl deleteColumn d).staticOnly = false ↔
    d.staticOnly = false ∧ (∀ w ∈ values, removesKeys w → w.1.static = false) ∨ LeavesRows values := by
  induction values with
  | nil => simp [LeavesRows]
  | cons v values ih =>
    intro d
    rw [foldl_cons, ih, (deleteColumn_eq d v).2, leavesRows_cons, forall_mem_cons]
    have hnot : nulled v → removesKeys v = false := fun h => by simp [removesKeys, h]
    cases hn : nulled v with
    | true =>
      rw [hnot hn]
      cases v.1.static with
      | true => simp
      | false =>
        simp
        tauto
    | false => cases removesKeys v <;> cases v.1.static <;> simp

theorem deletedFields_foldl (vs : Values α) : ∀ d : Deletion α, (vs.foldl deleteColumn d).deletedFields ↔
    d.deletedFields ∨ ∃ v ∈ vs, nulled v || removesKeys v := by
  induction vs with
  | nil => simp
  | cons v vs ih =>
    intro d
    rw [foldl_cons, ih, (deleteColumn_eq d v).1]
    simp [or_assoc]

/-- What the `DELETE` has to restrict. -/
def rowKeys (values : Values α) : Values α :=
  if values.any fun v => (nulled v || removesKeys v) && !v.1.static then primaryKeys values else partitionKeys values

omit [LinearOrder α] in
theorem map_keys_inj (values : Values α) (h : (primaryKeys values).map (fun v => (v.1.dbFieldName, v.2.value)) =
    (partitionKeys values).map fun v => (v.1.dbFieldName, v.2.value)) : primaryKeys values = partitionKeys values := by
  have hsub : (partitionKeys values).Sublist (primaryKeys values) := by
    apply monotone_filter_right
    simp +contextual
  have hlen := congrArg length h
  rw [length_map, length_map] at hlen
  exact (hsub.eq_of_length hlen.symm).symm

/-- **Rows and partitions.** -/
theorem deleteNullColumns_row_iff (values : Values α) : (∀ fields keys, deleteNullColumns values = some (fields, keys) →
      keys = (rowKeys values).map fun v => (v.1.dbFieldName, v.2.value)) ↔ primaryKeys values = partitionKeys values ∨
      (∀ v ∈ values, nulled v || removesKeys v → v.1.static = true) ∨ LeavesRows values := by
  have hst : (values.foldl deleteColumn {}).staticOnly = false ↔ LeavesRows values := by
    simp [staticOnly_foldl values {}]
  have hd := deletedFields_foldl values {}
  have hr : (values.any fun v => (nulled v || removesKeys v) && !v.1.static) = false ↔
      ∀ v ∈ values, nulled v || removesKeys v → v.1.static = true := by
    simp [any_eq_false]
  unfold deleteNullColumns rowKeys
  dsimp only
  by_cases hsm : ∃ v ∈ values, nulled v || removesKeys v
  · rw [hd.mpr (.inr hsm), ← hr, ← hst]
    simp only [if_true, Option.some.injEq, Prod.mk.injEq, and_imp]
    cases hs : (values.foldl deleteColumn {}).staticOnly with
    | false =>
      obtain ⟨before, v, after, rfl, hn, hrow, -⟩ := hst.mp hs
      simp [hn, hrow]
    | true =>
      cases values.any fun v => (nulled v || removesKeys v) && !v.1.static with
      | false => simp
      | true => simpa using ⟨fun h => map_keys_inj values h.symm, fun h => by rw [h]⟩
  rw [Bool.eq_false_iff.mpr fun h => hsm ((hd.mp h).resolve_left (by simp))]
  refine iff_of_true (by simp) (.inr (.inl fun v hv h => absurd ⟨v, hv, h⟩ hsm))

def keyed (dbFieldName : String) (partitionKey : Bool) : ModelColumn Nat × ValueManager Nat :=
  (⟨dbFieldName, { Column.ofClass Column.any_scalar true .none id id with primaryKey := true }, partitionKey,
    false⟩, { value := .scalar 1, previousValue := .scalar 1 })

/-- A key goes from a map that is not static, without a clustering key. -/
theorem deleteNullColumns_whole_partition : let kept : Dict Nat (Option Nat) := Dict.empty.set 1 (some 2)
    let values := [keyed "p" true, keyed "c" false,
      (⟨"m", Column.ofClass (Column.cleans_map takesAll takesAll) false .none id id, false, false⟩,
        { value := .map kept, previousValue := .map (kept.set 7 (some 8)) })]
    deleteNullColumns values = some ([.mapDelete "m" kept (kept.set 7 (some 8))], [("p", .scalar 1)]) ∧
      (rowKeys values).map (fun v => v.1.dbFieldName) = ["p", "c"] := by
  exact ⟨rfl, rfl⟩

end CqlDriver.Mapper
