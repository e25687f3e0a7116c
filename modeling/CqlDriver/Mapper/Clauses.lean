import CqlDriver.Mapper.Columns
import Mathlib.Data.List.Sort

/-! # Update clauses -/

namespace CqlDriver.Mapper

open Lib List

variable {α : Type} [LinearOrder α]

/-! ## What CQL does to one column -/

inductive Op (α : Type)
  /-- `"f" = v` -/
  | assign (v : Value α)
  /-- `"f" = "f" + elems` for a set -/
  | add (elems : List α)
  /-- `"f" = "f" - elems` -/
  | remove (elems : List α)
  /-- `"f" = elems + "f"` -/
  | prepend (elems : List α)
  /-- `"f" = "f" + elems` for a list -/
  | append (elems : List α)
  /-- `"f"[k] = v`, where `null` deletes the entry -/
  | put (k : α) (v : Option α)
  /-- `DELETE "f"` -/
  | delete
  /-- `DELETE "f"[k]` -/
  | deleteKey (k : α)

def Op.apply (cell : Value α) : Op α → Value α
  | .assign v => v
  | .add elems => .set (cell.asSet ++ elems)
  | .remove elems => .set (cell.asSet.filter (· ∉ elems))
  | .prepend elems => .list (elems ++ cell.asList)
  | .append elems => .list (cell.asList ++ elems)
  | .put k (some v) => .map (cell.asMap.set k (some v))
  | .put k none => .map (cell.asMap.erase k)
  | .delete => .none
  | .deleteKey k => .map (cell.asMap.erase k)

def Op.fits (kind : Kind) : Op α → Bool
  | .assign v => v.fits kind
  | .add _ | .remove _ => kind = .set
  | .prepend _ | .append _ => kind = .list
  | .put _ _ | .deleteKey _ => kind = .map
  | .delete => true

variable {kind : Kind}

theorem Op.fits_apply {op : Op α} (h : op.fits kind) (cell : Value α) : (op.apply cell).fits kind := by
  cases op with
  | put k v => cases v <;> exact h
  | _ => exact h

def applyAll (ops : List (Op α)) (cell : Value α) : Value α := ops.foldl Op.apply cell

@[simp] theorem applyAll_nil (cell : Value α) : applyAll [] cell = cell := rfl

@[simp] theorem applyAll_cons (op : Op α) (ops : List (Op α)) (cell : Value α) :
    applyAll (op :: ops) cell = applyAll ops (op.apply cell) := rfl

theorem applyAll_append (ops ops' : List (Op α)) (cell : Value α) :
    applyAll (ops ++ ops') cell = applyAll ops' (applyAll ops cell) := foldl_append ..

theorem fits_applyAll {ops : List (Op α)} (hops : ∀ op ∈ ops, op.fits kind) :
    ∀ {cell : Value α}, cell.fits kind → (applyAll ops cell).fits kind := by
  induction ops with
  | nil => exact fun h => h
  | cons op ops ih =>
    rw [forall_mem_cons] at hops
    exact fun _ => ih hops.2 (Op.fits_apply hops.1 _)

/-- The column holds the value before, or nothing alike. -/
def Based (kind : Kind) (cell value previous : Value α) : Prop :=
  kind.Agree cell previous ∨ (kind.Agree cell .none ∧ value.unlike previous = true)

def Value.unlessNone {β : Type} (f : Value α → β) (v : Value α) : Option β :=
  if v.isNone then Option.none else some (f v)

def orNone {β : Type} (l : List β) : Option (List β) := if l.isEmpty then none else some l

def intBool {β : Type} (l : Option (List β)) : Nat := if (l.getD []).isEmpty then 0 else 1

@[simp] theorem getD_orNone {β : Type} (l : List β) : (orNone l).getD [] = l := by
  cases l <;> rfl

theorem orNone_of_intBool {β : Type} {l : List β} (h : intBool (orNone l) = 0) : orNone l = none := by
  unfold intBool orNone at *
  split <;> simp_all

/-- What follows the column's name in `update(name__add=...)`. -/
inductive Operation
  | add
  | remove
  | append
  | prepend
  | update
  /- Any other text. -/
  | other
  deriving DecidableEq

/-! ## `SetUpdateClause` -/

structure SetUpdate (α : Type) where
  assignments : Option (List α) := none
  additions : Option (List α) := none
  removals : Option (List α) := none

namespace SetUpdate

def analyze (value : Option (List α)) (operation : Option Operation) (previous : Option (List α)) : SetUpdate α :=
  match value with
  | none => {}
  | some value =>
    if previous.any fun p => (Value.set value).same (.set p) then {}
    else
      match operation, previous with
      | some .add, _ => { additions := some value }
      | some .remove, _ => { removals := some value }
      | _, none => { assignments := some value }
      | _, some p => { additions := orNone (value.filter (· ∉ p)), removals := orNone (p.filter (· ∉ value)) }

variable (previous : Option (List α)) (u : SetUpdate α)

def getContextSize : Nat :=
  if previous.isNone ∧ intBool u.assignments = 0 ∧ u.additions.isNone ∧ u.removals.isNone then 1
  else intBool u.assignments + intBool u.additions + intBool u.removals

def ops : List (Op α) :=
  (if previous.isNone ∧ u.assignments.isNone ∧ u.additions.isNone ∧ u.removals.isNone then [.assign (.set [])]
    else []) ++
    (u.assignments.map fun elems => .assign (.set elems)).toList ++ (u.additions.map .add).toList ++
    (u.removals.map .remove).toList

omit [LinearOrder α] in
theorem ops_changes (p : List α) (additions removals : Option (List α)) :
    ops (some p) { additions, removals } = (additions.map Op.add).toList ++ (removals.map Op.remove).toList := by
  simp [ops]

omit [LinearOrder α] in
theorem fits_ops : ∀ op ∈ u.ops previous, op.fits .set := by
  obtain ⟨asgs, adds, rems⟩ := u
  unfold ops
  cases previous <;> cases asgs <;> cases adds <;> cases rems <;> simp [Op.fits, Value.fits]

variable {v : List α}

theorem ops_of_size_eq_zero {previous : Option (List α)}
    (h : (analyze (some v) none previous).getContextSize previous = 0) :
    (analyze (some v) none previous).ops previous = [] := by
  cases previous with
  | none =>
    unfold getContextSize at h
    split at h
    · cases h
    rename_i hsz
    simp [analyze] at h hsz
    exact absurd h.1 hsz
  | some previous =>
    simp only [analyze, Option.any_some] at h ⊢
    split at h
    · rename_i hs
      rw [if_pos hs]
      rfl
    rename_i hs
    rw [if_neg hs]
    simp only [getContextSize, Option.isNone_some, Bool.false_eq_true, false_and, if_false] at h
    have hadd := orNone_of_intBool (by omega : intBool (orNone (v.filter (· ∉ previous))) = 0)
    have hrm := orNone_of_intBool (by omega : intBool (orNone (previous.filter (· ∉ v))) = 0)
    simp only [hadd, hrm]
    rfl

theorem mem_applyAll_add (elems : List α) (cell : Value α) (x : α) :
    x ∈ (applyAll ((orNone elems).map Op.add).toList cell).asSet ↔ x ∈ cell.asSet ∨ x ∈ elems := by
  unfold orNone
  split
  · rename_i he
    simp [isEmpty_iff.mp he]
  · simp [Op.apply, Value.asSet]

theorem mem_applyAll_remove (elems : List α) (cell : Value α) (x : α) :
    x ∈ (applyAll ((orNone elems).map Op.remove).toList cell).asSet ↔ x ∈ cell.asSet ∧ x ∉ elems := by
  unfold orNone
  split
  · rename_i he
    simp [isEmpty_iff.mp he]
  · simp [Op.apply, Value.asSet]

theorem agree_ops {previous : Option (List α)} {cell : Value α}
    (hb : ∀ p, previous = some p → Based .set cell (.set v) (.set p)) :
    Kind.set.Agree (applyAll ((analyze (some v) none previous).ops previous) cell) (.set v) := by
  intro x
  cases previous with
  | none => simp [analyze, ops, Op.apply]
  | some p =>
    replace hb := hb p rfl
    simp only [analyze, Option.any_some]
    split
    · rename_i hs
      have he : (ops (some p) ({} : SetUpdate α)) = [] := rfl
      rw [same_set] at hs
      rcases hb with ha | ⟨hn, hunl⟩
      · exact (ha x).trans (hs x).symm
      have := hn x
      simp only [Value.unlike, all_eq_true, decide_eq_true_eq] at hunl
      have hs := hs x
      tauto
    rw [ops_changes, applyAll_append, mem_applyAll_remove, mem_applyAll_add]
    simp only [mem_filter, decide_eq_true_eq]
    rcases hb with ha | ⟨hn, hunl⟩
    · have hx := ha x
      tauto
    have hx := hn x
    simp only [Value.unlike, all_eq_true, decide_eq_true_eq] at hunl
    tauto

end SetUpdate

/-! ## `ListUpdateClause` -/

structure ListUpdate (α : Type) where
  assignments : Option (List α) := none
  prepend : Option (List α) := none
  append : Option (List α) := none

namespace ListUpdate

def search (value previous : List α) : List Nat → Option (List α) × Option (List α)
  | [] => (none, none)
  | i :: rest =>
    let j := i + previous.length
    let sub := (value.drop i).take previous.length
    if previous.head? = sub.head? ∧ previous.getLast? = sub.getLast? ∧ previous = sub then
      (orNone (value.take i), orNone (value.drop j))
    else search value previous rest

def found (value : List α) : Option (List α) × Option (List α) → ListUpdate α
  | (none, none) => { assignments := some value }
  | (prepend, append) => { prepend, append }

def analyze (value : Option (List α)) (operation : Option Operation) (previous : Option (List α)) : ListUpdate α :=
  match value with
  | none => {}
  | some value =>
    if previous = some value then {}
    else
      match operation, previous with
      | some .append, _ => { append := some value }
      | some .prepend, _ => { prepend := some value }
      | _, none => { assignments := some value }
      | _, some p =>
        if value.length < p.length then { assignments := some value }
        else if p.length = 0 then { assignments := some value }
        else found value (search value p (List.range (value.length - (p.length - 1))))

variable (u : ListUpdate α)

def getContextSize : Nat :=
  (if u.assignments.isSome then 1 else 0) + intBool u.append + intBool u.prepend

def ops : List (Op α) :=
  (u.assignments.map fun elems => .assign (.list elems)).toList ++ (u.prepend.map .prepend).toList ++
    (u.append.map .append).toList

omit [LinearOrder α] in
theorem fits_ops : ∀ op ∈ u.ops, op.fits .list := by
  obtain ⟨asgs, prepend, append⟩ := u
  unfold ops
  cases asgs <;> cases prepend <;> cases append <;> simp [Op.fits, Value.fits]

theorem search_spec (value previous : List α) (pls : List Nat) : search value previous pls = (none, none) ∨
      ∃ i, value = value.take i ++ previous ++ value.drop (i + previous.length) ∧
        search value previous pls = (orNone (value.take i), orNone (value.drop (i + previous.length))) := by
  induction pls with
  | nil => exact .inl rfl
  | cons i rest ih =>
    unfold search
    dsimp only
    split
    · rename_i hf
      refine .inr ⟨i, ?_, rfl⟩
      conv_lhs => rw [← take_append_drop i value, ← take_append_drop previous.length (value.drop i)]
      rw [← hf.2.2, drop_drop, append_assoc]
    · exact ih

theorem asList_applyAll_prepend (es : List α) (cell : Value α) :
    (applyAll ((orNone es).map Op.prepend).toList cell).asList = es ++ cell.asList := by
  unfold orNone
  split
  · rename_i he
    simp [isEmpty_iff.mp he]
  · simp [Op.apply, Value.asList]

theorem asList_applyAll_append (elems : List α) (cell : Value α) :
    (applyAll ((orNone elems).map Op.append).toList cell).asList = cell.asList ++ elems := by
  unfold orNone
  split
  · rename_i he
    simp [isEmpty_iff.mp he]
  · simp [Op.apply, Value.asList]

variable {v : List α} {cell : Value α} {previous : Option (List α)}

omit [LinearOrder α] in
theorem ops_found {pts : Option (List α) × Option (List α)} (h : pts ≠ (none, none)) :
    (found v pts).ops = (pts.1.map Op.prepend).toList ++ (pts.2.map Op.append).toList := by
  obtain ⟨prepend, append⟩ := pts
  cases prepend <;> cases append <;> first | rfl | exact absurd rfl h

theorem agree_found {previous : List α} (hb : Based .list cell (.list v) (.list previous)) (pls : List Nat) :
    Kind.list.Agree (applyAll (found v (search v previous pls)).ops cell) (.list v) := by
  by_cases hn : search v previous pls = (none, none)
  · rw [hn]
    rfl
  obtain ⟨i, hv, hp⟩ := (search_spec v previous pls).resolve_left hn
  have hc : cell.asList = previous := by
    rcases hb with ha | ⟨-, hunl⟩
    · exact ha
    · exact absurd ⟨_, _, hv.symm⟩ (of_decide_eq_true hunl)
  rw [ops_found hn, hp, applyAll_append]
  simp only [Kind.Agree]
  rw [asList_applyAll_append, asList_applyAll_prepend, hc]
  exact hv.symm

theorem agree_ops (hb : ∀ p, previous = some p → Based .list cell (.list v) (.list p)) :
    Kind.list.Agree (applyAll (analyze (some v) none previous).ops cell) (.list v) := by
  cases previous with
  | none => rfl
  | some p =>
    replace hb := hb p rfl
    simp only [analyze, Option.some.injEq]
    split_ifs with hs
    · rcases hb with ha | ⟨-, hunl⟩
      · exact Eq.trans ha hs
      rw [← hs] at hunl
      exact absurd (infix_refl p) (of_decide_eq_true hunl)
    · rfl
    · rfl
    · exact agree_found hb _

theorem size_found_ne_zero (v previous : List α) (pls : List Nat) :
    (found v (search v previous pls)).getContextSize ≠ 0 := by
  rcases search_spec v previous pls with hn | ⟨i, -, hp⟩
  · simp [hn, found, getContextSize]
  rw [hp]
  intro h
  cases hpre : orNone (v.take i) <;> cases happ : orNone (v.drop (i + previous.length)) <;>
    simp only [hpre, happ, found, getContextSize] at h
  · simp at h
  · have := orNone_of_intBool (l := v.drop _) (by rw [happ]; omega)
    simp [happ] at this
  · have := orNone_of_intBool (l := v.take i) (by rw [hpre]; omega)
    simp [hpre] at this
  have := orNone_of_intBool (l := v.take i) (by rw [hpre]; omega)
  simp [hpre] at this

theorem ops_of_size_eq_zero (h : (analyze (some v) none previous).getContextSize = 0) :
    (analyze (some v) none previous).ops = [] := by
  have hasg : ∀ v, getContextSize ({ assignments := some v } : ListUpdate α) ≠ 0 := by
    simp [getContextSize]
  cases previous with
  | none => exact absurd h (hasg v)
  | some p =>
    simp only [analyze] at h ⊢
    split_ifs at h ⊢
    · rfl
    · exact absurd h (hasg v)
    · exact absurd h (hasg v)
    · exact absurd h (size_found_ne_zero v p _)

end ListUpdate

/-! ## `MapUpdateClause` and `MapDeleteClause` -/

structure MapUpdate (α : Type) where
  updates : Option (List α) := none
  removals : Option (List α) := none

namespace MapUpdate

def analyze (value : Dict α (Option α)) (operation : Option Operation) (previous : Option (Dict α (Option α))) :
    MapUpdate α :=
  match operation, previous with
  | some .update, _ => { updates := some value.keys }
  | some .remove, _ => { removals := some value.keys }
  | _, none => { updates := some (value.keys.insertionSort (· ≤ ·)) }
  | _, some p =>
    let changed := (value.entries.filter fun e => e.2 ≠ (p.get? e.1).getD none).map Prod.fst
    { updates := orNone (changed.insertionSort (· ≤ ·)) }

variable (previous : Option (Dict α (Option α))) (u : MapUpdate α)

def isAssignment : Bool := previous.isNone && (u.updates.getD []).isEmpty && (u.removals.getD []).isEmpty

def getContextSize : Nat :=
  if u.isAssignment previous then 1 else (u.updates.getD []).length * 2 + intBool u.removals

/-- `"f" = "f" - keys` takes each of the keys away. -/
def ops (value : Dict α (Option α)) : List (Op α) :=
  if u.isAssignment previous then [.assign (.map Dict.empty)]
  else
    match u.removals with
    | some keys => keys.map .deleteKey
    | none => (u.updates.getD []).map fun k => .put k ((value.get? k).getD none)

variable (value : Dict α (Option α))

theorem removals_analyze : (analyze value none previous).removals = none := by
  cases previous <;> rfl

theorem fits_ops : ∀ op ∈ u.ops previous value, op.fits .map := by
  unfold ops
  split
  · simp [Op.fits, Value.fits]
  split <;> simp [Op.fits]

end MapUpdate

def mapRemovals (value previous : Dict α (Option α)) : List α := previous.keys.filter (· ∉ value.keys)

theorem get?_applyAll {op : α → Op α} {f : α → Option (Option α)} {k : α}
    (hop : ∀ k' cell, ((op k').apply cell).asMap.get? k = if k = k' then f k' else cell.asMap.get? k) (keys : List α) :
    ∀ cell, (applyAll (keys.map op) cell).asMap.get? k = if k ∈ keys then f k else cell.asMap.get? k := by
  induction keys with
  | nil => simp
  | cons k' keys ih =>
    intro cell
    rw [map_cons, applyAll_cons, ih, hop]
    by_cases hmem : k ∈ keys
    · simp [hmem]
    · by_cases heq : k = k' <;> simp [heq]

theorem get?_applyAll_put (f : α → Option α) (k : α) (keys : List α) (cell : Value α) :
    (applyAll (keys.map fun k => .put k (f k)) cell).asMap.get? k =
      if k ∈ keys then (f k).map some else cell.asMap.get? k := by
  refine get?_applyAll (f := fun k => (f k).map some) (fun k' cell => ?_) keys cell
  cases f k' <;> simp [Op.apply, Value.asMap]

theorem get?_applyAll_deleteKey (k : α) (keys : List α) (cell : Value α) :
    (applyAll (keys.map .deleteKey) cell).asMap.get? k = if k ∈ keys then none else cell.asMap.get? k :=
  get?_applyAll (f := fun _ => none) (by simp [Op.apply, Value.asMap]) keys cell

theorem get?_of_complete {d : Dict α (Option α)} (h : (Value.map d).complete) {k : α} {v : Option α}
    (hget : d.get? k = some v) : ∃ a, v = some a := by
  simp only [Value.complete, all_eq_true] at h
  have hmem : v ∈ d.values := mem_map_of_mem ((d.get?_eq_some k v).mp hget)
  exact Option.isSome_iff_exists.mp (h v hmem)

variable {value : Dict α (Option α)}

theorem MapUpdate.mem_updates (hcmp : (Value.map value).complete) (previous : Option (Dict α (Option α)))
    (k : α) : k ∈ (analyze value none previous).updates.getD [] ↔
      ∃ a, value.get? k = some (some a) ∧ ((previous.getD Dict.empty).get? k).getD none ≠ some a := by
  cases previous with
  | none =>
    simp only [analyze, Option.getD_some, mem_insertionSort, ← Dict.get?_isSome, Option.isSome_iff_exists]
    constructor
    · rintro ⟨v, hv⟩
      obtain ⟨a, rfl⟩ := get?_of_complete hcmp hv
      exact ⟨a, hv, by simp⟩
    rintro ⟨a, ha, -⟩
    exact ⟨some a, ha⟩
  | some p =>
    simp only [analyze, getD_orNone, mem_insertionSort, mem_map, mem_filter, decide_eq_true_eq]
    constructor
    · rintro ⟨⟨k', v⟩, ⟨hmem, hne⟩, rfl⟩
      have hv := (value.get?_eq_some k' v).mpr hmem
      obtain ⟨a, rfl⟩ := get?_of_complete hcmp hv
      exact ⟨a, hv, fun h => hne h.symm⟩
    rintro ⟨a, ha, hne⟩
    exact ⟨(k, some a), ⟨(value.get?_eq_some k _).mp ha, fun h => hne h.symm⟩, rfl⟩

theorem MapUpdate.ops_of_size_eq_zero {previous : Option (Dict α (Option α))}
    (h : (analyze value none previous).getContextSize previous = 0) :
    (analyze value none previous).ops previous value = [] := by
  unfold getContextSize at h
  unfold ops
  split at h
  · cases h
  rename_i hasg
  rw [if_neg hasg, removals_analyze, length_eq_zero_iff.mp (by omega :
    ((analyze value none previous).updates.getD []).length = 0)]
  rfl

variable {cell : Value α}

theorem MapUpdate.get?_applyAll_ops (hcmp : (Value.map value).complete)
    (previous : Option (Dict α (Option α))) (hc : previous = none → ∀ k, cell.asMap.get? k = none) (k : α) :
    (applyAll ((analyze value none previous).ops previous value) cell).asMap.get? k =
      if k ∈ (analyze value none previous).updates.getD [] then value.get? k else cell.asMap.get? k := by
  unfold ops
  split
  · rename_i hasg
    simp only [isAssignment, Bool.and_eq_true, Option.isNone_iff_eq_none, List.isEmpty_iff] at hasg
    rw [hasg.1.2, hc hasg.1.1]
    rfl
  rw [removals_analyze, get?_applyAll_put]
  split
  · rename_i hmem
    obtain ⟨a, ha, -⟩ := (mem_updates hcmp previous k).mp hmem
    simp [ha]
  · rfl

theorem agree_map {previous : Value α} (hf : previous.fits .map)
    (hcmp : (Value.map value).complete) (hbs : Based .map cell (.map value) previous) :
    Kind.map.Agree (applyAll ((mapRemovals value previous.asMap).map .deleteKey)
      (applyAll ((MapUpdate.analyze value none (previous.unlessNone Value.asMap)).ops
        (previous.unlessNone Value.asMap) value) cell)) (.map value) := by
  have hpr : (previous.unlessNone Value.asMap).getD Dict.empty = previous.asMap := by
    cases previous <;> rfl
  have hc : previous.unlessNone Value.asMap = none → ∀ k, cell.asMap.get? k = none := by
    intro hn k
    have : previous = .none := by cases previous <;> simp_all [Value.unlessNone, Value.isNone]
    subst this
    rcases hbs with hag | ⟨hag, -⟩ <;> exact hag k
  intro k
  rw [get?_applyAll_deleteKey, MapUpdate.get?_applyAll_ops hcmp _ hc]
  have hu := MapUpdate.mem_updates hcmp (previous.unlessNone Value.asMap) k
  rw [hpr] at hu
  have hrem : k ∈ mapRemovals value previous.asMap ↔ k ∈ previous.asMap.keys ∧ value.get? k = none := by
    simp [mapRemovals, Dict.get?_eq_none]
  cases hget : value.get? k with
  | none =>
    have hkp : k ∉ (MapUpdate.analyze value none (previous.unlessNone Value.asMap)).updates.getD [] := by
      intro hmem
      obtain ⟨a, ha, -⟩ := hu.mp hmem
      rw [hget] at ha
      cases ha
    by_cases hk : k ∈ previous.asMap.keys
    · rw [if_pos (hrem.mpr ⟨hk, hget⟩)]
      exact hget.symm
    have hold : cell.asMap.get? k = none := by
      rcases hbs with hag | ⟨hag, -⟩
      · exact (hag k).trans ((previous.asMap.get?_eq_none k).mpr hk)
      · exact hag k
    rw [if_neg fun hmem => hk (hrem.mp hmem).1, if_neg hkp, hold]
    exact hget.symm
  | some v =>
    obtain ⟨a, rfl⟩ := get?_of_complete hcmp hget
    have hkp : k ∉ mapRemovals value previous.asMap := by
      intro hmem
      rw [(hrem.mp hmem).2] at hget
      cases hget
    rw [if_neg hkp]
    by_cases hs : (previous.asMap.get? k).getD none = some a
    · have hold : previous.asMap.get? k = some (some a) := by
        cases hp : previous.asMap.get? k <;> simp_all
      have hag : Kind.map.Agree cell previous := by
        rcases hbs with hag | ⟨-, hunl⟩
        · exact hag
        exfalso
        cases previous with
        | map p =>
          simp only [Value.unlike, all_eq_true, decide_eq_true_eq] at hunl
          exact hunl _ ((value.get?_eq_some k _).mp hget) hold
        | _ => simp [Value.asMap] at hold
      rw [if_neg, hag, hold]
      · exact hget.symm
      intro hmem
      obtain ⟨b, hb, hne⟩ := hu.mp hmem
      rw [hget] at hb
      exact hne (hs.trans (Option.some.inj hb))
    rw [if_pos (hu.mpr ⟨a, hget, hs⟩)]
    exact hget.symm

/-! ## The clauses of a column -/

inductive ContainerUpdate (α : Type)
  | set (value : Option (List α)) (operation : Option Operation) (previous : Option (List α))
  | list (value : Option (List α)) (operation : Option Operation) (previous : Option (List α))
  /- A map that is `None` makes `_analyze` raise. -/
  | map (value : Dict α (Option α)) (operation : Option Operation) (previous : Option (Dict α (Option α)))

namespace ContainerUpdate

def getContextSize : ContainerUpdate α → Nat
  | .set value operation previous => (SetUpdate.analyze value operation previous).getContextSize previous
  | .list value operation previous => (ListUpdate.analyze value operation previous).getContextSize
  | .map value operation previous => (MapUpdate.analyze value operation previous).getContextSize previous

def ops : ContainerUpdate α → List (Op α)
  | .set value operation previous => (SetUpdate.analyze value operation previous).ops previous
  | .list value operation previous => (ListUpdate.analyze value operation previous).ops
  | .map value operation previous => (MapUpdate.analyze value operation previous).ops previous value

/-- A clause of size 0 is left out. -/
def added (u : ContainerUpdate α) : List (Op α) := if u.getContextSize = 0 then [] else u.ops

theorem added_of_ops {u : ContainerUpdate α} (h : u.getContextSize = 0 → u.ops = []) : u.added = u.ops := by
  unfold added
  split
  · rename_i hs
    exact (h hs).symm
  · rfl

theorem added_set (v : List α) (previous : Option (List α)) :
    (set (some v) none previous).added = (SetUpdate.analyze (some v) none previous).ops previous :=
  added_of_ops SetUpdate.ops_of_size_eq_zero

theorem added_list (v : List α) (previous : Option (List α)) :
    (list (some v) none previous).added = (ListUpdate.analyze (some v) none previous).ops :=
  added_of_ops ListUpdate.ops_of_size_eq_zero

theorem added_map (d : Dict α (Option α)) (previous : Option (Dict α (Option α))) :
    (map d none previous).added = (MapUpdate.analyze d none previous).ops previous d :=
  added_of_ops MapUpdate.ops_of_size_eq_zero

end ContainerUpdate

namespace Column

variable (c : Column α)

def containerUpdate (value : Value α) (operation : Option Operation) (previous : Value α) : Option (ContainerUpdate α) :=
  let previous := c.toDatabase previous
  match c.kind, c.toDatabase value with
  | .set, .set elems => some (.set (some elems) operation (previous.unlessNone Value.asSet))
  | .list, .list elems => some (.list (some elems) operation (previous.unlessNone Value.asList))
  | .map, .map d => some (.map d operation (previous.unlessNone Value.asMap))
  | _, _ => none

def addUpdate (value : Value α) (operation : Option Operation) (previous : Value α) : List (Op α) :=
  match c.containerUpdate value operation previous with
  | some u => u.added
  | none => [.assign (c.toDatabase value)]

def updateOps (m : ValueManager α) : List (Op α) :=
  if c.primaryKey || m.value.isNone || !m.changed c then [] else c.addUpdate m.value none m.previousValue

/-- The keys are those that would have been stored. -/
def removalOps (value previous : Value α) : List (Op α) :=
  if c.kind = .map then (mapRemovals value.asMap previous.asMap).map fun k => .deleteKey (c.toDb k) else []

def deleteOps (m : ValueManager α) : List (Op α) :=
  if m.deleted c then [.delete] else c.removalOps m.value m.previousValue

def stored (m : ValueManager α) (cell : Value α) : Value α := applyAll (c.deleteOps m) (applyAll (c.updateOps m) cell)

variable {c} {value prev cell : Value α}

theorem addUpdate_scalar (hk : c.kind = .scalar) (op : Option Operation) :
    c.addUpdate value op prev = [.assign (c.toDatabase value)] := by
  simp only [addUpdate, containerUpdate, hk]

variable {xs : List α}

theorem addUpdate_set (hk : c.kind = .set) (he : c.exact (.set xs)) (he' : c.exact prev) :
    c.addUpdate (.set xs) none prev =
      (SetUpdate.analyze (some xs) none (prev.unlessNone Value.asSet)).ops (prev.unlessNone Value.asSet) := by
  simp only [addUpdate, containerUpdate, hk, toDatabase_of_exact he, toDatabase_of_exact he']
  exact ContainerUpdate.added_set ..

theorem addUpdate_list (hk : c.kind = .list) (he : c.exact (.list xs)) (he' : c.exact prev) :
    c.addUpdate (.list xs) none prev = (ListUpdate.analyze (some xs) none (prev.unlessNone Value.asList)).ops := by
  simp only [addUpdate, containerUpdate, hk, toDatabase_of_exact he, toDatabase_of_exact he']
  exact ContainerUpdate.added_list ..

theorem addUpdate_map {d : Dict α (Option α)} (hk : c.kind = .map) (he : c.exact (.map d))
    (he' : c.exact prev) : c.addUpdate (.map d) none prev =
      (MapUpdate.analyze d none (prev.unlessNone Value.asMap)).ops (prev.unlessNone Value.asMap) d := by
  simp only [addUpdate, containerUpdate, hk, toDatabase_of_exact he, toDatabase_of_exact he']
  exact ContainerUpdate.added_map ..

theorem map_toDb_mapRemovals (hex : c.exact prev) (d : Dict α (Option α)) :
    (mapRemovals d prev.asMap).map (fun k => Op.deleteKey (c.toDb k)) = (mapRemovals d prev.asMap).map .deleteKey := by
  refine map_congr_left fun k hk => ?_
  cases prev with
  | map p =>
    simp only [exact, all_eq_true, Bool.and_eq_true, decide_eq_true_eq] at hex
    obtain ⟨e, he, rfl⟩ := mem_map.mp (mem_of_mem_filter hk)
    rw [(hex e he).1]
  | _ => cases hk

theorem agree_addUpdate (hf : value.fits c.kind) (hn : value.isNone = false)
    (hf' : prev.fits c.kind) (he : c.exact value) (he' : c.exact prev)
    (hcmp : value.complete) (hb : Based c.kind cell value prev) :
    c.kind.Agree (applyAll (c.removalOps value prev) (applyAll (c.addUpdate value none prev) cell)) value := by
  unfold removalOps
  cases value with
  | none => cases hn
  | scalar a =>
    have hk : c.kind = .scalar := of_decide_eq_true hf
    rw [addUpdate_scalar hk, toDatabase_of_exact he, hk]
    exact agree_refl ..
  | set xs =>
    have hk : c.kind = .set := of_decide_eq_true hf
    rw [addUpdate_set hk he he', hk]
    apply SetUpdate.agree_ops
    cases prev <;> simp_all [Value.unlessNone, Value.isNone, Value.fits, Value.asSet]
  | list xs =>
    have hk : c.kind = .list := of_decide_eq_true hf
    rw [addUpdate_list hk he he', hk]
    apply ListUpdate.agree_ops
    cases prev <;> simp_all [Value.unlessNone, Value.isNone, Value.fits, Value.asList]
  | map d =>
    have hk : c.kind = .map := of_decide_eq_true hf
    rw [addUpdate_map hk he he', map_toDb_mapRemovals he', hk]
    rw [hk] at hb hf'
    exact agree_map hf' hcmp hb
  | other => cases hf

theorem fits_addUpdate (hf : value.fits c.kind) (he : c.exact value)
    (he' : c.exact prev) : ∀ op ∈ c.addUpdate value none prev, op.fits c.kind := by
  cases value with
  | none =>
    simp only [addUpdate, containerUpdate, toDatabase_of_exact he]
    cases c.kind <;> simp [Op.fits, Value.fits]
  | scalar a =>
    rw [addUpdate_scalar (of_decide_eq_true hf), toDatabase_of_exact he]
    simpa [Op.fits] using hf
  | set xs =>
    have hk : c.kind = .set := of_decide_eq_true hf
    rw [addUpdate_set hk he he', hk]
    exact SetUpdate.fits_ops _ _
  | list xs =>
    have hk : c.kind = .list := of_decide_eq_true hf
    rw [addUpdate_list hk he he', hk]
    exact ListUpdate.fits_ops _
  | map d =>
    have hk : c.kind = .map := of_decide_eq_true hf
    rw [addUpdate_map hk he he', hk]
    exact MapUpdate.fits_ops _ _ _
  | other => cases hf

theorem fits_deleteOps (m : ValueManager α) : ∀ op ∈ c.deleteOps m, op.fits c.kind := by
  unfold deleteOps removalOps
  split
  · simp [Op.fits]
  split
  · rename_i hk
    simp [Op.fits, hk]
  · simp

end Column

end CqlDriver.Mapper
