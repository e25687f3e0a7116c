import CqlDriver.Mapper.Operations
import Mathlib.Logic.Function.Basic

/-!
# `ModelQuerySet.update`

The values are written by an `UPDATE`, and the columns that are given `None` are deleted by a
`DELETE` that is sent after it.
-/

namespace CqlDriver.Mapper

open Lib List

/-! ## The names of keyword arguments -/

def rsplit : List Char → Option (List Char × List Char)
  | [] => none
  | c :: rest =>
    match rsplit rest with
    | some (before, after) => some (c :: before, after)
    | none =>
      match rest with
      | d :: after => if c = '_' ∧ d = '_' then some ([], after) else none
      | [] => none

def parseFilterArg (arg : String) : String × Option String :=
  match rsplit arg.toList with
  | none => (arg, none)
  | some (name, op) => if arg = "pk__token" then (arg, none) else (String.ofList name, some (String.ofList op))

def Operation.text : Operation → String
  | .add => "add"
  | .remove => "remove"
  | .append => "append"
  | .prepend => "prepend"
  | .update => "update"
  | .other => ""

def Operation.ofText (text : String) : Operation :=
  if text = "add" then .add
  else if text = "remove" then .remove
  else if text = "append" then .append
  else if text = "prepend" then .prepend
  else if text = "update" then .update
  else .other

variable {κ α : Type} [DecidableEq κ] [LinearOrder α]

structure MappedModel (α : Type) where
  /- The names in `_columns`, in their order. -/
  names : List String
  column : String → Column α
  dbFieldName : String → String
  nodup : names.Nodup
  dbFieldName_inj : ∀ a ∈ names, ∀ b ∈ names, dbFieldName a = dbFieldName b → a = b

/-- A row has its cells under the names in the table. -/
abbrev Cells (κ α : Type) := κ → String → Value α

/-! ## What the statements do -/

def assignCells (row : String → Value α) (assignments : List (String × List (Op α))) : String → Value α :=
  assignments.foldl (fun row a => Function.update row a.1 (applyAll a.2 (row a.1))) row

namespace MappedModel

variable (model : MappedModel α)

/-- A column which is not in the primary key. -/
def Deletable (field : String) : Prop :=
  ∃ name ∈ model.names, model.dbFieldName name = field ∧ (model.column name).primaryKey = false

instance (field : String) : Decidable (model.Deletable field) :=
  inferInstanceAs (Decidable (∃ name ∈ model.names, _))

def deleteCells (row : String → Value α) (fields : List String) : Option (String → Value α) :=
  if ∀ field ∈ fields, model.Deletable field then some fun field => if field ∈ fields then .none else row field
  else none

/-! ## `update` -/

structure Gathered (α : Type) where
  /- The clauses of the `UpdateStatement`. -/
  assignments : List (String × List (Op α)) := []
  nulledColumns : List String := []

def operand (c : Column α) (operation : Option Operation) (value : Value α) : Option (Value α) :=
  if operation = some .remove ∧ c.kind = .map then
    match value with
    | .set keys => some (.map (Dict.empty.setAll (keys.map fun k => (k, none))))
    | _ => none
  else c.validate value

def gather (g : Gathered α) (name : String) (value : Value α) : Option (Gathered α) :=
  let (colName, text) := parseFilterArg name
  let operation := text.map Operation.ofText
  let c := model.column colName
  if colName ∉ model.names ∨ c.primaryKey = true then none
  else
    match operand c operation value with
    | none => none
    | some v =>
      let ops := c.addUpdate v operation .none
      if v.isNone then some { g with nulledColumns := g.nulledColumns ++ [colName] }
      else if ops = [] then some g
      else some { g with assignments := g.assignments ++ [(model.dbFieldName colName, ops)] }

def gatherAll : Gathered α → List (String × Value α) → Option (Gathered α)
  | g, [] => some g
  | g, (name, value) :: rest => (model.gather g name value).bind fun g => gatherAll g rest

/-- The flag says that nothing was raised. -/
def update (rows : Cells κ α) (key : κ) (values : Dict String (Value α)) : Cells κ α × Bool :=
  match model.gatherAll {} values.entries with
  | none => (rows, false)
  | some g =>
    let row := assignCells (rows key) g.assignments
    if g.nulledColumns = [] then (Function.update rows key row, true)
    else
      match model.deleteCells row g.nulledColumns with
      | none => (Function.update rows key row, false)
      | some row => (Function.update rows key row, true)

end MappedModel

/-! ## What `update` makes of a row -/

theorem assignCells_apply (asgs : List (String × List (Op α))) (field : String) :
    ∀ row : String → Value α, assignCells row asgs field =
      applyAll ((asgs.filter (·.1 = field)).flatMap Prod.snd) (row field) := by
  induction asgs with
  | nil => exact fun row => rfl
  | cons a asgs ih =>
    intro row
    refine (ih _).trans ?_
    by_cases h : a.1 = field
    · subst h
      simp [applyAll_append]
    · simp [h, Ne.symm h]

namespace MappedModel

variable (model : MappedModel α)

structure Valid (e : String × Value α) : Prop where
  plain : parseFilterArg e.1 = (e.1, none)
  mem : e.1 ∈ model.names
  notKey : (model.column e.1).primaryKey = false
  valid : ∃ w, (model.column e.1).validate e.2 = some w

def given (e : String × Value α) : Value α := ((model.column e.1).validate e.2).getD .none

def writes (e : String × Value α) : List (Op α) :=
  if (model.given e).isNone then [] else (model.column e.1).addUpdate (model.given e) none .none

def nulled (entries : List (String × Value α)) : List String :=
  (entries.filter fun e => (model.given e).isNone).map Prod.fst

def assigned (entries : List (String × Value α)) : List (String × List (Op α)) :=
  (entries.filter fun e => model.writes e ≠ []).map fun e => (model.dbFieldName e.1, model.writes e)

variable {model}

theorem gather_valid {e : String × Value α} (h : model.Valid e) (g : Gathered α) : model.gather g e.1 e.2 =
      some { assignments := g.assignments ++ model.assigned [e], nulledColumns := g.nulledColumns ++ model.nulled [e] } := by
  obtain ⟨w, hw⟩ := h.valid
  have hopd : operand (model.column e.1) none e.2 = some w := by simp [operand, hw]
  have hg : model.given e = w := by simp [given, hw]
  unfold gather
  simp only [h.plain, Option.map_none, hopd, h.mem, h.notKey]
  by_cases hn : w.isNone
  · simp [nulled, assigned, writes, hg, hn]
  · by_cases hops : (model.column e.1).addUpdate w none .none = [] <;> simp [nulled, assigned, writes, hg, hn, hops]

variable {entries : List (String × Value α)}

theorem gatherAll_valid (h : ∀ e ∈ entries, model.Valid e) : ∀ g : Gathered α, model.gatherAll g entries =
      some { assignments := g.assignments ++ model.assigned entries
             nulledColumns := g.nulledColumns ++ model.nulled entries } := by
  induction entries with
  | nil => simp [gatherAll, assigned, nulled]
  | cons e entries ih =>
    intro g
    rw [forall_mem_cons] at h
    rw [gatherAll, gather_valid h.1, Option.bind_some, ih h.2]
    simp [assigned, nulled, filter_cons]
    constructor <;> split <;> simp

theorem assigned_at {name : String} (hn : name ∈ model.names) (hmem : ∀ e ∈ entries, e.1 ∈ model.names)
    (hnd : (entries.map Prod.fst).Nodup) :
    ((model.assigned entries).filter (·.1 = model.dbFieldName name)).flatMap Prod.snd =
      ((Dict.find name entries).map fun v => model.writes (name, v)).getD [] := by
  induction entries with
  | nil => rfl
  | cons e entries ih =>
    rw [forall_mem_cons] at hmem
    rw [map_cons, nodup_cons] at hnd
    replace ih := ih hmem.2 hnd.2
    have hs : model.dbFieldName e.1 = model.dbFieldName name ↔ e.1 = name :=
      ⟨model.dbFieldName_inj _ hmem.1 _ hn, fun h => h ▸ rfl⟩
    obtain ⟨name', v⟩ := e
    have hc : model.assigned ((name', v) :: entries) = model.assigned [(name', v)] ++ model.assigned entries := by
      simp [assigned, filter_cons]
      split <;> simp
    rw [hc, filter_append, flatMap_append, ih]
    by_cases h : name' = name
    · subst h
      -- no later entry is for the same column
      have hl : Dict.find name' entries = none := by
        have := mt (Dict.find_isSome name' entries).mp hnd.1
        simpa using this
      by_cases hw : model.writes (name', v) = [] <;> simp [assigned, Dict.find, hw, hl]
    · by_cases hw : model.writes (name', v) = [] <;> simp [assigned, Dict.find, hs, h]

variable (model) in
def finalCell (row : String → Value α) (values : Dict String (Value α)) (name : String) : Value α :=
  if model.dbFieldName name ∈ model.nulled values.entries then .none
  else applyAll (((values.get? name).map fun v => model.writes (name, v)).getD []) (row (model.dbFieldName name))

section Update

variable {vs : Dict String (Value α)} (hvalid : ∀ e ∈ vs.entries, model.Valid e) (rows : Cells κ α) (key : κ)

include hvalid

theorem update_ok_iff :
    (model.update rows key vs).2 ↔ ∀ field ∈ model.nulled vs.entries, model.Deletable field := by
  unfold update
  simp only [gatherAll_valid hvalid, nil_append]
  by_cases hnil : model.nulled vs.entries = []
  · simp [hnil]
  simp only [hnil, deleteCells]
  by_cases hdel : ∀ field ∈ model.nulled vs.entries, model.Deletable field
  · rw [if_pos hdel]
    exact iff_of_true rfl hdel
  rw [if_neg hdel]
  exact iff_of_false Bool.false_ne_true hdel

theorem update_cell (hok : (model.update rows key vs).2) {name : String} (hn : name ∈ model.names) :
    (model.update rows key vs).1 key (model.dbFieldName name) = model.finalCell (rows key) vs name := by
  have hdel := (update_ok_iff hvalid rows key).mp hok
  have hat := assigned_at hn (fun e he => (hvalid e he).mem) vs.nodup
  unfold update finalCell
  simp only [gatherAll_valid hvalid, nil_append]
  by_cases hnil : model.nulled vs.entries = []
  · simp only [hnil, if_true, Function.update_self]
    rw [assignCells_apply, hat]
    rfl
  simp only [hnil, if_false, deleteCells, if_pos hdel, Function.update_self]
  rw [assignCells_apply, hat]
  rfl

theorem update_other_row {key' : κ} (h : key' ≠ key) : (model.update rows key vs).1 key' = rows key' := by
  unfold update
  simp only [gatherAll_valid hvalid]
  split
  · simp [h]
  · split <;> simp [h]

end Update

end MappedModel

end CqlDriver.Mapper
