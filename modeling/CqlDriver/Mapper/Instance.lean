import CqlDriver.Lib.Run
import CqlDriver.Mapper.Clauses
import Mathlib.Logic.Function.Basic

/-!
# An instance and its row

`update()` validates the instance, writes what has changed, deletes what is null, and takes the
values as stored. Nobody else writes to the table.
-/

namespace CqlDriver.Mapper

open Lib

variable {ν α : Type}

structure Model (ν α : Type) where
  names : List ν
  column : ν → Column α
  nodup : names.Nodup
  key_scalar : ∀ name, (column name).primaryKey = true → (column name).kind = .scalar

abbrev Rows (ν α : Type) := List (Option α) → ν → Value α

structure State (ν α : Type) where
  values : ν → ValueManager α
  rows : Rows ν α
  /-- The last step was an `update()` that succeeded. -/
  updated : Bool := false

/-! ## `update()` -/

variable [DecidableEq ν] [LinearOrder α]

namespace Column

variable (c : Column α)

def filled (m : ValueManager α) : Value α := if m.value.isNone && !m.explicit then c.default else m.value

def persisted (m : ValueManager α) : ValueManager α :=
  if m.changed c then { m.resetPreviousValue with explicit := false } else m

end Column

namespace Model

variable (model : Model ν α)

def validate : List ν → (ν → ValueManager α) → (ν → ValueManager α) × Bool
  | [], values => (values, true)
  | name :: rest, values =>
    match (model.column name).validate ((model.column name).filled (values name)) with
    | none => (values, false)
    | some w => validate rest (Function.update values name { values name with value := w })

def key (f : ν → Value α) : List (Option α) :=
  (model.names.filter fun name => (model.column name).primaryKey).map fun name => (f name).asScalar

/-- Without clauses nothing is sent; a null or changed key is refused. -/
def execute (rows : Rows ν α) (key : List (Option α)) (ops : ν → List (Op α)) : Option (Rows ν α) :=
  if ∀ name ∈ model.names, ops name = [] then some rows
  else if none ∈ key ∨ ∃ name ∈ model.names, (model.column name).primaryKey = true ∧ ops name ≠ [] then none
  else some (Function.update rows key fun name => applyAll (ops name) (rows key name))

def update (s : State ν α) : State ν α :=
  let validated := model.validate model.names s.values
  let values := validated.1
  let key := model.key fun name => (values name).value
  if validated.2 = false then { s with values, updated := false }
  else
    match model.execute s.rows key fun name => (model.column name).updateOps (values name) with
    | none => { s with values, updated := false }
    | some rows =>
      match model.execute rows key fun name => (model.column name).deleteOps (values name) with
      | none => { values, rows, updated := false }
      | some rows => { values := fun name => (model.column name).persisted (values name), rows, updated := true }

end Model

/-! ## Runs -/

inductive Act (ν α : Type)
  | assign (name : ν) (v : Value α)
  | del (name : ν)
  /-- A collection is changed in place, and is now `v`. -/
  | mutate (name : ν) (v : Value α)
  | update

def Value.mutable : Value α → Bool
  | .none | .scalar _ => false
  | _ => true

/-- An object stays what it is, valid or not. -/
def Value.sameType : Value α → Value α → Bool
  | .set _, .set _ | .list _, .list _ | .map _, .map _ => true
  | .other, w => w.mutable
  | v, .other => v.mutable
  | _, _ => false

namespace Model

variable (model : Model ν α)

def modify (s : State ν α) (name : ν) (k : ValueManager α → ValueManager α) : State ν α :=
  { s with values := Function.update s.values name (k (s.values name)), updated := false }

def step (s : State ν α) : Act ν α → State ν α
  | .assign name v => modify s name fun m => m.setval v
  -- a key cannot be deleted
  | .del name => modify s name fun m => if (model.column name).primaryKey then m else m.delval
  | .mutate name v => modify s name fun m => if m.value.sameType v then { m with value := v } else m
  | .update => model.update s

def constructInstance (rows : Rows ν α) (keys : ν → α) : State ν α where
  values name :=
    let c := model.column name
    let v := if c.primaryKey then .scalar (keys name) else rows (model.key fun name => .scalar (keys name)) name
    { value := c.toPython v, previousValue := c.toPython v }
  rows

def synced (s : State ν α) : Bool :=
  model.names.all fun name => (model.column name).primaryKey ||
    (s.rows (model.key fun name => (s.values name).value) name).agrees (s.values name).value

end Model

/-! ## When the instance keeps track of its row -/

/-- `update()` writes a default that is filled in, if it has to be written. -/
def Column.noticed (c : Column α) (m : ValueManager α) (w : Value α) : Bool :=
  m.explicit || c.valIsNull c.default ||
    if c.kind = .scalar then !m.value.isNone || w.same m.previousValue
    else !m.previousValue.isNone || !w.same c.default

/-- What is filled in is noticed, exact and complete, and keys are kept. -/
def Column.keepsTrack (c : Column α) (m : ValueManager α) (cell : Value α) : Bool :=
  match c.validate (c.filled m) with
  | none => true
  | some w =>
    if c.primaryKey then w.same m.previousValue
    else c.noticed m w && c.exact w && w.complete &&
      (c.valIsNull w || !cell.isEmpty || c.valIsNull m.previousValue || w.unlike m.previousValue)

def Model.keepsTrack (model : Model ν α) (s : State ν α) : Act ν α → Bool
  | .update => model.names.all fun name =>
    (model.column name).keepsTrack (s.values name) (s.rows (model.key fun name => (s.values name).previousValue) name)
  | _ => true

end CqlDriver.Mapper
