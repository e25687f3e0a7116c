import CqlDriver.Lib.Numbering
import CqlDriver.Mapper.Operations

/-!
# Statements, and a batch of them

Each clause of a statement is given an id for its first placeholder. The clauses and the values to
compare with are objects that several statements may share, and the ids are attributes of these
objects.
-/

namespace CqlDriver.Mapper

open Lib

variable {α : Type} [LinearOrder α]

/-! ## Texts -/

/-- A placeholder is `%(id)s`. -/
inductive Piece
  | text (s : String)
  | placeholder (id : Nat)

abbrev Text := List Piece

/-- Their ids, in order. -/
def placeholders (t : Text) : List Nat :=
  t.filterMap fun
    | .text _ => none
    | .placeholder id => some id

def join (separator : String) (texts : List Text) : Text := [Piece.text separator].intercalate texts

def quoted (field : String) : String := "\"" ++ field ++ "\""

/-! ## What a filter compares with -/

/-- A partition key for `token`. -/
structure Token (α : Type) where
  values : List (Value α)
  columns : List (Column α)
  length_eq : values.length = columns.length
  columns_ne : columns ≠ []

/-- The time of a `MinTimeUUID` or `MaxTimeUUID` is what `to_database` makes of it. -/
inductive FilterValue (α : Type)
  | plain (v : Value α)
  | minTimeUUID (millis : Int)
  | maxTimeUUID (millis : Int)
  | token (t : Token α)

/-- What a placeholder is bound to. -/
inductive Param (α : Type)
  | value (v : Value α)
  | inQuoter (v : FilterValue α)
  | millis (n : Int)
  | count (n : Nat)

/-- The keys are the ids as texts. -/
abbrev Context (α : Type) := Dict Nat (Param α)

namespace FilterValue

/-- How many placeholders it has. -/
def getContextSize : FilterValue α → Nat
  | .token t => t.values.length
  | _ => 1

def text (id : Nat) : FilterValue α → Text
  | .plain _ => [.placeholder id]
  | .minTimeUUID _ => [.text "MinTimeUUID(", .placeholder id, .text ")"]
  | .maxTimeUUID _ => [.text "MaxTimeUUID(", .placeholder id, .text ")"]
  | .token t =>
    [.text "token("] ++ join ", " ((List.range t.values.length).map fun i => [.placeholder (id + i)]) ++ [.text ")"]

/-- Binds its placeholders. -/
def updateContext (id : Nat) (ctx : Context α) : FilterValue α → Context α
  | .plain v => ctx.set id (.value v)
  | .minTimeUUID millis | .maxTimeUUID millis => ctx.set id (.millis millis)
  | .token t =>
    (t.columns.zip t.values).zipIdx.foldl (fun ctx p => ctx.set (id + p.2) (.value (p.1.1.toDatabase p.1.2))) ctx

/-- What they are bound to, in order. -/
def values : FilterValue α → List (Param α)
  | .plain v => [.value v]
  | .minTimeUUID millis | .maxTimeUUID millis => [.millis millis]
  | .token t => t.columns.zipWith (fun c v => .value (c.toDatabase v)) t.values

end FilterValue

/-! ## Clauses that one statement has -/

/-- Sets the field. -/
def assignText (field : String) (id : Nat) : Text := [.text (quoted field ++ " = "), .placeholder id]

/-- Adds to the field or takes from it. -/
def changeText (field sign : String) (id : Nat) : Text :=
  [.text (quoted field ++ " = " ++ quoted field ++ " " ++ sign ++ " "), .placeholder id]

namespace SetUpdate

variable (previous : Option (List α)) (u : SetUpdate α)

def text (field : String) (id : Nat) : Text :=
  let unset := previous.isNone ∧ u.assignments.isNone ∧ u.additions.isNone ∧ u.removals.isNone
  let qs := if unset then [assignText field id] else []
  let (qs, id) := if u.assignments.isSome then (qs ++ [assignText field id], id + 1) else (qs, id)
  let (qs, id) := if u.additions.isSome then (qs ++ [changeText field "+" id], id + 1) else (qs, id)
  let qs := if u.removals.isSome then qs ++ [changeText field "-" id] else qs
  join ", " qs

def updateContext (id : Nat) (ctx : Context α) : Context α :=
  let unset := previous.isNone ∧ u.assignments.isNone ∧ u.additions.isNone ∧ u.removals.isNone
  let ctx := if unset then ctx.set id (.value (.set [])) else ctx
  let (ctx, id) := match u.assignments with
    | some elems => (ctx.set id (.value (.set elems)), id + 1)
    | none => (ctx, id)
  let (ctx, id) := match u.additions with
    | some elems => (ctx.set id (.value (.set elems)), id + 1)
    | none => (ctx, id)
  match u.removals with
  | some elems => ctx.set id (.value (.set elems))
  | none => ctx

def values : List (Param α) :=
  (if previous.isNone ∧ u.assignments.isNone ∧ u.additions.isNone ∧ u.removals.isNone then [.value (.set [])] else []) ++
    (u.assignments.toList ++ u.additions.toList ++ u.removals.toList).map fun elems => .value (.set elems)

end SetUpdate

namespace ListUpdate

variable (u : ListUpdate α)

def text (field : String) (id : Nat) : Text :=
  let (qs, id) := if u.assignments.isSome then ([assignText field id], id + 1) else ([], id)
  let (qs, id) := if u.prepend.isSome then
      (qs ++ [[.text (quoted field ++ " = "), .placeholder id, .text (" + " ++ quoted field)]], id + 1)
    else (qs, id)
  let qs := if u.append.isSome then qs ++ [changeText field "+" id] else qs
  join ", " qs

def updateContext (id : Nat) (ctx : Context α) : Context α :=
  let (ctx, id) := match u.assignments with
    | some elems => (ctx.set id (.value (.list elems)), id + 1)
    | none => (ctx, id)
  let (ctx, id) := match u.prepend with
    | some elems => (ctx.set id (.value (.list elems)), id + 1)
    | none => (ctx, id)
  match u.append with
  | some elems => ctx.set id (.value (.list elems))
  | none => ctx

def values : List (Param α) :=
  (u.assignments.toList ++ u.prepend.toList ++ u.append.toList).map fun elems => .value (.list elems)

end ListUpdate

/-- A key may map to `None`. -/
def Value.ofOption : Option α → Value α
  | .none => .none
  | .some a => .scalar a

namespace MapUpdate

variable (previous : Option (Dict α (Option α))) (u : MapUpdate α)

def text (field : String) (id : Nat) : Text :=
  if u.isAssignment previous then assignText field id
  else if u.removals.isSome then changeText field "-" id
  else
    join ", " ((List.range (u.updates.getD []).length).map fun n =>
      [.text (quoted field ++ "["), .placeholder (id + 2 * n), .text "] = ", .placeholder (id + 2 * n + 1)])

def updateContext (value : Dict α (Option α)) (id : Nat) (ctx : Context α) : Context α :=
  if u.isAssignment previous then ctx.set id (.value (.map Dict.empty))
  else
    match u.removals with
    | some keys => ctx.set id (.value (.set keys))
    | none =>
      (u.updates.getD []).zipIdx.foldl (fun ctx p =>
        (ctx.set (id + 2 * p.2) (.value (.scalar p.1))).set (id + 2 * p.2 + 1)
          (.value (.ofOption ((value.get? p.1).getD none)))) ctx

def values (value : Dict α (Option α)) : List (Param α) :=
  if u.isAssignment previous then [.value (.map Dict.empty)]
  else
    match u.removals with
    | some keys => [.value (.set keys)]
    | none => (u.updates.getD []).flatMap fun k =>
      [.value (.scalar k), .value (.ofOption ((value.get? k).getD none))]

end MapUpdate

namespace ContainerUpdate

def text (field : String) (id : Nat) : ContainerUpdate α → Text
  | .set value operation previous => (SetUpdate.analyze value operation previous).text previous field id
  | .list value operation previous => (ListUpdate.analyze value operation previous).text field id
  | .map value operation previous => (MapUpdate.analyze value operation previous).text previous field id

def updateContext (id : Nat) (ctx : Context α) : ContainerUpdate α → Context α
  | .set value operation previous => (SetUpdate.analyze value operation previous).updateContext previous id ctx
  | .list value operation previous => (ListUpdate.analyze value operation previous).updateContext id ctx
  | .map value operation previous => (MapUpdate.analyze value operation previous).updateContext previous value id ctx

def values : ContainerUpdate α → List (Param α)
  | .set value operation previous => (SetUpdate.analyze value operation previous).values previous
  | .list value operation previous => (ListUpdate.analyze value operation previous).values
  | .map value operation previous => (MapUpdate.analyze value operation previous).values previous value

end ContainerUpdate

/-- Assignments, updates of a container or a counter, and what a `DELETE` names. -/
inductive Clause (α : Type)
  | assignment (field : String) (value : Value α)
  | container (field : String) (u : ContainerUpdate α)
  | counter (field : String) (value previous : Int)
  | fieldDelete (field : String)
  | mapDelete (field : String) (value previous : Dict α (Option α))

namespace Clause

/-- The keys to delete, sorted. -/
def removals (value previous : Dict α (Option α)) : List α := (mapRemovals value previous).insertionSort (· ≤ ·)

def getContextSize : Clause α → Nat
  | .assignment _ _ | .counter _ _ _ => 1
  | .container _ u => u.getContextSize
  | .fieldDelete _ => 0
  | .mapDelete _ value previous => (removals value previous).length

def text (id : Nat) : Clause α → Text
  | .assignment field _ => assignText field id
  | .container field u => u.text field id
  | .counter field value previous => changeText field (if value - previous < 0 then "-" else "+") id
  | .fieldDelete field => [.text (quoted field)]
  | .mapDelete field value previous =>
    join ", " ((List.range (removals value previous).length).map fun n =>
      [.text (quoted field ++ "["), .placeholder (id + n), .text "]"])

def updateContext (id : Nat) (ctx : Context α) : Clause α → Context α
  | .assignment _ value => ctx.set id (.value value)
  | .container _ u => u.updateContext id ctx
  | .counter _ value previous => ctx.set id (.count (value - previous).natAbs)
  | .fieldDelete _ => ctx
  | .mapDelete _ value previous =>
    (removals value previous).zipIdx.foldl (fun ctx p => ctx.set (id + p.2) (.value (.scalar p.1))) ctx

def values : Clause α → List (Param α)
  | .assignment _ value => [.value value]
  | .container _ u => u.values
  | .counter _ value previous => [.count (value - previous).natAbs]
  | .fieldDelete _ => []
  | .mapDelete _ value previous => (removals value previous).map fun k => .value (.scalar k)

/-- What an `UPDATE` may have. -/
def isUpdate : Clause α → Bool
  | .assignment _ _ | .counter _ _ _ => true
  | .container _ u => u.getContextSize ≠ 0
  | _ => false

def isDelete : Clause α → Bool
  | .fieldDelete _ | .mapDelete _ _ _ => true
  | _ => false

end Clause

/-! ## Objects -/

/-- The identity of an object. -/
abbrev Ref := Nat

inductive WhereOperator
  | equals
  | notEquals
  | isIn
  | greaterThan
  | greaterThanOrEqual
  | lessThan
  | lessThanOrEqual
  | contains
  deriving DecidableEq

def WhereOperator.cqlSymbol : WhereOperator → String
  | .equals => "="
  | .notEquals => "!="
  | .isIn => "IN"
  | .greaterThan => ">"
  | .greaterThanOrEqual => ">="
  | .lessThan => "<"
  | .lessThanOrEqual => "<="
  | .contains => "CONTAINS"

structure WhereClause where
  field : String
  operator : WhereOperator
  /- A `QueryValue`: the value itself if it is one, else one that is made for the clause. -/
  queryValue : Ref
  quoteField : Bool

structure ConditionalClause (α : Type) where
  field : String
  value : Value α

/-- What the references name. -/
structure Objects (α : Type) where
  queryValue : Ref → FilterValue α
  whereClause : Ref → WhereClause
  conditional : Ref → ConditionalClause α

/-- Each object's `context_id`. -/
structure ContextIds where
  queryValue : Ref → Nat
  whereClause : Ref → Nat
  conditional : Ref → Nat

namespace Objects

variable (objs : Objects α)

/-- What the clause compares with. -/
def compared (ref : Ref) : FilterValue α := objs.queryValue (objs.whereClause ref).queryValue

def whereText (ids : ContextIds) (ref : Ref) : Text :=
  let clause := objs.whereClause ref
  let field := if clause.quoteField then quoted clause.field else clause.field
  .text (field ++ " " ++ clause.operator.cqlSymbol ++ " ") ::
    (objs.compared ref).text (ids.queryValue clause.queryValue)

def whereUpdateContext (ids : ContextIds) (ctx : Context α) (ref : Ref) : Context α :=
  let clause := objs.whereClause ref
  if clause.operator = .isIn then ctx.set (ids.whereClause ref) (.inQuoter (objs.compared ref))
  else (objs.compared ref).updateContext (ids.queryValue clause.queryValue) ctx

def conditionalText (ids : ContextIds) (ref : Ref) : Text :=
  [.text (quoted (objs.conditional ref).field ++ " = "), .placeholder (ids.conditional ref)]

def conditionalUpdateContext (ids : ContextIds) (ctx : Context α) (ref : Ref) : Context α :=
  ctx.set (ids.conditional ref) (.value (objs.conditional ref).value)

/-- A clause and its value share an id. -/
def numberWheres : ContextIds → Nat → List Ref → ContextIds × Nat
  | ids, i, [] => (ids, i)
  | ids, i, ref :: rest =>
    let ids := { ids with
      whereClause := Function.update ids.whereClause ref i
      queryValue := Function.update ids.queryValue (objs.whereClause ref).queryValue i }
    numberWheres ids (i + (objs.compared ref).getContextSize) rest

end Objects

def numberConditionals : ContextIds → Nat → List Ref → ContextIds × Nat
  | ids, i, [] => (ids, i)
  | ids, i, ref :: rest => numberConditionals { ids with conditional := Function.update ids.conditional ref i } (i + 1) rest

/-! ## Statements -/

structure InsertStatement (α : Type) where
  table : String
  whereClauses : List Ref
  /- What `add_assignment` has added. -/
  assignments : List (String × Value α)
  ifNotExists : Bool
  ttl : Option Int
  timestamp : Option Int

structure UpdateStatement (α : Type) [LinearOrder α] where
  table : String
  whereClauses : List Ref
  assignments : List (Clause α)
  isUpdate : ∀ c ∈ assignments, c.isUpdate = true
  conditionals : List Ref
  ifExists : Bool
  ttl : Option Int
  timestamp : Option Int

structure DeleteStatement (α : Type) where
  table : String
  fields : List (Clause α)
  isDelete : ∀ c ∈ fields, c.isDelete = true
  whereClauses : List Ref
  conditionals : List Ref
  ifExists : Bool
  timestamp : Option Int

inductive Statement (α : Type) [LinearOrder α]
  | insert (s : InsertStatement α)
  | update (s : UpdateStatement α)
  | delete (s : DeleteStatement α)

namespace Statement

def whereClauses : Statement α → List Ref
  | .insert s => s.whereClauses
  | .update s => s.whereClauses
  | .delete s => s.whereClauses

/-- Clauses that are not shared. -/
def own : Statement α → List (Clause α)
  | .insert s => s.assignments.map fun a => .assignment a.1 a.2
  | .update s => s.assignments
  | .delete s => s.fields

/-- Those of an `INSERT` are not numbered, nor are they rendered. -/
def conditionals : Statement α → List Ref
  | .insert _ => []
  | .update s => s.conditionals
  | .delete s => s.conditionals

end Statement

/-- Each with its first id. -/
def numberOwn : Nat → List (Clause α) → List (Nat × Clause α) × Nat
  | i, [] => ([], i)
  | i, c :: rest =>
    let (numbered, j) := numberOwn (i + c.getContextSize) rest
    ((i, c) :: numbered, j)

/-- A statement that has its ids. -/
structure Turn (α : Type) [LinearOrder α] where
  statement : Statement α
  ids : ContextIds
  own : List (Nat × Clause α)

def updateContextId (objs : Objects α) (ids : ContextIds) (i : Nat) (s : Statement α) : Turn α :=
  let (ids, i) := objs.numberWheres ids i s.whereClauses
  let (own, i) := numberOwn i s.own
  let (ids, _) := numberConditionals ids i s.conditionals
  { statement := s, ids, own }

/-- Zero is left out, like `None`. -/
def option (word : String) (n : Option Int) : List Text :=
  match n with
  | none => []
  | some n => if n = 0 then [] else [[.text (word ++ " " ++ toString n)]]

def usingOptions (before after : String) (options : List Text) : List Text :=
  if options = [] then [] else [[.text before] ++ join " AND " options ++ [.text after]]

def flag (set : Bool) (words : String) : List Text := if set then [[.text words]] else []

namespace Turn

variable (objs : Objects α) (t : Turn α)

/-- Later bindings replace earlier ones. -/
def getContext : Context α :=
  let ctx := t.statement.whereClauses.foldl (objs.whereUpdateContext t.ids) Dict.empty
  let ctx := t.own.foldl (fun ctx c => c.2.updateContext c.1 ctx) ctx
  t.statement.conditionals.foldl (objs.conditionalUpdateContext t.ids) ctx

def whereTexts : List Text :=
  if t.statement.whereClauses = [] then []
  else [.text "WHERE " :: join " AND " (t.statement.whereClauses.map (objs.whereText t.ids))]

def conditionalTexts : List Text :=
  if t.statement.conditionals = [] then []
  else [.text "IF " :: join " AND " (t.statement.conditionals.map (objs.conditionalText t.ids))]

/-- Without assignments there is nothing to unpack from the `zip` of an `INSERT`. -/
def text : Option Text :=
  match t.statement with
  | .insert s =>
    if s.assignments = [] then none
    else some (join " " ([[.text ("INSERT INTO " ++ s.table)],
      [.text "("] ++ join ", " (s.assignments.map fun a => [.text (quoted a.1)]) ++ [.text ")"],
      [.text "VALUES"],
      [.text "("] ++ join ", " (t.own.map fun c => [.placeholder c.1]) ++ [.text ")"]] ++
      flag s.ifNotExists "IF NOT EXISTS" ++ option "USING TTL" s.ttl ++ option "USING TIMESTAMP" s.timestamp))
  | .update s =>
    some (join " " ([[.text "UPDATE"], [.text s.table]] ++
      usingOptions "USING " "" (option "TTL" s.ttl ++ option "TIMESTAMP" s.timestamp) ++
      [[.text "SET"], join ", " (t.own.map fun c => c.2.text c.1)] ++
      t.whereTexts objs ++ t.conditionalTexts objs ++ flag s.ifExists "IF EXISTS"))
  | .delete s =>
    some (join " " ([[.text "DELETE"]] ++
      (if s.fields = [] then [] else [join ", " (t.own.map fun c => c.2.text c.1)]) ++
      [[.text "FROM"], [.text s.table]] ++
      usingOptions " USING " " " (option "TIMESTAMP" s.timestamp) ++
      t.whereTexts objs ++ t.conditionalTexts objs ++ flag s.ifExists "IF EXISTS"))

end Turn

/-! ## `BatchQuery` -/

structure BatchQuery (α : Type) [LinearOrder α] where
  queries : List (Statement α)
  batchType : Option String
  /- In microseconds. -/
  timestamp : Option Int

/-- The loop of `execute`. -/
structure Loop (α : Type) where
  ids : ContextIds
  ctxCounter : Nat := 0
  queryList : List Text
  parameters : Context α := Dict.empty

/-- One statement is added. -/
def executeRound (objs : Objects α) (l : Loop α) (query : Statement α) : Option (Loop α) :=
  let t := updateContextId objs l.ids l.ctxCounter query
  let ctx := t.getContext objs
  (t.text objs).map fun text =>
    { ids := t.ids
      ctxCounter := l.ctxCounter + ctx.entries.length
      queryList := l.queryList ++ [.text "  " :: text]
      parameters := l.parameters.setAll ctx.entries }

/-- What is sent. -/
structure Request (α : Type) where
  text : Text
  parameters : Context α

/-- The first line. -/
def BatchQuery.opener (b : BatchQuery α) : Text :=
  let batchType := match b.batchType with
    | none | some "" => ""
    | some name => name ++ " "
  .text ("BEGIN " ++ batchType ++ " BATCH") :: (option " USING TIMESTAMP" b.timestamp).flatten

/-- An empty batch sends no request. The outer `none` is an exception. -/
def BatchQuery.execute (objs : Objects α) (ids : ContextIds) (b : BatchQuery α) : Option (Option (Request α)) :=
  if b.queries = [] then some none
  else
    (b.queries.foldlM (executeRound objs) { ids, queryList := [b.opener] }).map fun l =>
      some { text := join "\n" (l.queryList ++ [[.text "APPLY BATCH;"]]), parameters := l.parameters }

end CqlDriver.Mapper
