import CqlDriver.Statements.Routing

/-! # Batches of statements -/

namespace CqlDriver.Statements

open Lib

variable {α : Type}

/-- The parts, or the key packed when set on a batch. -/
inductive RoutingKey
  | value (v : BoundValue)
  | parts (ps : List BoundValue)

def RoutingKey.truthy : RoutingKey → Bool
  | .value .none => false
  | .value .unset => true
  | .value (.bytes b) => b ≠ []
  | .parts ps => !ps.isEmpty

def RoutingKey.packed : RoutingKey → Except KeyError BoundValue
  | .value v => .ok v
  | .parts [p] => .ok p
  | .parts ps => (keyPartsPacked (ps.map .ok)).map .bytes

theorem RoutingKey.packed_eq_none {key : RoutingKey} {v : BoundValue} (htru : key.truthy) (h : key.packed = .ok v) :
    v = .none ↔ key = .parts [.none] := by
  match key, h with
  | .value v, h =>
    cases h
    simp only [reduceCtorEq, iff_false]
    rintro rfl
    cases htru
  | .parts [p], h =>
    cases h
    simp
  | .parts (p :: q :: ps), h =>
    rw [packed] at h
    cases hkey : keyPartsPacked ((p :: q :: ps).map .ok) with
    | error e =>
      rw [hkey] at h
      cases h
    | ok key =>
      rw [hkey] at h
      cases h
      simp
    exact nofun

structure SimpleStatement where
  queryString : String
  routingKey : RoutingKey
  keyspace : Option String
  customPayload : Option Payload

inductive Statement (α : Type)
  | string (query : String)
  | prepared (statement : PreparedStatement α)
  | bound (statement : BoundStatement α)
  | simple (statement : SimpleStatement)

inductive Entry
  | query (query : String)
  | prepared (queryId : Bytes) (values : List BoundValue)

inductive AddError
  | bind (e : BindError)
  | bindParams
  | parametersWithBound
  | routingKey (e : KeyError)
  | tooMany

structure Attributes where
  keyspace : Option String
  routingKey : Except KeyError RoutingKey
  customPayload : Option Payload

def BoundStatement.attributes (s : BoundStatement α) : Attributes where
  keyspace := s.keyspace
  routingKey := s.routingKey.2.map .value
  customPayload := s.customPayload

def SimpleStatement.attributes (s : SimpleStatement) : Attributes where
  keyspace := s.keyspace
  routingKey := .ok s.routingKey
  customPayload := s.customPayload

/-- `if parameters:` -/
def given : Option (Values α) → Bool
  | none => false
  | some (.sequence values) => !values.isEmpty
  | some (.dict values) => !values.isEmpty

structure BatchStatement where
  statementsAndParameters : List Entry
  routingKey : BoundValue
  keyspace : Option String
  customPayload : Option Payload

namespace BatchStatement

variable (b : BatchStatement)

/-- The batch has no key, and the statement a keyspace. -/
def AsksKey (a : Attributes) : Prop := b.routingKey = .none ∧ a.keyspace.any (· ≠ "")

instance (a : Attributes) : Decidable (b.AsksKey a) := inferInstanceAs (Decidable (_ ∧ _))

def maybeSetRoutingAttributes (a : Attributes) : BatchStatement × Option AddError :=
  if b.AsksKey a then
    match a.routingKey with
    | .error e => (b, some (.routingKey e))
    | .ok key =>
      if key.truthy then
        match key.packed with
        | .error e => (b, some (.routingKey e))
        | .ok routingKey => ({ b with routingKey, keyspace := a.keyspace }, none)
      else (b, none)
  else (b, none)

def updateCustomPayload (a : Attributes) : BatchStatement :=
  match a.customPayload with
  | none => b
  | some payload =>
    if payload.entries = [] then b
    else { b with customPayload := some ((b.customPayload.getD .empty).setAll payload.entries) }

def updateState (a : Attributes) : BatchStatement × Option AddError :=
  match b.maybeSetRoutingAttributes a with
  | (b, none) => (b.updateCustomPayload a, none)
  | (b, some e) => (b, some e)

def addStatementAndParams (entry : Entry) : BatchStatement × Option AddError :=
  if 0xFFFF ≤ b.statementsAndParameters.length then (b, some .tooMany)
  else ({ b with statementsAndParameters := b.statementsAndParameters ++ [entry] }, none)

def addRouted (a : Attributes) (entry : Entry) : BatchStatement × Option AddError :=
  match b.updateState a with
  | (b, none) => b.addStatementAndParams entry
  | (b, some e) => (b, some e)

/-- `bind_params` is a parameter: it raises or gives the query with its parameters. -/
def add (bindParams : String → Values α → Option String) (statement : Statement α) (parameters : Option (Values α)) :
    BatchStatement × Option AddError :=
  match statement with
  | .string query =>
    if given parameters then
      match parameters.bind (bindParams query) with
      | none => (b, some .bindParams)
      | some query => b.addStatementAndParams (.query query)
    else b.addStatementAndParams (.query query)
  | .prepared prepared =>
    match (BoundStatement.new prepared none).bind (parameters.getD (.sequence [])) with
    | (_, some e) => (b, some (.bind e))
    | (bound, none) => b.addRouted bound.attributes (.prepared prepared.queryId bound.values)
  | .bound bound =>
    if given parameters then (b, some .parametersWithBound)
    else b.addRouted bound.attributes (.prepared bound.preparedStatement.queryId bound.values)
  | .simple simple =>
    if given parameters then
      match parameters.bind (bindParams simple.queryString) with
      | none => (b, some .bindParams)
      | some query => b.addRouted simple.attributes (.query query)
    else b.addRouted simple.attributes (.query simple.queryString)

def addEach (bindParams : String → Values α → Option String) :
    BatchStatement → List (Statement α × Option (Values α)) → BatchStatement × Option AddError
  | b, [] => (b, none)
  | b, (statement, parameters) :: calls =>
    match b.add bindParams statement parameters with
    | (b, none) => addEach bindParams b calls
    | (b, some e) => (b, some e)

def addAll (bindParams : String → Values α → Option String) (statements : List (Statement α))
    (parameters : List (Option (Values α))) : BatchStatement × Option AddError :=
  b.addEach bindParams (statements.zip parameters)

/-! ## What a failed addition changes -/

/-- The attributes that `add` comes to read. -/
def readAttributes (bindParams : String → Values α → Option String) (parameters : Option (Values α)) :
    Statement α → Option Attributes
  | .string _ => none
  | .prepared prepared =>
    match (BoundStatement.new prepared none).bind (parameters.getD (.sequence [])) with
    | (_, some _) => none
    | (bound, none) => some bound.attributes
  | .bound bound => if given parameters then none else some bound.attributes
  | .simple simple =>
    if given parameters ∧ parameters.bind (bindParams simple.queryString) = none then none else some simple.attributes

end BatchStatement

def Attributes.KeyRaises (a : Attributes) : Prop :=
  (∃ e, a.routingKey = .error e) ∨ ∃ key e, a.routingKey = .ok key ∧ key.truthy ∧ key.packed = .error e

namespace BatchStatement

variable (b : BatchStatement)

/-- No key is taken over, and the payload is there. -/
def Covers (a : Attributes) : Prop :=
  (b.AsksKey a → ∃ key, a.routingKey = .ok key ∧ (¬ key.truthy ∨ key = .parts [.none] ∧ a.keyspace = b.keyspace)) ∧
  ∀ payload, a.customPayload = some payload → payload.entries ≠ [] →
    ∃ d, b.customPayload = some d ∧ ∀ k v, payload.get? k = some v → d.get? k = some v

/-- There is room, or nothing to add. -/
def Harmless (bindParams : String → Values α → Option String) (statement : Statement α)
    (parameters : Option (Values α)) : Prop :=
  b.statementsAndParameters.length < 0xFFFF ∨ ∀ a, readAttributes bindParams parameters statement = some a →
    b.AsksKey a ∧ a.KeyRaises ∨ b.Covers a

variable {b} {a : Attributes}

theorem maybeSetRoutingAttributes_raises (h : b.AsksKey a) (hrs : a.KeyRaises) :
    ∃ e, b.maybeSetRoutingAttributes a = (b, some e) := by
  rw [maybeSetRoutingAttributes, if_pos h]
  obtain ⟨e, he⟩ | ⟨key, e, hkey, htru, he⟩ := hrs
  · rw [he]
    exact ⟨_, rfl⟩
  rw [hkey]
  simp only [htru, he]
  exact ⟨_, rfl⟩

theorem maybeSetRoutingAttributes_returns (h : ¬ (b.AsksKey a ∧ a.KeyRaises)) :
    ∃ routingKey keyspace, b.maybeSetRoutingAttributes a = ({ b with routingKey, keyspace }, none) ∧
      (routingKey = b.routingKey ∧ keyspace = b.keyspace ↔ (b.AsksKey a →
        ∃ key, a.routingKey = .ok key ∧ (¬ key.truthy ∨ key = .parts [.none] ∧ a.keyspace = b.keyspace))) := by
  by_cases ha : b.AsksKey a
  · rw [maybeSetRoutingAttributes, if_pos ha]
    cases hkey : a.routingKey with
    | error e => exact absurd ⟨ha, .inl ⟨e, hkey⟩⟩ h
    | ok key =>
      by_cases htru : key.truthy
      · cases hpk : key.packed with
        | error e => exact absurd ⟨ha, .inr ⟨key, e, hkey, htru, hpk⟩⟩ h
        | ok routingKey =>
          have hn := RoutingKey.packed_eq_none htru hpk
          exact ⟨routingKey, a.keyspace, by simp [htru, hpk], by simp [ha, htru, ha.1, hn]⟩
      · exact ⟨b.routingKey, b.keyspace, by simp [htru], by simp [htru]⟩
  rw [maybeSetRoutingAttributes, if_neg ha]
  exact ⟨_, _, rfl, by simp [ha]⟩

theorem updateCustomPayload_eq_self : b.updateCustomPayload a = b ↔
    ∀ payload, a.customPayload = some payload → payload.entries ≠ [] →
      ∃ d, b.customPayload = some d ∧ ∀ k v, payload.get? k = some v → d.get? k = some v := by
  unfold updateCustomPayload
  cases a.customPayload with
  | none => simp
  | some payload =>
    by_cases he : payload.entries = []
    · simp [he]
    have hupd (d : Option Payload) : ({ b with customPayload := d } : BatchStatement) = b ↔ d = b.customPayload := by
      constructor
      · exact fun h => congrArg customPayload h
      rintro rfl
      rfl
    simp only [Option.some.injEq, forall_eq']
    rw [if_neg he, hupd, imp_iff_right he]
    cases b.customPayload with
    | none => simp
    | some d => simp [Dict.setAll_eq_self]

theorem updateCustomPayload_eq (b : BatchStatement) (a : Attributes) :
    ∃ customPayload, b.updateCustomPayload a = { b with customPayload } := by
  unfold updateCustomPayload
  split
  · exact ⟨_, rfl⟩
  · split <;> exact ⟨_, rfl⟩

variable {e : AddError} {entry : Entry} {bps : String → Values α → Option String}

theorem addRouted_unchanged_iff (h : (b.addRouted a entry).2 = some e) : (b.addRouted a entry).1 = b ↔
      b.statementsAndParameters.length < 0xFFFF ∨ b.AsksKey a ∧ a.KeyRaises ∨ b.Covers a := by
  by_cases hrs : b.AsksKey a ∧ a.KeyRaises
  · obtain ⟨e', he'⟩ := maybeSetRoutingAttributes_raises hrs.1 hrs.2
    simp [addRouted, updateState, he', hrs]
  obtain ⟨routingKey, keyspace, hset, hs⟩ := maybeSetRoutingAttributes_returns hrs
  have hr : b.addRouted a entry =
      (({ b with routingKey, keyspace } : BatchStatement).updateCustomPayload a).addStatementAndParams entry := by
    rw [addRouted, updateState, hset]
  have hst : ∀ b : BatchStatement, (b.updateCustomPayload a).statementsAndParameters = b.statementsAndParameters ∧
      (b.updateCustomPayload a).routingKey = b.routingKey ∧ (b.updateCustomPayload a).keyspace = b.keyspace := by
    intro b
    obtain ⟨customPayload, heq⟩ := b.updateCustomPayload_eq a
    simp [heq]
  have hf : ¬ b.statementsAndParameters.length < 0xFFFF := by
    rw [hr, addStatementAndParams, (hst _).1] at h
    split at h
    · rename_i hf
      exact not_lt.mpr hf
    · cases h
  rw [hr, addStatementAndParams, (hst _).1, if_pos (not_lt.mp hf), or_iff_right hf,
    or_iff_right hrs, Covers, ← hs, ← updateCustomPayload_eq_self]
  constructor
  · intro heq
    have hrt : routingKey = b.routingKey ∧ keyspace = b.keyspace := by
      refine ⟨?_, ?_⟩
      · exact (hst _).2.1.symm.trans (congrArg BatchStatement.routingKey heq)
      · exact (hst { b with routingKey, keyspace }).2.2.symm.trans (congrArg BatchStatement.keyspace heq)
    obtain ⟨rfl, rfl⟩ := hrt
    exact ⟨⟨rfl, rfl⟩, heq⟩
  rintro ⟨⟨rfl, rfl⟩, heq⟩
  exact heq

theorem addStatementAndParams_unchanged (h : (b.addStatementAndParams entry).2 = some e) :
    (b.addStatementAndParams entry).1 = b := by
  unfold addStatementAndParams at h ⊢
  split
  · rfl
  rename_i hr
  rw [if_neg hr] at h
  cases h

theorem add_cases (bindParams : String → Values α → Option String) (statement : Statement α)
    (parameters : Option (Values α)) : (∃ a entry, readAttributes bindParams parameters statement = some a ∧
      ∀ b, add b bindParams statement parameters = b.addRouted a entry) ∨
    readAttributes bindParams parameters statement = none ∧
      ∀ b e, (add b bindParams statement parameters).2 = some e → (add b bindParams statement parameters).1 = b := by
  cases statement with
  | string query =>
    refine .inr ⟨rfl, fun b e => ?_⟩
    by_cases hg : given parameters
    · cases hq : parameters.bind (bindParams query) with
      | none => simp [add, hg, hq]
      | some query =>
        simp only [add, hg, hq]
        exact addStatementAndParams_unchanged
    · simp only [add, hg]
      exact addStatementAndParams_unchanged
  | prepared prepared =>
    obtain ⟨⟨bound, e⟩, hb⟩ : ∃ r, (BoundStatement.new prepared none).bind (parameters.getD (.sequence [])) = r := ⟨_, rfl⟩
    simp only [add, readAttributes, hb]
    cases e with
    | none => exact .inl ⟨_, _, rfl, fun _ => rfl⟩
    | some e => exact .inr ⟨rfl, fun _ _ _ => rfl⟩
  | bound bound =>
    by_cases hg : given parameters
    · simp [add, readAttributes, hg]
    · simp only [add, readAttributes, hg]
      exact .inl ⟨_, _, rfl, fun _ => rfl⟩
  | simple simple =>
    by_cases hg : given parameters
    · cases hq : parameters.bind (bindParams simple.queryString) with
      | none => exact .inr ⟨by simp [readAttributes, hg, hq], by simp [add, hg, hq]⟩
      | some query =>
        exact .inl ⟨simple.attributes, .query query, by simp [readAttributes, hq], by simp [add, hg, hq]⟩
    · exact .inl ⟨simple.attributes, .query simple.queryString, by simp [readAttributes, hg], by simp [add, hg]⟩

theorem add_unchanged_iff {stmt : Statement α} {parameters : Option (Values α)}
    (h : (b.add bps stmt parameters).2 = some e) :
    (b.add bps stmt parameters).1 = b ↔ b.Harmless bps stmt parameters := by
  obtain ⟨a, entry, hr, hadd⟩ | ⟨hr, hadd⟩ := add_cases bps stmt parameters
  · rw [hadd] at h ⊢
    simp only [Harmless, hr, Option.some.injEq, forall_eq']
    exact addRouted_unchanged_iff h
  · simp [Harmless, hr, hadd b e h]

theorem addEach_append_ok {fr : List (Statement α × Option (Values α))} {b₀ : BatchStatement}
    (h : b.addEach bps fr = (b₀, none)) (back : List (Statement α × Option (Values α))) :
    b.addEach bps (fr ++ back) = b₀.addEach bps back := by
  induction fr generalizing b with
  | nil =>
    obtain rfl := (Prod.mk.inj h).1
    rfl
  | cons call fr ih =>
    rw [addEach] at h
    rw [List.cons_append, addEach]
    cases hadd : b.add bps call.1 call.2 with
    | mk b₁ e =>
      rw [hadd] at h
      cases e with
      | none => exact ih h
      | some e => exact absurd (Prod.mk.inj h).2 nofun

end BatchStatement

/-- **Failed additions** leave the batch alone exactly when harmless. -/
theorem add_failed_unchanged_iff (bindParams : String → Values α → Option String) (b : BatchStatement) :
    (∀ statement parameters e, (b.add bindParams statement parameters).2 = some e →
      ((b.add bindParams statement parameters).1 = b ↔ b.Harmless bindParams statement parameters)) ∧
    ∀ statements parameters front call back b₀ e, List.zip statements parameters = front ++ call :: back →
      b.addEach bindParams front = (b₀, none) → (b₀.add bindParams call.1 call.2).2 = some e →
      ((b.addAll bindParams statements parameters).1 = b₀ ↔ b₀.Harmless bindParams call.1 call.2) := by
  refine ⟨fun _ _ _ => BatchStatement.add_unchanged_iff, ?_⟩
  intro statements parameters front call back b₀ e hzip hfr hf
  have hall : (b.addAll bindParams statements parameters).1 = (b₀.add bindParams call.1 call.2).1 := by
    rw [BatchStatement.addAll, hzip, BatchStatement.addEach_append_ok hfr, BatchStatement.addEach]
    cases hadd : b₀.add bindParams call.1 call.2 with
    | mk b₁ e' =>
      rw [hadd] at hf
      cases e' with
      | none => exact absurd hf nofun
      | some e' => rfl
  rw [hall]
  exact BatchStatement.add_unchanged_iff hf

def usersInsert : SimpleStatement where
  queryString := "INSERT INTO users (id) VALUES (1)"
  routingKey := .value (.bytes [1])
  keyspace := some "ks"
  customPayload := none

def filledBatch : BatchStatement where
  statementsAndParameters := [.query usersInsert.queryString, .prepared [3] [.bytes [1], .unset]]
  routingKey := .bytes [1]
  keyspace := some "ks"
  customPayload := some (Dict.empty.set "key" [2])

theorem add_failed_unchanged_bound : (filledBatch.add (fun query _ => some query)
      (.bound (BoundStatement.new (blobs ["k"] [0] 4) none)) (some (.sequence [.value [7]]))).2 =
        some .parametersWithBound ∧ (filledBatch.add (fun query _ => some query)
      (.bound (BoundStatement.new (blobs ["k"] [0] 4) none)) (some (.sequence [.value [7]]))).1 = filledBatch :=
  ⟨rfl, ((add_failed_unchanged_iff _ _).1 _ _ _ rfl).mpr (.inl (by decide))⟩

/-- The statement that does not fit leaves its routing key behind. -/
theorem add_failed_routes : ((⟨List.replicate 0xFFFF (.query "q"), .none, none, none⟩ : BatchStatement).add
      (fun query (_ : Values Bytes) => some query) (.simple usersInsert) none).2 = some .tooMany ∧
    ((⟨List.replicate 0xFFFF (.query "q"), .none, none, none⟩ : BatchStatement).add
      (fun query (_ : Values Bytes) => some query) (.simple usersInsert) none).1.routingKey = .bytes [1] := by
  -- The list is kept abstract, so that nothing unfolds it.
  have hadd (statements : List Entry) (h : 0xFFFF ≤ statements.length) :
      (⟨statements, .none, none, none⟩ : BatchStatement).add (fun query (_ : Values Bytes) => some query)
        (.simple usersInsert) none = (⟨statements, .bytes [1], some "ks", none⟩, some .tooMany) := by
    have hr : (⟨statements, .none, none, none⟩ : BatchStatement).add (fun query (_ : Values Bytes) => some query)
        (.simple usersInsert) none = BatchStatement.addStatementAndParams ⟨statements, .bytes [1], some "ks", none⟩
          (.query usersInsert.queryString) := rfl
    rw [hr, BatchStatement.addStatementAndParams, if_pos h]
  rw [hadd _ (by rw [List.length_replicate])]
  exact ⟨rfl, rfl⟩

end CqlDriver.Statements
