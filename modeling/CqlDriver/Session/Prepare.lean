import CqlDriver.Lib.Dict
import CqlDriver.Lib.Run
import CqlDriver.Protocol.BatchMessage

/-!
# Preparing a statement again

The PREPARE that `_set_result` sends when a host does not know a statement. The sessions of a
cluster share its statements, and each has a keyspace that may change.
-/

namespace CqlDriver.Prepare

open Lib CqlDriver.Protocol

structure PreparedStatement where
  queryId : Bytes
  queryString : Text
  keyspace : Option Text
deriving DecidableEq

def PreparedStatement.fromMessage (queryId : Bytes) (query : Text) (preparedKeyspace : Option Text) : PreparedStatement where
  queryId := queryId
  queryString := query
  keyspace := preparedKeyspace

/-- A call of `Session.prepare`. -/
structure Prepared where
  message : PrepareMessage
  /-- The one of the session. -/
  keyspace : Option Text
  statement : PreparedStatement
deriving DecidableEq

structure Cluster where
  protocolVersion : Nat
  keyspaces : Nat → Option Text
  preparedStatements : Dict Bytes PreparedStatement
  calls : List Prepared

namespace Cluster

/-- With the id in the answer. A message that cannot be sent raises. -/
def prepare (c : Cluster) (session : Nat) (query : Text) (keyspace : Option Text) (queryId : Bytes) : Cluster :=
  let message : PrepareMessage := ⟨query, keyspace⟩
  match message.sendBody c.protocolVersion with
  | none => c
  | some _ =>
    -- `prepared_keyspace`, made of the argument, goes to `prepare_on_all_hosts` only.
    let statement := PreparedStatement.fromMessage queryId query (c.keyspaces session)
    { c with
      preparedStatements := c.preparedStatements.set queryId statement
      calls := c.calls ++ [⟨message, c.keyspaces session, statement⟩] }

def statementFor (c : Cluster) (own : Option PreparedStatement) (info : Bytes) : Option PreparedStatement :=
  match own with
  | some statement =>
    if statement.queryId = info then some ((c.preparedStatements.get? info).getD statement) else none
  | none => c.preparedStatements.get? info

def prepareAgain (c : Cluster) (statement : PreparedStatement) (currentKeyspace : Option Text) : Option PrepareMessage :=
  if ¬ usesKeyspaceFlag c.protocolVersion ∧ (nonempty statement.keyspace).isSome ∧ currentKeyspace ≠ statement.keyspace then
    none
  else some ⟨statement.queryString, if usesKeyspaceFlag c.protocolVersion then statement.keyspace else none⟩

def keep (c : Cluster) (info : Bytes) (statement : PreparedStatement) : Cluster :=
  match c.preparedStatements.get? info with
  | some _ => c
  | none => { c with preparedStatements := c.preparedStatements.set info statement }

/-- `own` is the statement of the future: a batch has none. -/
def preparedQueryNotFound (c : Cluster) (own : Option PreparedStatement) (info : Bytes) (currentKeyspace : Option Text) :
    Cluster × Option PrepareMessage :=
  match c.statementFor own info with
  | none => (c, none)
  | some statement => (c.keep info statement, c.prepareAgain statement currentKeyspace)

end Cluster

inductive Event
  | setKeyspace (session : Nat) (keyspace : Option Text)
  | prepare (session : Nat) (query : Text) (keyspace : Option Text) (queryId : Bytes)
  /-- The dictionary is weak: a statement that nobody has any more leaves it. -/
  | forget (queryId : Bytes)
  | notFound (call : Option Nat) (info : Bytes) (currentKeyspace : Option Text)

def step (c : Cluster) : Event → Cluster
  | .setKeyspace session keyspace => { c with keyspaces := fun i => if i = session then keyspace else c.keyspaces i }
  | .prepare session query keyspace queryId => c.prepare session query keyspace queryId
  | .forget queryId => { c with preparedStatements := c.preparedStatements.erase queryId }
  | .notFound call info currentKeyspace =>
    (c.preparedQueryNotFound (call.bind fun i => c.calls[i]?.map Prepared.statement) info currentKeyspace).1

def start (protocolVersion : Nat) : Cluster := ⟨protocolVersion, fun _ => none, Dict.empty, []⟩

/-! ## What is kept -/

/-- The text and keyspaces that a call leaves in its statement. -/
structure Prepared.Ok (k : Prepared) (version : Nat) : Prop where
  query : k.message.query = k.statement.queryString
  session : k.keyspace = k.statement.keyspace
  keyspace : ¬ usesKeyspaceFlag version → k.message.keyspace = none

structure Known (version : Nat) (c : Cluster) : Prop where
  sameVersion : c.protocolVersion = version
  calls : ∀ k ∈ c.calls, k.Ok version
  cached : ∀ id statement, c.preparedStatements.get? id = some statement → ∃ k ∈ c.calls, k.statement = statement

theorem keyspace_of_sendBody {m : PrepareMessage} {version : Nat} {b : Bytes} (h : m.sendBody version = some b)
    (hver : ¬ usesKeyspaceFlag version) : m.keyspace = none := by
  have hf : ¬ 5 ≤ version := by simpa [usesKeyspaceFlag] using hver
  exact (PrepareMessage.sendBody_plain hf h).1

variable {version : Nat} {c : Cluster}

theorem Known.prepare (hc : Known version c) (session : Nat) (query : Text) (ks : Option Text) (queryId : Bytes) :
    Known version (c.prepare session query ks queryId) := by
  unfold Cluster.prepare
  dsimp only
  cases hb : (PrepareMessage.mk query ks).sendBody c.protocolVersion with
  | none => exact hc
  | some b =>
    refine ⟨hc.sameVersion, ?_, ?_⟩
    · intro k hk
      rcases List.mem_append.mp hk with hk | hk
      · exact hc.calls k hk
      obtain rfl := List.mem_singleton.mp hk
      exact ⟨rfl, rfl, fun hver => keyspace_of_sendBody (hc.sameVersion ▸ hb) hver⟩
    intro id stmt hget
    rw [Dict.get?_set] at hget
    split at hget
    · cases hget
      exact ⟨_, List.mem_append_right _ List.mem_cons_self, rfl⟩
    obtain ⟨k, hk, rfl⟩ := hc.cached id stmt hget
    exact ⟨k, List.mem_append_left _ hk, rfl⟩

variable {own : Option PreparedStatement}

theorem Known.statementFor (hc : Known version c) (hown : ∀ statement ∈ own, ∃ k ∈ c.calls, k.statement = statement)
    {info : Bytes} {statement : PreparedStatement} (h : c.statementFor own info = some statement) :
    ∃ k ∈ c.calls, k.statement = statement := by
  unfold Cluster.statementFor at h
  cases own with
  | none => exact hc.cached info statement h
  | some mine =>
    dsimp only at h
    split at h
    · cases hget : c.preparedStatements.get? info with
      | none =>
        obtain rfl : mine = statement := by simpa [hget] using h
        exact hown mine rfl
      | some cached =>
        obtain rfl : cached = statement := by simpa [hget] using h
        exact hc.cached info cached hget
    · cases h

theorem Known.preparedQueryNotFound (hc : Known version c)
    (hown : ∀ stmt ∈ own, ∃ k ∈ c.calls, k.statement = stmt) (info : Bytes) (cks : Option Text) :
    Known version (c.preparedQueryNotFound own info cks).1 := by
  unfold Cluster.preparedQueryNotFound
  cases hs : c.statementFor own info with
  | none => exact hc
  | some stmt =>
    dsimp only [Cluster.keep]
    split
    · exact hc
    refine ⟨hc.sameVersion, hc.calls, fun id found hget => ?_⟩
    rw [Dict.get?_set] at hget
    split at hget
    · cases hget
      exact hc.statementFor hown hs
    · exact hc.cached id found hget

theorem Known.step (hc : Known version c) (e : Event) : Known version (Prepare.step c e) := by
  cases e with
  | setKeyspace session ks => exact ⟨hc.sameVersion, hc.calls, hc.cached⟩
  | prepare session query ks queryId => exact hc.prepare session query ks queryId
  | forget queryId =>
    refine ⟨hc.sameVersion, hc.calls, fun id stmt hget => ?_⟩
    rw [Prepare.step, Dict.get?_erase] at hget
    split at hget
    · cases hget
    · exact hc.cached id stmt hget
  | notFound call info cks =>
    refine hc.preparedQueryNotFound (fun stmt hs => ?_) info cks
    obtain ⟨i, -, hi⟩ := Option.bind_eq_some_iff.mp hs
    obtain ⟨k, hk, rfl⟩ := Option.map_eq_some_iff.mp hi
    exact ⟨k, List.mem_of_getElem? hk, rfl⟩

theorem known_run (version : Nat) (evs : List Event) : Known version (run step (start version) evs) := by
  have hs : Known version (start version) := ⟨rfl, nofun, nofun⟩
  have hst : ∀ c e, Known version c → Known version (step c e) := fun c e hc => hc.step e
  exact run_invariant_all hst evs hs

/-- **Prepared again alike**, if the text is the same and the session's keyspace was the call's. -/
theorem prepared_again_iff (version : Nat) (events : List Event) {k : Prepared}
    (hk : k ∈ (run step (start version) events).calls) {own : Option PreparedStatement}
    (hown : own = none ∨ own = some k.statement) {currentKeyspace : Option Text} {message : PrepareMessage}
    (h : ((run step (start version) events).preparedQueryNotFound own k.statement.queryId currentKeyspace).2 =
      some message) : ∃ k' ∈ (run step (start version) events).calls,
      (run step (start version) events).statementFor own k.statement.queryId = some k'.statement ∧
      (message = k.message ↔
        k'.message.query = k.message.query ∧ (5 ≤ version → k'.keyspace = k.message.keyspace)) := by
  have hc := known_run version events
  generalize run step (start version) events = c at hc hk h
  have hown' : ∀ statement ∈ own, ∃ k ∈ c.calls, k.statement = statement := by
    rintro statement hs
    rcases hown with rfl | rfl
    · cases hs
    · exact ⟨k, hk, Option.some.inj hs⟩
  unfold Cluster.preparedQueryNotFound at h
  cases hs : c.statementFor own k.statement.queryId with
  | none => simp [hs] at h
  | some statement =>
    obtain ⟨k', hk', rfl⟩ := hc.statementFor hown' hs
    simp only [hs, Cluster.prepareAgain, hc.sameVersion] at h
    split at h
    · cases h
    refine ⟨k', hk', rfl, ?_⟩
    obtain rfl := Option.some.inj h
    obtain ⟨⟨query, keyspace⟩, own, mine⟩ := k
    have hn := (hc.calls _ hk).keyspace
    rw [(hc.calls k' hk').query, (hc.calls k' hk').session]
    by_cases hver : 5 ≤ version
    · simp [usesKeyspaceFlag, hver]
    obtain rfl : keyspace = none := hn (by simpa [usesKeyspaceFlag] using hver)
    simp [usesKeyspaceFlag, hver]

def prepareFor (keyspace : Option Text) : List Event :=
  [.setKeyspace 0 (some ['k']), .prepare 0 ['Q'] keyspace [7], .setKeyspace 0 none, .forget [7]]

/-- Its first call, with the statement that a future of it has. -/
def firstCall (keyspace : Option Text) : Option Prepared := (run step (start 5) (prepareFor keyspace)).calls.head?

theorem prepared_again_same : ∃ k ∈ firstCall (some ['k']), ∃ k' ∈ (run step (start 5) (prepareFor (some ['k']))).calls,
      (run step (start 5) (prepareFor (some ['k']))).statementFor (some k.statement) [7] = some k'.statement ∧
        k'.message.query = ['Q'] ∧ k'.keyspace = some ['k'] := by
  let k : Prepared := ⟨⟨['Q'], some ['k']⟩, some ['k'], ⟨[7], ['Q'], some ['k']⟩⟩
  have hk : k ∈ (run step (start 5) (prepareFor (some ['k']))).calls := by decide +kernel
  have hs : ((run step (start 5) (prepareFor (some ['k']))).preparedQueryNotFound (some k.statement) [7] none).2 =
      some k.message := by
    decide +kernel
  obtain ⟨k', hk', hst, hiff⟩ := prepared_again_iff 5 _ hk (.inr rfl) hs
  exact ⟨k, by decide +kernel, k', hk', hst, (hiff.mp rfl).1, (hiff.mp rfl).2 (by decide)⟩

theorem prepared_again_elsewhere : (firstCall (some ['l'])).map Prepared.message = some ⟨['Q'], some ['l']⟩ ∧
    ((run step (start 5) (prepareFor (some ['l']))).preparedQueryNotFound
      ((firstCall (some ['l'])).map Prepared.statement) [7] none).2 = some ⟨['Q'], some ['k']⟩ := by
  decide +kernel

end CqlDriver.Prepare
