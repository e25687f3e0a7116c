import CqlDriver.Lib.Run
import Mathlib.Logic.Function.Basic

/-!
# Switching the keyspace of a session

`Session._set_keyspace_for_all_pools` and what it calls. The loops over the pools and their
connections go on step by step, so that requests of connections already asked may finish in between.
-/

namespace CqlDriver.Session

inductive Exc
  | invalidRequest
  | connectionException
  deriving DecidableEq

structure Connection (κ : Type) where
  keyspace : Option κ
  isDown : Bool

inductive HostPool
  | hostConnection (isShutdown hasConnection : Bool)
  | hostConnectionPool (size : Nat)

/-- How a callback came to be called. -/
inductive Outcome
  | already
  | result
  | invalidRequest
  | error
  | shutdown
  | noConnections
  deriving DecidableEq

structure Finish where
  pool : Nat
  conn : Option Nat
  outcome : Outcome
  deriving DecidableEq

structure Call where
  argument : List Exc
  /-- No pool had anything left to ask or to wait for. -/
  afterAll : Bool
  deriving DecidableEq

structure Setup (κ : Type) where
  keyspace : κ
  pools : List HostPool

structure Switch (κ : Type) where
  connections : Nat → Nat → Connection κ
  /-- `remaining_callbacks` and `errors` of each pool's `_set_keyspace_for_all_conns`. -/
  remaining : Nat → List Nat
  errors : Nat → List Exc
  remainingPools : List Nat
  sessionErrors : List (Nat × List Exc)
  /-- The pools that the session's loop has not reached. -/
  toAsk : List Nat
  toSet : List (Nat × Nat)
  inFlight : List (Nat × Nat)
  calls : List Call
  log : List Finish

variable {κ : Type} [DecidableEq κ]

def Switch.setConnection (s : Switch κ) (p c : Nat) (conn : Connection κ) : Switch κ :=
  { s with connections := Function.update s.connections p (Function.update (s.connections p) c conn) }

/-! ## The callbacks -/

def poolFinished (s : Switch κ) (p : Nat) (hostErrors : List Exc) : Switch κ :=
  let s := { s with remainingPools := s.remainingPools.erase p }
  let s := if hostErrors ≠ [] then { s with sessionErrors := s.sessionErrors ++ [(p, hostErrors)] } else s
  if s.remainingPools = [] then
    { s with calls := s.calls ++ [⟨hostErrors, s.toAsk = [] ∧ s.toSet = [] ∧ s.inFlight = []⟩] }
  else s

def connectionFinished (setup : Setup κ) (s : Switch κ) (p c : Nat) (error : Option Exc) (outcome : Outcome) :
    Switch κ :=
  let s := { s with log := s.log ++ [⟨p, some c, outcome⟩] }
  match setup.pools[p]? with
  | some (.hostConnectionPool _) =>
    let s := { s with
      remaining := Function.update s.remaining p ((s.remaining p).erase c)
      errors := Function.update s.errors p (s.errors p ++ error.toList) }
    if s.remaining p = [] then poolFinished s p (s.errors p) else s
  | some (.hostConnection ..) | none => poolFinished s p error.toList

/-- A connection that is down already gives no exception back. -/
def defunct (conn : Connection κ) : Connection κ × Option Exc :=
  if conn.isDown then (conn, none) else ({ conn with isDown := true }, some .connectionException)

/-! ## The loops -/

/-- On a connection that is down `send_msg` raises, and both loops end. -/
def setKeyspaceAsync (setup : Setup κ) (s : Switch κ) (p c : Nat) : Switch κ :=
  if (s.connections p c).keyspace = some setup.keyspace then connectionFinished setup s p c none .already
  else if (s.connections p c).isDown then { s with toAsk := [], toSet := [] }
  else { s with inFlight := s.inFlight ++ [(p, c)] }

/-- `_set_keyspace_for_all_conns` up to the loop over the connections. -/
def askPool (setup : Setup κ) (s : Switch κ) (p : Nat) : Switch κ :=
  match setup.pools[p]? with
  | some (.hostConnection isShutdown hasConnection) =>
    if isShutdown || !hasConnection then s else { s with toSet := [(p, 0)] }
  | some (.hostConnectionPool size) =>
    let s := { s with remaining := Function.update s.remaining p (List.range size) }
    if size = 0 then poolFinished { s with log := s.log ++ [⟨p, none, .noConnections⟩] } p []
    else { s with toSet := (List.range size).map (p, ·) }
  | none => s

inductive Response
  | result
  | invalidRequest
  | error
  deriving DecidableEq

inductive Act
  | advance
  | respond (p c : Nat) (response : Response)
  /-- Closed or defunct; its `USE` gets a `ConnectionShutdown`. -/
  | lose (p c : Nat)

def processResult (setup : Setup κ) (s : Switch κ) (p c : Nat) : Response → Switch κ
  | .result =>
    let s := s.setConnection p c { s.connections p c with keyspace := some setup.keyspace }
    connectionFinished setup s p c none .result
  | .invalidRequest => connectionFinished setup s p c (some .invalidRequest) .invalidRequest
  | .error =>
    let (conn, exc) := defunct (s.connections p c)
    connectionFinished setup (s.setConnection p c conn) p c exc .error

def step (setup : Setup κ) (s : Switch κ) : Act → Switch κ
  | .advance =>
    match s.toSet, s.toAsk with
    | (p, c) :: rest, _ => setKeyspaceAsync setup { s with toSet := rest } p c
    | [], p :: rest => askPool setup { s with toAsk := rest } p
    | [], [] => s
  | .respond p c response =>
    if (p, c) ∈ s.inFlight then processResult setup { s with inFlight := s.inFlight.erase (p, c) } p c response
    else s
  | .lose p c =>
    let down := s.setConnection p c { s.connections p c with isDown := true }
    if (p, c) ∈ s.inFlight then
      let (conn, exc) := defunct (down.connections p c)
      connectionFinished setup (Switch.setConnection { down with inFlight := s.inFlight.erase (p, c) } p c conn) p c exc
        .shutdown
    else down

def setKeyspaceForAllPools (setup : Setup κ) (connections : Nat → Nat → Connection κ) : Switch κ :=
  { connections
    remaining := fun _ => []
    errors := fun _ => []
    remainingPools := List.range setup.pools.length
    sessionErrors := []
    toAsk := List.range setup.pools.length
    toSet := []
    inFlight := []
    calls := if setup.pools = [] then [⟨[], true⟩] else []
    log := [] }

/-! ## What the callback should get -/

def Complete (s : Switch κ) : Prop := s.toAsk = [] ∧ s.toSet = [] ∧ s.inFlight = []

def HostPool.size : HostPool → Nat
  | .hostConnection _ hasConnection => if hasConnection then 1 else 0
  | .hostConnectionPool size => size

/-- One call, after every pool, with the errors there were. -/
def Reports (setup : Setup κ) (s : Switch κ) : Prop :=
  ∃ call, s.calls = [call] ∧ call.afterAll = true ∧
    (call.argument ≠ [] ↔ ∃ p pool c, setup.pools[p]? = some pool ∧ c < pool.size ∧
      (s.connections p c).keyspace ≠ some setup.keyspace)

def HostPool.answers : HostPool → Bool
  | .hostConnection isShutdown hasConnection => !isShutdown && hasConnection
  | .hostConnectionPool _ => true

def reaches (setup : Setup κ) (s : Switch κ) : Act → Bool
  | .advance =>
    match s.toSet, s.toAsk with
    | (p, c) :: _, _ => (s.connections p c).keyspace = some setup.keyspace || !(s.connections p c).isDown
    | [], p :: _ => setup.pools[p]?.all HostPool.answers
    | [], [] => true
  | .respond .. | .lose .. => true

def Reaches (setup : Setup κ) (s : Switch κ) (act : Act) : Prop := reaches setup s act = true

instance (setup : Setup κ) (s : Switch κ) (act : Act) : Decidable (Reaches setup s act) :=
  inferInstanceAs (Decidable (reaches setup s act = true))

instance (s : Switch κ) : Decidable (Complete s) :=
  inferInstanceAs (Decidable (s.toAsk = [] ∧ s.toSet = [] ∧ s.inFlight = []))

def Outcome.isSet : Outcome → Bool
  | .already | .result | .noConnections => true
  | .invalidRequest | .error | .shutdown => false

def Outcome.exc : Outcome → Option Exc
  | .invalidRequest => some .invalidRequest
  | .error => some .connectionException
  | .already | .result | .shutdown | .noConnections => none

/-- No failure, or one in the pool that finishes last. -/
def LastReports (log : List Finish) : Prop :=
  (∀ x ∈ log, x.outcome.isSet = true) ∨
  ∃ last ∈ log.getLast?, ∃ x ∈ log, x.pool = last.pool ∧ x.outcome.exc.isSome = true

end CqlDriver.Session
