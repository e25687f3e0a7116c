import CqlDriver.Lib.Run
import Mathlib.Data.List.Perm.Basic

/-!
# The life of a `HostConnectionPool`

The pool for protocol versions 1 and 2. A call that is under way is a task, and any task may take
the next step. The loops of `shutdown` run without the lock, so that a region under the lock is one
step only up to what they read or write.
-/

namespace CqlDriver.PoolLife

open Lib

structure PooledConn where
  inFlight : Int := 0
  isClosed : Bool := false
  isDefunct : Bool := false
  signaledError : Bool := false
  deriving DecidableEq

inductive Raised
  /-- A `ConnectionException` or a `socket.error`. -/
  | connectionException
  | authenticationFailed
  /-- `OperationTimedOut`, `InvalidRequest` and all others. -/
  | other
  deriving DecidableEq

inductive Origin
  | createNewConnection
  | retryingReplace
  deriving DecidableEq

inductive Task
  | queued (origin : Origin)
  | opening (origin : Origin)
  | settingKeyspace (origin : Origin) (c : Nat)
  | adding (origin : Origin) (c : Nat)
  | countingDown (origin : Origin) (signals : Bool)
  | signalingFailure (origin : Origin)
  | ending (origin : Origin) (replaced : Bool)
  /-- `shutdown` is called, by `_add_conn_if_under_max` if there is an origin. -/
  | shuttingDown (origin : Option Origin)
  | returning (c : Nat) (inFlight : Int)
  /-- An open connection is returned, and `_trash` is looked at. -/
  | lookingUp (c : Nat) (inFlight : Int)
  | measuring (c : Nat) (inFlight : Int)
  /-- A closed connection whose error has not been signaled. -/
  | signaling (c : Nat)
  | inTrash (c : Nat)
  | maybeTrash (c : Nat)
  | replacing (c : Nat)
  | closing (c : Nat) (replace : Bool)
  | ensuringCore
  | picking
  | borrowing (c : Nat)
  | borrowed (c : Nat)
  | filling
  | spawning
  deriving DecidableEq

/-- The step of a call that waits for `_lock`. -/
def Task.locks : Task → Bool
  | .queued _ | .adding _ _ | .countingDown _ _ | .ending .createNewConnection _ | .shuttingDown _ | .inTrash _
  | .maybeTrash _ | .replacing _ | .ensuringCore | .spawning => true
  | _ => false

/-- Where a call is that holds `_lock`. -/
inductive Lock
  | free
  /-- `_maybe_trash_connection` has made its tests. -/
  | counting (c : Nat)
  | removing (c : Nat)
  | checking (c : Nat)
  | trashing (c : Nat)
  /-- `_replace` has taken its connection out of `_connections`. -/
  | replaced (c : Nat)
  deriving DecidableEq

inductive Closing
  | no
  | flagged
  | connections (rest : List Nat)
  | countingDown (rest : List Nat)
  | trash (rest : List Nat) (size : Nat)
  | done
  | raised
  deriving DecidableEq

structure HostConnectionPool where
  coreConns : Nat
  maxConns : Nat
  minReqs : Int
  maxReqs : Int
  maxRequestId : Int
  conns : List PooledConn
  connections : List Nat
  trash : List Nat := []
  openCount : Int
  scheduledForCreation : Int := 0
  closing : Closing := .no
  lock : Lock := .free
  tasks : List Task := []

structure Oracle where
  raises : Option Raised := none
  /-- A `set_keyspace_blocking` that raises has closed the connection. -/
  closes : Bool := true
  isDown : Bool := false
  trashAllowed : Bool := true

namespace HostConnectionPool

def init (coreConns maxConns : Nat) (minReqs maxReqs maxRequestId : Int) : HostConnectionPool where
  coreConns
  maxConns
  minReqs
  maxReqs
  maxRequestId
  conns := List.replicate coreConns {}
  connections := List.range coreConns
  openCount := coreConns

def isShutdown (s : HostConnectionPool) : Bool := s.closing ≠ .no

def submit (s : HostConnectionPool) (task : Task) : HostConnectionPool := { s with tasks := s.tasks ++ [task] }

def modConn (s : HostConnectionPool) (c : Nat) (k : PooledConn → PooledConn) : HostConnectionPool :=
  { s with conns := s.conns.modify c k }

def close (s : HostConnectionPool) (c : Nat) : HostConnectionPool := s.modConn c fun conn => { conn with isClosed := true }

def inFlightOf (s : HostConnectionPool) (c : Nat) : Int := (s.conns[c]?.map PooledConn.inFlight).getD 0

def shutdown (s : HostConnectionPool) : HostConnectionPool := if s.isShutdown then s else { s with closing := .flagged }

def closeNext (s : HostConnectionPool) : HostConnectionPool :=
  match s.closing with
  | .no | .done | .raised => s
  | .flagged => { s with closing := .connections s.connections }
  | .connections (c :: rest) => { s.close c with closing := .countingDown rest }
  | .countingDown rest => { s with openCount := s.openCount - 1, closing := .connections rest }
  | .connections [] => { s with closing := .trash s.trash s.trash.length }
  | .trash rest size =>
    if s.trash.length ≠ size then { s with closing := .raised }
    else
      match rest with
      | c :: rest => { s.close c with closing := .trash rest size }
      | [] => { s with closing := .done }

def scheduleCore (s : HostConnectionPool) : HostConnectionPool :=
  let toCreate := (s.coreConns - (s.connections.length + s.scheduledForCreation)).toNat
  { s with
    scheduledForCreation := s.scheduledForCreation + toCreate
    tasks := s.tasks ++ List.replicate toCreate (.queued .createNewConnection) }

def maxSimultaneousCreation : Int := 1

def maybeSpawnNewConnection (s : HostConnectionPool) : HostConnectionPool :=
  if s.scheduledForCreation ≥ maxSimultaneousCreation then s
  else if s.openCount ≥ s.maxConns then s
  else { s with scheduledForCreation := s.scheduledForCreation + 1 }.submit (.queued .createNewConnection)

def failed (s : HostConnectionPool) (origin : Origin) : Raised → HostConnectionPool
  | .connectionException => s.submit (.countingDown origin true)
  | .authenticationFailed => s.submit (.countingDown origin false)
  -- no clause of `_add_conn_if_under_max` is for these
  | .other => s.submit (.ending origin false)

def addConnIfUnderMax (o : Oracle) (s : HostConnectionPool) : Task → HostConnectionPool
  | .queued origin =>
    if s.isShutdown then s.submit (.ending origin true)
    else if s.openCount ≥ s.maxConns then s.submit (.ending origin true)
    else { s with openCount := s.openCount + 1 }.submit (.opening origin)
  | .opening origin =>
    match o.raises with
    | some raised => s.failed origin raised
    | none => { s with conns := s.conns ++ [({} : PooledConn)] }.submit (.settingKeyspace origin s.conns.length)
  | .settingKeyspace origin c =>
    match o.raises with
    | some raised => (if o.closes then s.close c else s).failed origin raised
    | none => s.submit (.adding origin c)
  | .adding origin c => { s with connections := s.connections ++ [c] }.submit (.ending origin true)
  | .countingDown origin signals =>
    let s := { s with openCount := s.openCount - 1 }
    if signals then s.submit (.signalingFailure origin) else s.submit (.ending origin false)
  | .signalingFailure origin =>
    s.submit (if o.isDown then .shuttingDown (some origin) else .ending origin false)
  | .ending .createNewConnection _ => { s with scheduledForCreation := s.scheduledForCreation - 1 }
  | .ending .retryingReplace replaced => if replaced then s else s.submit (.queued .retryingReplace)
  | _ => s

def maybeTrashConnection (s : HostConnectionPool) (c : Nat) : HostConnectionPool :=
  if c ∈ s.connections ∧ s.openCount > s.coreConns then { s with lock := .counting c } else s

def replace (s : HostConnectionPool) (c : Nat) : HostConnectionPool :=
  if c ∈ s.connections then { s with connections := s.connections.erase c, lock := .replaced c }
  else s.submit (.closing c false)

/-- The call that holds the lock goes on. -/
def holderNext (s : HostConnectionPool) : HostConnectionPool :=
  match s.lock with
  | .free => s
  | .counting c => { s with openCount := s.openCount - 1, lock := .removing c }
  | .removing c => { s with connections := s.connections.erase c, lock := .checking c }
  | .checking c => if s.inFlightOf c = 0 then { s.close c with lock := .free } else { s with lock := .trashing c }
  | .trashing c => { s with trash := s.trash.insert c, lock := .free }
  | .replaced c => { s with openCount := s.openCount - 1, lock := .free }.submit (.closing c true)

def returnConnection (s : HostConnectionPool) (c : Nat) (inFlight : Int) : HostConnectionPool :=
  match s.conns[c]? with
  | none => s
  | some conn =>
    if conn.isDefunct || conn.isClosed then
      if conn.signaledError then s else s.submit (.signaling c)
    else s.submit (.lookingUp c inFlight)

def leastBusy (s : HostConnectionPool) : List Nat → Option Nat
  | [] => none
  | c :: rest =>
    match s.leastBusy rest with
    | none => some c
    | some c' => if s.inFlightOf c ≤ s.inFlightOf c' then some c else some c'

def runTask (o : Oracle) (s : HostConnectionPool) : Task → HostConnectionPool
  | .shuttingDown none => s.shutdown
  | .shuttingDown (some origin) => s.shutdown.submit (.ending origin false)
  | .returning c inFlight => s.returnConnection c inFlight
  | .lookingUp c inFlight => s.submit (if c ∈ s.trash then .inTrash c else .measuring c inFlight)
  | .measuring c inFlight =>
    if s.connections.length > s.coreConns ∧ inFlight ≤ s.minReqs ∧ o.trashAllowed then s.submit (.maybeTrash c) else s
  | .signaling c =>
    (s.modConn c fun conn => { conn with signaledError := true }).submit
      (if o.isDown then .shuttingDown none else .replacing c)
  | .inTrash c =>
    if s.inFlightOf c = 0 then { s with trash := s.trash.erase c }.submit (.closing c false) else s
  | .maybeTrash c => s.maybeTrashConnection c
  | .replacing c => s.replace c
  | .closing c replace => if replace then (s.close c).submit (.queued .retryingReplace) else s.close c
  | .ensuringCore => s.scheduleCore
  | .picking =>
    match s.leastBusy s.connections with
    | none => s.submit .ensuringCore
    | some c => s.submit (.borrowing c)
  | .borrowing c =>
    if s.inFlightOf c < s.maxRequestId then
      (s.modConn c fun conn => { conn with inFlight := conn.inFlight + 1 }).submit (.borrowed c)
    else s
  | .borrowed c => if s.inFlightOf c ≥ s.maxReqs then s.submit .filling else s
  | .filling => if s.connections.length < s.maxConns then s.submit .spawning else s
  | .spawning => s.maybeSpawnNewConnection
  | task => s.addConnIfUnderMax o task

end HostConnectionPool

open HostConnectionPool

inductive Act
  | borrowConnection
  | returnConnection (c : Nat)
  | maybeTrashConnection (c : Nat)
  | replace (c : Nat)
  | retryingReplace
  | createNewConnection
  | ensureCoreConnections
  | shutdown
  | closeNext
  | holderNext
  | task (index : Nat)
  | defunct (c : Nat)
  | close (c : Nat)

def step (s : HostConnectionPool) (a : Oracle × Act) : HostConnectionPool :=
  match a.2 with
  | .borrowConnection => if s.isShutdown then s else s.submit .picking
  | .returnConnection c =>
    (s.modConn c fun conn => { conn with inFlight := conn.inFlight - 1 }).submit (.returning c (s.inFlightOf c - 1))
  | .maybeTrashConnection c => s.submit (.maybeTrash c)
  | .replace c => s.submit (.replacing c)
  | .retryingReplace => s.submit (.queued .retryingReplace)
  | .createNewConnection => s.submit (.queued .createNewConnection)
  | .ensureCoreConnections => if s.isShutdown then s else s.submit .ensuringCore
  | .shutdown => s.submit (.shuttingDown none)
  | .closeNext => s.closeNext
  | .holderNext => s.holderNext
  | .task index =>
    match s.tasks[index]? with
    | none => s
    | some task =>
      if task.locks ∧ s.lock ≠ .free then s else { s with tasks := s.tasks.eraseIdx index }.runTask a.1 task
  | .defunct c => s.modConn c fun conn =>
    if conn.isDefunct || conn.isClosed then conn else { conn with isDefunct := true, isClosed := true }
  | .close c => s.close c

end CqlDriver.PoolLife
