import CqlDriver.Pool.Basic

/-!
# The session: futures, pools and connections

Objects are numbered, and a field that refers to an object holds its number. What a handler submits
to the executor, and every call it makes into another handler, goes to `calls`, and any of these may
be the next to run: this covers the call on the spot and every order of the threads.
-/

namespace CqlDriver.Requests

open Lib Conn

abbrev Host := Nat
abbrev ConnId := Nat
abbrev PoolId := Nat
abbrev FutureId := Nat
abbrev UserFn := Nat
abbrev Results := Nat

/-! ## Responses and errors -/

inductive ErrorMessage
  | readTimeout
  | writeTimeout
  | unavailable
  | overloaded
  | isBootstrapping
  | preparedQueryNotFound (queryId : Nat)
  | other (code : Nat)
  deriving DecidableEq

inductive Response
  | rows (results : Results) (pagingState : Option Nat)
  | result (results : Option Results)
  | setKeyspace
  | schemaChange
  | prepared (results : Results)
  | error (e : ErrorMessage)
  | connectionException
  | connectionShutdown
  | exception
  | unknown
  deriving DecidableEq

inductive HostError
  | connectionException (msg : String)
  | connectionShutdown
  | noConnectionsAvailable
  | assertionError
  | sendError
  | server (e : ErrorMessage)
  deriving DecidableEq

inductive TimeoutErrors
  | hosts (errors : List (Host × HostError))
  /-- `none` stands for the key `'no host queried before timeout'`. -/
  | client (key : Option Host) (msg : String)
  | schemaAgreement (msg : String)
  deriving DecidableEq

inductive Exc
  | host (e : HostError)
  | noHostAvailable (msg : String) (errors : List (Host × HostError))
  | operationTimedOut (errors : TimeoutErrors) (lastHost : Option Host)
  | valueError
  | attributeError
  | assertionError
  | response
  | raised
  deriving DecidableEq

/-! ## Callbacks and calls -/

inductive Handler
  | setResult
  | executeAfterPrepare
  deriving DecidableEq

/-- A bound method of a future with its arguments, as `send_msg` registers it. -/
structure Callback where
  handler : Handler
  future : FutureId
  host : Host
  connection : ConnId
  pool : PoolId
  /-- The number of its `send_msg` call, a ghost. -/
  serial : Nat
  deriving DecidableEq

inductive Call
  | callback (cb : Callback) (response : Response)
  | executeAfterPrepare (cb : Callback) (response : Response)
  | setResult (cb : Callback) (response : Response)
  | afterPrepare (cb : Callback) (response : Response)
  | sendRequest (f : FutureId) (errorNoHosts : Bool)
  /-- `_query` has returned, and `_req_id` is set next. -/
  | requestSent (f : FutureId) (requestId : Int) (errorNoHosts : Bool)
  /-- `send_request` after a `_query` that gave `None`. -/
  | sendFailed (f : FutureId) (errorNoHosts : Bool)
  | retry (f : FutureId) (reuse : Bool) (host : Host)
  | retryTask (f : FutureId) (reuse : Bool) (host : Host)
  | reprepare (cb : Callback)
  /-- The end of `_set_result` for an unexpected message. -/
  | setFinalException (f : FutureId) (exc : Exc)
  | refreshSchema (f : FutureId)
  | setKeyspaceCompleted (f : FutureId)
  | replace (p : PoolId)
  | createNewConnection (p : PoolId)
  | shutdownPool (p : PoolId)
  deriving DecidableEq

def Call.future : Call → Option FutureId
  | .callback cb _ | .executeAfterPrepare cb _ | .setResult cb _ | .afterPrepare cb _ | .reprepare cb => some cb.future
  | .sendRequest f _ | .sendFailed f _ | .retry f _ _ | .retryTask f _ _ | .setFinalException f _
  | .refreshSchema f | .setKeyspaceCompleted f => some f
  | .requestSent _ _ _ | .replace _ | .createNewConnection _ | .shutdownPool _ => none

def Call.owing : Call → Option Callback
  | .callback cb _ | .executeAfterPrepare cb _ => some cb
  | _ => none

/-! ## State -/

inductive TimerKind
  | timeout
  | speculative
  deriving DecidableEq

structure Timer where
  kind : TimerKind
  pending : Bool
  deriving DecidableEq

structure PreparedStatement where
  queryId : Nat
  keyspace : Option String
  deriving DecidableEq

inductive Outcome
  | result (results : Option Results)
  | exception (exc : Exc)
  deriving DecidableEq

inductive FutureEvent
  | final (outcome : Outcome)
  | callback (fn : UserFn)
  | errback (fn : UserFn)
  deriving DecidableEq

structure ResponseFuture where
  timeout : Option Nat
  queryPlan : List Host
  preparedStatement : Option PreparedStatement
  callbacks : List UserFn
  errbacks : List UserFn
  currentHost : Option Host := none
  coordinatorHost : Option Host := none
  connection : Option ConnId := none
  reqId : Option Int := none
  event : Bool := false
  finalResult : Option (Option Results) := none
  finalException : Option Exc := none
  errors : Dict Host HostError := Dict.empty
  attemptedHosts : List Host := []
  queryRetries : Nat := 0
  pagingState : Option Nat := none
  isSchemaAgreed : Bool := true
  timer : Option Timer := none
  /-- What `_set_final_result` and `_set_final_exception` did since the page request started. -/
  history : List FutureEvent := []

structure Pool where
  kind : PoolKind
  host : Host
  connections : List ConnId
  shutdownOnError : Bool
  coreConns : Nat
  maxConns : Nat
  minReqs : Int
  maxReqs : Int
  isShutdown : Bool := false
  isReplacing : Bool := false
  trash : List ConnId := []
  openCount : Int := 0
  scheduledForCreation : Nat := 0

structure Session where
  conns : List (Connection Callback)
  pools : List Pool
  poolOf : Dict Host PoolId
  futures : List ResponseFuture
  calls : List Call
  preparedStatements : Dict Nat PreparedStatement
  protocolVersion : Nat
  maxInFlight : Nat
  /-- Which future borrowed which connection, each time `borrow_connection` counted it up. -/
  borrowed : List (FutureId × ConnId)
  returned : List (FutureId × ConnId)
  sends : Nat
  /-- The registrations after which the encoder or `push` raised. -/
  raisedSends : List Nat

inductive RetryDecision
  | retry
  | retryNextHost
  | rethrow
  | ignore
  deriving DecidableEq

structure Oracle where
  fault : Bool := false
  late : Bool := false
  isDown : Bool := false
  trashAllowed : Bool := false
  connected : Bool := true
  specDelay : Bool := false
  /-- The retry policy, `none` when it raises. -/
  decision : Option RetryDecision := some .rethrow
  rowFactory : Results → Option Results := some
  /-- What `_set_keyspace_for_all_pools` comes to inside `_set_result`, when it calls back or raises on the spot. -/
  keyspaceSet : Option (Option Exc) := none
  keyspaceErrors : Bool := false
  schemaAgreed : Bool := true
  raises : UserFn → Bool := fun _ => false

end CqlDriver.Requests
