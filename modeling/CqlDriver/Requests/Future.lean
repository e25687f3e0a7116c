import CqlDriver.Requests.Pools

/-!
# `ResponseFuture`

The methods, each as a function on the session, and the step of the whole session. Messages,
metrics, traces, warnings and payloads are left out, and so is the metadata of prepared statements.
-/

namespace CqlDriver.Requests

open Lib Conn ResponseFuture

/-! ## Completion -/

/-- Those called, up to the first that raises. -/
def calledUntilRaise (raises : UserFn → Bool) : List UserFn → List UserFn
  | [] => []
  | fn :: rest => if raises fn then [fn] else fn :: calledUntilRaise raises rest

namespace ResponseFuture

/-- A canceled timer stays in `_timer`. -/
def cancelTimer (fut : ResponseFuture) : ResponseFuture :=
  { fut with timer := fut.timer.map fun t => { t with pending := false } }

/-- `_set_final_result` or `_set_final_exception`. -/
def finish (raises : UserFn → Bool) (outcome : Outcome) (fut : ResponseFuture) : ResponseFuture :=
  let fut := { fut.cancelTimer with event := true }
  match outcome with
  | .result results =>
    { fut with
      finalResult := some results
      history := fut.history ++ .final outcome :: (calledUntilRaise raises fut.callbacks).map .callback }
  | .exception exc =>
    { fut with
      finalException := some exc
      history := fut.history ++ .final outcome :: (calledUntilRaise raises fut.errbacks).map .errback }

/-- Whether one that `finish` calls raises. -/
def finishRaises (raises : UserFn → Bool) (outcome : Outcome) (fut : ResponseFuture) : Bool :=
  match outcome with
  | .result _ => fut.callbacks.any raises
  | .exception _ => fut.errbacks.any raises

/-- Only where `_timer` is `None`. -/
def startTimer (o : Oracle) (fut : ResponseFuture) : ResponseFuture :=
  match fut.timer with
  | some _ => fut
  | none =>
    if o.specDelay then { fut with timer := some ⟨.speculative, true⟩ }
    else if fut.timeout.isSome then { fut with timer := some ⟨.timeout, true⟩ }
    else fut

def timeoutErrors (fut : ResponseFuture) : TimeoutErrors :=
  if fut.errors.entries ≠ [] then .hosts fut.errors.entries
  else if fut.isSchemaAgreed then
    .client fut.currentHost "Client request timeout. See Session.execute[_async](timeout)"
  else
    .schemaAgreement ("Request timed out while waiting for schema agreement. See Session.execute[_async](timeout) " ++
      "and Cluster.max_schema_agreement_wait.")

end ResponseFuture

namespace Session

def addError (s : Session) (f : FutureId) (host : Host) (e : HostError) : Session :=
  s.modFuture f fun fut => { fut with errors := fut.errors.set host e }

def finish (o : Oracle) (s : Session) (f : FutureId) (outcome : Outcome) : Session :=
  s.modFuture f (ResponseFuture.finish o.raises outcome)

/-- `finish` inside the `try` of `_set_result`. -/
def settle (o : Oracle) (s : Session) (f : FutureId) (outcome : Outcome) : Session :=
  s.modFuture f fun fut =>
    if fut.finishRaises o.raises outcome then
      (fut.finish o.raises outcome).finish o.raises (.exception .raised)
    else fut.finish o.raises outcome

/-! ## `_query` -/

/-- `_set_result` or `_execute_after_prepare`, bound to a connection. -/
def boundCallback (s : Session) (f : FutureId) (host : Host) (p : PoolId) (c : ConnId) :
    Option Callback → Callback
  | none => { handler := .setResult, future := f, host, connection := c, pool := p, serial := s.sends }
  | some cb => { cb with handler := .executeAfterPrepare, future := f, serial := s.sends }

/-- `_query`, once a connection is chosen. -/
def queryConn (o : Oracle) (s : Session) (f : FutureId) (host : Host) (p : PoolId) (pool : Pool) (c : ConnId)
    (again : Option Callback) : Session × Option Int :=
  match s.conns[c]? with
  | none => (s.addError f host .noConnectionsAvailable, none)
  | some conn =>
    match queryOn pool.kind conn (s.boundCallback f host p c again) o.fault with
    | (_, .full) => (s.addError f host .noConnectionsAvailable, none)
    | (conn, .exhausted) =>
      -- `connection` is still `None`, so nothing is returned.
      let s := { s with conns := s.conns.set c conn, borrowed := (f, c) :: s.borrowed }
      (s.addError f host .assertionError, none)
    | (conn, .sent requestId) =>
      let s := { s with conns := s.conns.set c conn, borrowed := (f, c) :: s.borrowed, sends := s.sends + 1 }
      let s := s.maybeSpawnNewConnection p pool c
      (s.modFuture f fun fut =>
        { fut with connection := some c, attemptedHosts := fut.attemptedHosts ++ [host] }, some requestId)
    | (conn, .failed result) =>
      let s := { s with
        conns := s.conns.set c conn, borrowed := (f, c) :: s.borrowed, sends := s.sends + 1,
        raisedSends := if result = SendResult.raised then s.sends :: s.raisedSends else s.raisedSends }
      let s := s.maybeSpawnNewConnection p pool c
      let s := s.modFuture f fun fut => { fut with connection := some c }
      let s := s.addError f host (if result = SendResult.raised then .sendError else .connectionShutdown)
      (s.returnConnection o f p c, none)

/-- The id of the request, unless it fails. -/
def query (o : Oracle) (s : Session) (f : FutureId) (host : Host) (again : Option Callback) :
    Session × Option Int :=
  match s.poolOf.get? host with
  | none => (s.addError f host (.connectionException "Host has been marked down or removed"), none)
  | some p =>
    match s.pools[p]? with
    | none => (s.addError f host (.connectionException "Host has been marked down or removed"), none)
    | some pool =>
      if pool.isShutdown then (s.addError f host (.connectionException "Pool is shutdown"), none)
      else
        let s := s.modFuture f fun fut => { fut with currentHost := some host }
        match s.pick pool with
        | none => ((s.openCore p pool).addError f host .noConnectionsAvailable, none)
        | some c => s.queryConn o f host p pool c again

/-! ## Timers and the loop over the hosts -/

def openPoolOf (s : Session) (host : Option Host) : Option PoolId := do
  let p ← s.poolOf.get? (← host)
  let pool ← s.pools[p]?
  if pool.isShutdown then none else some p

/-- With whether it raises. -/
def onTimeout (o : Oracle) (s : Session) (f : FutureId) : Session × Bool :=
  match s.futures[f]? with
  | none => (s, false)
  | some fut =>
    match fut.connection with
    -- `None` has no `_requests`.
    | none => (s, true)
    | some c =>
      match s.conns[c]?, fut.reqId with
      | some conn, some reqId =>
        let pool := s.openPoolOf fut.currentHost
        match timeoutRequest conn reqId pool.isSome with
        | none => (s, false)
        | some conn =>
          let s := { s with conns := s.conns.set c conn }
          let s := match pool with
            | some p => s.returnConnection o f p c
            | none => s
          let outcome : Outcome := .exception (.operationTimedOut fut.timeoutErrors fut.currentHost)
          (s.finish o f outcome, fut.finishRaises o.raises outcome)
      | _, _ => (s, false)

/-- One round of the loop. The caller of `send_request(error_no_hosts=False)` goes on with
`_start_timer`. -/
def sendRequest (o : Oracle) (s : Session) (f : FutureId) (errorNoHosts : Bool) : Session :=
  match s.futures[f]? with
  | none => s
  | some fut =>
    match fut.queryPlan with
    | [] =>
      if errorNoHosts then
        s.finish o f (.exception (.noHostAvailable "Unable to complete the operation against any hosts"
          fut.errors.entries))
      else s.modFuture f (startTimer o)
    | host :: rest =>
      match (s.modFuture f fun fut => { fut with queryPlan := rest }).query o f host none with
      | (s', some requestId) => s'.submit (.requestSent f requestId errorNoHosts)
      | (s', none) => s'.submit (.sendFailed f errorNoHosts)

/-- `_query` has failed on a host. -/
def sendFailed (o : Oracle) (s : Session) (f : FutureId) (errorNoHosts : Bool) : Session :=
  match s.futures[f]? with
  | none => s
  | some fut =>
    if fut.timeout.isSome && o.late then
      match s.onTimeout o f with
      | (s, raised) => if errorNoHosts || raised then s else s.modFuture f (startTimer o)
    else s.sendRequest o f errorNoHosts

/-- Up to its `send_request`. -/
def onSpeculativeExecute (o : Oracle) (s : Session) (f : FutureId) : Session :=
  match s.futures[f]? with
  | none => s
  | some fut =>
    let s := s.modFuture f fun fut => { fut with timer := none }
    if fut.event then s
    else if fut.timeout.isSome && o.late then (s.onTimeout o f).1
    else s.submit (.sendRequest f false)

/-- A timer that is due. -/
def fireTimer (o : Oracle) (s : Session) (f : FutureId) : Session :=
  match s.futures[f]? with
  | none => s
  | some fut =>
    match fut.timer with
    | some ⟨.timeout, true⟩ => ((s.modFuture f cancelTimer).onTimeout o f).1
    | some ⟨.speculative, true⟩ => s.onSpeculativeExecute o f
    | _ => s

/-! ## Responses -/

/-- What the chain of `isinstance` tests of `_set_result` comes to. -/
inductive Verdict
  | final (outcome : Outcome)
  | setKeyspace
  | schemaChange
  | retry (reuse : Bool)
  | reprepare
  | connectionError
  | unexpected

/-- The statement may be prepared again, unless its keyspace is another one. -/
def keyspaceVerdict (s : Session) (fut : ResponseFuture) (statement : PreparedStatement) : Verdict :=
  let currentKeyspace := (fut.connection.bind fun c => s.conns[c]?).bind Connection.keyspace
  if s.protocolVersion < 5 ∧ statement.keyspace.isSome ∧ currentKeyspace ≠ statement.keyspace then
    .final (.exception .valueError)
  else .reprepare

def preparedQueryNotFoundVerdict (s : Session) (fut : ResponseFuture) (queryId : Nat) : Verdict :=
  match fut.preparedStatement with
  | some statement =>
    if statement.queryId = queryId then
      s.keyspaceVerdict fut ((s.preparedStatements.get? queryId).getD statement)
    else .final (.exception .assertionError)
  | none =>
    match s.preparedStatements.get? queryId with
    | some statement => s.keyspaceVerdict fut statement
    -- The log call fails before the response is set: `bytes` has no `encode`.
    | none => .final (.exception .attributeError)

/-- The policy's decision is the oracle's. -/
def errorVerdict (o : Oracle) (s : Session) (fut : ResponseFuture) (e : ErrorMessage) : Verdict :=
  match e with
  | .readTimeout | .writeTimeout | .unavailable =>
    match o.decision with
    | some .retry => .retry true
    | some .retryNextHost => .retry false
    | some .rethrow => .final (.exception (.host (.server e)))
    | some .ignore => .final (.result none)
    | none => .final (.exception .raised)
  | .overloaded | .isBootstrapping => .retry false
  | .preparedQueryNotFound queryId => s.preparedQueryNotFoundVerdict fut queryId
  | .other _ => .final (.exception (.host (.server e)))

def verdict (o : Oracle) (s : Session) (fut : ResponseFuture) : Response → Verdict
  | .rows results _ =>
    match o.rowFactory results with
    | some results => .final (.result (some results))
    | none => .final (.exception .raised)
  | .result results => .final (.result results)
  | .prepared results => .final (.result (some results))
  | .setKeyspace =>
    match o.keyspaceSet with
    | none => .setKeyspace
    | some none => .final (.result none)
    | some (some exc) => .final (.exception exc)
  | .schemaChange => .schemaChange
  | .error e => s.errorVerdict o fut e
  | .connectionShutdown => .retry false
  | .connectionException => .connectionError
  | .exception => .final (.exception .response)
  | .unknown => .unexpected

/-- What the retry policy is asked about. -/
def policyError : Response → Option ErrorMessage
  | .error .readTimeout => some .readTimeout
  | .error .writeTimeout => some .writeTimeout
  | .error .unavailable => some .unavailable
  | _ => none

/-- What `_set_result` sets on its way. -/
def noteResponse (o : Oracle) (response : Response) (fut : ResponseFuture) : ResponseFuture :=
  match response with
  | .rows _ pagingState => { fut with pagingState }
  | .schemaChange => { fut with isSchemaAgreed := false }
  | response =>
    if (policyError response).isSome ∧ (o.decision = some .retry ∨ o.decision = some .retryNextHost) then
      { fut with queryRetries := fut.queryRetries + 1 }
    else fut

def noteStatement (s : Session) (fut : ResponseFuture) : Response → Session
  | .error (.preparedQueryNotFound queryId) =>
    match fut.preparedStatement, s.preparedStatements.get? queryId with
    | some statement, none =>
      if statement.queryId = queryId then
        { s with preparedStatements := s.preparedStatements.set queryId statement }
      else s
    | _, _ => s
  | _ => s

def retry (s : Session) (f : FutureId) (reuse : Bool) (host : Host) : Session :=
  match s.futures[f]? with
  | none => s
  | some fut => if fut.finalException.isSome then s else s.submit (.retryTask f reuse host)

/-- `_connection.defunct`. -/
def defunctOwn (s : Session) (fut : ResponseFuture) : Session :=
  match fut.connection with
  | none => s
  | some c => s.defunctConn c

def setResult (o : Oracle) (s : Session) (cb : Callback) (response : Response) : Session :=
  match s.futures[cb.future]? with
  | none => s
  | some fut =>
    let s' := (s.noteStatement fut response).modFuture cb.future (noteResponse o response)
    match s.verdict o fut response with
    | .final outcome =>
      let s' := s'.settle o cb.future outcome
      match policyError response with
      | some e =>
        if o.decision.isSome && !fut.finishRaises o.raises outcome then s'.addError cb.future cb.host (.server e)
        else s'
      | none => s'
    | .setKeyspace => s'.submit (.setKeyspaceCompleted cb.future)
    | .schemaChange => s'.submit (.refreshSchema cb.future)
    | .retry reuse =>
      let s' := s'.retry cb.future reuse cb.host
      match policyError response with
      | some e => s'.addError cb.future cb.host (.server e)
      | none => s'
    | .reprepare => s'.submit (.reprepare cb)
    | .connectionError => (s'.defunctOwn fut).submit (.retry cb.future false cb.host)
    | .unexpected =>
      ((s'.modFuture cb.future cancelTimer).defunctOwn fut).submit
        (.setFinalException cb.future (.host (.connectionException "Got unexpected message: %r")))

/-- Where `_query` fails, the next hosts follow. -/
def queryOrSend (o : Oracle) (s : Session) (f : FutureId) (host : Host) (again : Option Callback) : Session :=
  match s.query o f host again with
  | (s, some _) => s
  | (s, none) => s.submit (.sendRequest f true)

def retryTask (o : Oracle) (s : Session) (f : FutureId) (reuse : Bool) (host : Host) : Session :=
  match s.futures[f]? with
  | none => s
  | some fut =>
    if fut.finalException.isSome then s
    else if reuse then s.queryOrSend o f host none
    else s.submit (.sendRequest f true)

def reprepare (o : Oracle) (s : Session) (cb : Callback) : Session := s.queryOrSend o cb.future cb.host (some cb)

/-- The connection has been returned. -/
def afterPrepare (o : Oracle) (s : Session) (cb : Callback) (response : Response) : Session :=
  match s.futures[cb.future]? with
  | none => s
  | some fut =>
    if fut.finalException.isSome then s
    else
      match response with
      | .prepared _ => s.queryOrSend o cb.future cb.host none
      | .rows _ _ | .result _ | .setKeyspace | .schemaChange =>
        s.finish o cb.future (.exception (.host (.connectionException
          "Got unexpected response when preparing statement on host %s: %s")))
      | .error e => s.finish o cb.future (.exception (.host (.server e)))
      | .connectionException =>
        (s.addError cb.future cb.host (.connectionException "")).submit (.sendRequest cb.future true)
      | .connectionShutdown =>
        (s.addError cb.future cb.host .connectionShutdown).submit (.sendRequest cb.future true)
      | .exception | .unknown =>
        s.finish o cb.future (.exception (.host (.connectionException
          "Got unexpected response type when preparing statement on host %s: %s")))

/-! ## The step of a session -/

def runCall (o : Oracle) (s : Session) : Call → Session
  | .callback cb response =>
    match cb.handler with
    | .setResult =>
      let s := s.modFuture cb.future fun fut => { fut with coordinatorHost := some cb.host }
      (s.returnConnection o cb.future cb.pool cb.connection).submit (.setResult cb response)
    | .executeAfterPrepare => s.submit (.executeAfterPrepare cb response)
  | .executeAfterPrepare cb response =>
    (s.returnConnection o cb.future cb.pool cb.connection).submit (.afterPrepare cb response)
  | .setResult cb response => s.setResult o cb response
  | .afterPrepare cb response => s.afterPrepare o cb response
  | .sendRequest f errorNoHosts => s.sendRequest o f errorNoHosts
  | .requestSent f requestId errorNoHosts =>
    let s := s.modFuture f fun fut => { fut with reqId := some requestId }
    if errorNoHosts then s else s.modFuture f (startTimer o)
  | .sendFailed f errorNoHosts => s.sendFailed o f errorNoHosts
  | .retry f reuse host => s.retry f reuse host
  | .retryTask f reuse host => s.retryTask o f reuse host
  | .reprepare cb => s.reprepare o cb
  | .setFinalException f exc => s.settle o f (.exception exc)
  | .refreshSchema f =>
    (s.modFuture f fun fut => { fut with isSchemaAgreed := o.schemaAgreed }).finish o f (.result none)
  | .setKeyspaceCompleted f =>
    if o.keyspaceErrors then
      s.finish o f (.exception (.host (.connectionException "Failed to set keyspace on all hosts: %s")))
    else s.finish o f (.result none)
  | .replace p => s.replace o p
  | .createNewConnection p => s.createNewConnection o p
  | .shutdownPool p => s.shutdownPool p

/-- What the connection calls is submitted. -/
def processMsg (d : Decoding Callback Response Response) (s : Session) (c : ConnId) (frame : Frame) : Session :=
  match s.conns[c]? with
  | none => s
  | some conn =>
    let (conn, handled) := Conn.processMsg d conn frame
    let s := { s with conns := s.conns.set c conn }
    match handled with
    | .ignored | .pushed _ => s
    | .pushFailed _ => s.defunctConn c
    | .callback cb response => s.submit (.callback cb response)
    | .protocolError cb response => (s.defunctConn c).submit (.callback cb response)
    | .undecodable cb exc => (s.submit (.callback cb exc)).defunctConn c

/-- Up to its `send_request`. -/
def execute (o : Oracle) (s : Session) (timeout : Option Nat) (queryPlan : List Host)
    (preparedStatement : Option PreparedStatement) (callbacks errbacks : List UserFn) : Session :=
  let fut : ResponseFuture := { timeout, queryPlan, preparedStatement, callbacks, errbacks }
  { s with futures := s.futures ++ [fut.startTimer o] }.submit (.sendRequest s.futures.length true)

/-- With no page to fetch it raises. -/
def startFetchingNextPage (o : Oracle) (s : Session) (f : FutureId) (queryPlan : List Host) : Session :=
  match s.futures[f]? with
  | none => s
  | some fut =>
    if fut.pagingState.isSome then
      (s.modFuture f fun fut =>
        { fut with queryPlan, event := false, finalResult := none, finalException := none, history := [] }.startTimer
          o).submit (.sendRequest f true)
    else s

end Session

/-- What comes in any order. -/
inductive Act
  | execute (timeout : Option Nat) (queryPlan : List Host) (preparedStatement : Option PreparedStatement)
      (callbacks errbacks : List UserFn)
  | startFetchingNextPage (f : FutureId) (queryPlan : List Host)
  | call (index : Nat)
  | processMsg (c : ConnId) (frame : Frame)
  | timer (f : FutureId)
  | defunct (c : ConnId)
  | close (c : ConnId)
  | addOrRenewPool (pool : Pool) (n : Nat)
  | removePool (host : Host)
  | setKeyspace (c : ConnId) (keyspace : Option String)

/-- The oracle settles what is outside. -/
def step (d : Decoding Callback Response Response) (s : Session) (a : Oracle × Act) : Session :=
  match a.2 with
  | .execute timeout queryPlan preparedStatement callbacks errbacks =>
    s.execute a.1 timeout queryPlan preparedStatement callbacks errbacks
  | .startFetchingNextPage f queryPlan => s.startFetchingNextPage a.1 f queryPlan
  | .call index =>
    match s.calls[index]? with
    | none => s
    | some call => { s with calls := s.calls.eraseIdx index }.runCall a.1 call
  | .processMsg c frame => s.processMsg d c frame
  | .timer f => s.fireTimer a.1 f
  | .defunct c => s.defunctConn c
  | .close c => s.closeConn c
  | .addOrRenewPool pool n => s.addOrRenewPool pool n
  | .removePool host => s.removePool host
  | .setKeyspace c keyspace => s.modConn c fun conn => { conn with keyspace }

def Session.start (protocolVersion maxInFlight : Nat) (preparedStatements : Dict Nat PreparedStatement) : Session where
  conns := []
  pools := []
  poolOf := Dict.empty
  futures := []
  calls := []
  preparedStatements
  protocolVersion
  maxInFlight
  borrowed := []
  returned := []
  sends := 0
  raisedSends := []

/-! ## For fixed runs -/

def scripted (responses : List Response) : Decoding Callback Response Response where
  decode _ frame := .ok (responses.getD frame.opcode .unknown)
  decodePushed _ := .ok .unknown
  isProtocolException _ := false

def answer (c : ConnId) (stream : Int) (i : Nat) : Act := .processMsg c ⟨4, 0, stream, i, []⟩

/-- `a`, and then the oldest call `n` times. -/
def andCalls (a : Act) (n : Nat) (o : Oracle := {}) : List (Oracle × Act) := (o, a) :: List.replicate n ({}, .call 0)

def fixedPool (kind : PoolKind) (host : Host) : Pool where
  kind
  host
  connections := []
  shutdownOnError := false
  coreConns := 2
  maxConns := 2
  minReqs := 5
  maxReqs := 100

end CqlDriver.Requests
