import CqlDriver.Requests.Books

/-! # One client timeout -/

namespace CqlDriver.Requests

open Lib Conn Session

variable {c : ConnId} {cb : Callback} {conn conn' : Connection Callback} {poolOpen : Bool} {reqId : Int}
  {s s' : Session} {f : FutureId}

theorem count_timeout (hc : s.conns[c]? = some conn) (hget : conn.requests.get? reqId = some cb)
    (ht : timeoutRequest conn reqId poolOpen = some conn') (x : Callback) :
    ({ s with conns := s.conns.set c conn' } : Session).outstanding.count x + [cb].count x = s.outstanding.count x := by
  have hreq : conn'.requests = conn.requests.erase reqId := by rw [(timeoutRequest_eq_some ht).2]
  have h1 := (flatMap_set_perm (fun conn => conn.requests.values) conn' hc).count_eq x
  have h2 := (entries_perm hc).count_eq x
  have h3 := (Dict.values_of_get? hget).count_eq x
  rw [← List.singleton_append] at h3
  simp only [Session.outstanding, Session.entries, hreq, List.count_append] at h1 h2 h3 ⊢
  omega

theorem onTimeout_cases (o : Oracle) (s : Session) {fut : ResponseFuture} (hf : s.futures[f]? = some fut) :
    (s.onTimeout o f).1 = s ∧
        (∀ c conn reqId, fut.connection = some c → s.conns[c]? = some conn → fut.reqId = some reqId →
          conn.requests.get? reqId = none) ∨
      ∃ c conn reqId cb conn' s', fut.connection = some c ∧ s.conns[c]? = some conn ∧ fut.reqId = some reqId ∧
        conn.requests.get? reqId = some cb ∧
        timeoutRequest conn reqId (s.openPoolOf fut.currentHost).isSome = some conn' ∧
        (s.openPoolOf fut.currentHost = none ∧ s' = { s with conns := s.conns.set c conn' } ∨
          ∃ p, s.openPoolOf fut.currentHost = some p ∧
            s' = returnConnection o { s with conns := s.conns.set c conn' } f p c) ∧
        (s.onTimeout o f).1 = s'.finish o f (.exception (.operationTimedOut fut.timeoutErrors fut.currentHost)) := by
  unfold onTimeout
  simp only [hf]
  cases hc : fut.connection with
  | none => exact .inl ⟨rfl, fun c conn reqId h => by cases h⟩
  | some c =>
    cases hcn : s.conns[c]? with
    | none =>
      left
      refine ⟨by simp [hcn], fun c' conn reqId h h' => ?_⟩
      cases h
      rw [hcn] at h'
      cases h'
    | some conn =>
      cases hr : fut.reqId with
      | none => exact .inl ⟨by simp, fun c conn reqId _ _ h => by cases h⟩
      | some reqId =>
        simp only [hcn]
        cases ht : timeoutRequest conn reqId (s.openPoolOf fut.currentHost).isSome with
        | none =>
          left
          refine ⟨rfl, fun c' conn' reqId' h h' h'' => ?_⟩
          cases h
          cases h''
          rw [hcn] at h'
          cases h'
          rw [Dict.get?_eq_none, ← Dict.pop_eq_none]
          simpa [timeoutRequest] using ht
        | some conn' =>
          right
          obtain ⟨hk, -⟩ := timeoutRequest_eq_some ht
          obtain ⟨cb, hcb⟩ := Option.isSome_iff_exists.mp ((Dict.get?_isSome _ _).mpr hk)
          refine ⟨c, conn, reqId, cb, conn', _, rfl, hcn, rfl, hcb, ht, ?_, rfl⟩
          cases s.openPoolOf fut.currentHost with
          | none => exact .inl ⟨rfl, rfl⟩
          | some p => exact .inr ⟨p, rfl, rfl⟩

theorem outstanding_countedDown (s : Session) (f : FutureId) (c : ConnId) :
    (s.countedDown f c).outstanding = s.outstanding := by
  unfold Session.outstanding
  rw [countedDown_entries]
  rfl

/-! ## What a timeout takes out -/

def TimedOut (s : Session) (f : FutureId) : Prop :=
  ∃ fut errors lastHost, s.futures[f]? = some fut ∧ fut.event = true ∧
    fut.finalException = some (.operationTimedOut errors lastHost)

/-- One entry has left the tables of the connections, and `f` registered it. -/
def OnlyOwnRemoved (s s' : Session) (f : FutureId) : Prop :=
  ∃ c id cb, s.Registered c id cb ∧ cb.future = f ∧
    ∀ c' id' cb', s'.Registered c' id' cb' ↔ s.Registered c' id' cb' ∧ ¬ (c' = c ∧ id' = id)

namespace Session

/-- `_connection` and `_req_id` name a request of the future. -/
def namesOwn (s : Session) (f : FutureId) (fut : ResponseFuture) : Bool :=
  match fut.connection.bind fun c => s.conns[c]?, fut.reqId with
  | some conn, some reqId => (conn.requests.get? reqId).any fun cb => cb.future == f
  | _, _ => false

/-- If the connection goes back to a pool, nothing is closed that has other requests. -/
def returnsOpen (s : Session) (fut : ResponseFuture) : Bool :=
  match s.openPoolOf fut.currentHost, fut.connection.bind fun c => s.conns[c]? with
  | some _, some conn =>
    !(conn.isDefunct || conn.isClosed) && (conn.inFlight ≠ 1 || conn.requests.values.length = 1)
  | _, _ => true

end Session

variable {c' : ConnId} {id : Int} {o : Oracle} {p : PoolId} {fut : ResponseFuture}

theorem registered_closeConn (h : s.Registered c' id cb) (hne : c' ≠ c) : (s.closeConn c).Registered c' id cb := by
  unfold closeConn stopConn
  split
  · exact h
  rename_i hcn
  refine (registered_set_iff hcn rfl).mpr ?_
  rwa [if_neg hne]

theorem registered_returnConnection (hcn : s.conns[c]? = some conn) (hopen : (conn.isDefunct || conn.isClosed) = false)
    (hlast : conn.inFlight = 1 → conn.requests.values = []) (h : s.Registered c' id cb) :
    (s.returnConnection o f p c).Registered c' id cb := by
  have hs : (s.countedDown f c).Registered c' id cb := countedDown_registered.mpr h
  -- A connection that is closed here has no request.
  have hclose : ∀ s' : Session, s'.Registered c' id cb → (giveBack conn).inFlight = 0 →
      (s'.closeConn c).Registered c' id cb := by
    intro s' hs' hz
    refine registered_closeConn hs' ?_
    rintro rfl
    obtain ⟨x, hx, hget⟩ := h
    rw [hcn] at hx
    cases hx
    have hmem := (Dict.values_of_get? hget).mem_iff.mpr List.mem_cons_self
    rw [hlast (by simp only [giveBack] at hz; omega)] at hmem
    cases hmem
  have hget : (s.countedDown f c).conns[c]? = some (giveBack conn) := by simp [Session.countedDown, modConn, hcn]
  unfold returnConnection
  dsimp only
  split
  · rename_i hc₁
    cases hget.symm.trans hc₁
    split
    · rw [returnHostConnection, if_neg (by simpa [giveBack] using hopen)]
      exact hs
    rw [returnToPool, if_neg (by simpa [giveBack] using hopen)]
    split_ifs with htrash hz hmeasure
    · exact hclose _ hs hz
    · exact hs
    · unfold maybeTrashConnection
      dsimp only
      split_ifs with hmem hz
      · exact hclose _ hs hz
      · exact hs
      · exact hs
    · exact hs
  · exact hs

theorem onlyOwnRemoved_pop (hcn : s.conns[c]? = some conn) (hget : conn.requests.get? reqId = some cb)
    (hown : cb.future = f) (ht : timeoutRequest conn reqId poolOpen = some conn')
    (h : ∀ c' id' cb', s'.Registered c' id' cb' ↔
      ({ s with conns := s.conns.set c conn' } : Session).Registered c' id' cb') : OnlyOwnRemoved s s' f := by
  refine ⟨c, reqId, cb, ⟨conn, hcn, hget⟩, hown, fun c' id' cb' => ?_⟩
  rw [h, registered_set_iff hcn rfl, (timeoutRequest_eq_some ht).2, Dict.get?_erase]
  by_cases hc : c' = c
  · subst hc
    by_cases hid : id' = reqId
    · simp [hid]
    · simp [hid, Registered, hcn]
  · simp [hc]

/-- The return of the connection takes nothing out. -/
theorem registered_of_returnsOpen (hc : fut.connection = some c) (hcn : s.conns[c]? = some conn)
    (hget : conn.requests.get? reqId = some cb) (ht : timeoutRequest conn reqId poolOpen = some conn')
    (hopen : s.returnsOpen fut = true)
    (hup : s.openPoolOf fut.currentHost = none ∧ s' = { s with conns := s.conns.set c conn' } ∨
      ∃ p, s.openPoolOf fut.currentHost = some p ∧ s' = returnConnection o { s with conns := s.conns.set c conn' } f p c)
    (c' : ConnId) (id : Int) (x : Callback) :
    s'.Registered c' id x ↔ ({ s with conns := s.conns.set c conn' } : Session).Registered c' id x := by
  rcases hup with ⟨-, rfl⟩ | ⟨p, hp, rfl⟩
  · rfl
  have hreq := (timeoutRequest_eq_some ht).2
  have hup := upkeep_returnConnection o { s with conns := s.conns.set c conn' } f p c
  refine ⟨fun h => countedDown_registered.mp (hup.registered _ _ _ h), ?_⟩
  simp only [returnsOpen, hp, hc, Option.bind_some, hcn, Bool.and_eq_true, Bool.not_eq_true', Bool.or_eq_true,
    decide_eq_true_eq] at hopen
  have hcn' : (s.conns.set c conn')[c]? = some conn' := by simp [(List.getElem?_eq_some_iff.mp hcn).1]
  refine registered_returnConnection hcn' ?_ ?_
  · rw [hreq]
    exact hopen.1
  intro hone
  rw [hreq] at hone ⊢
  have hlen := (Dict.values_of_get? hget).length_eq
  rw [hopen.2.resolve_left (not_not_intro hone), List.length_cons] at hlen
  exact List.eq_nil_of_length_eq_zero (by simpa using hlen.symm)

theorem timedOut_finish {errs : TimeoutErrors} {lastHost : Option Host} (hf : f < s.futures.length) :
    TimedOut (s.finish o f (.exception (.operationTimedOut errs lastHost))) f := by
  have hget := List.getElem?_eq_getElem hf
  refine ⟨s.futures[f].finish o.raises (.exception _), errs, lastHost, ?_, rfl, rfl⟩
  simp [Session.finish, modFuture, hget]

def unanswered : Session :=
  run (step (scripted [])) (Session.start 4 2 Dict.empty)
    (andCalls (.addOrRenewPool (fixedPool .hostConnection 1) 1) 0 ++ andCalls (.execute (some 10) [0, 1] none [] []) 3)

/-- `_retry_task` sends with a new id and leaves `_req_id` as it is. -/
def retriedOnSameHost : Session :=
  run (step (scripted [.error .readTimeout])) (Session.start 4 2 Dict.empty)
    [({}, .addOrRenewPool (fixedPool .hostConnection 0) 1), ({}, .execute (some 10) [0] none [] []), ({}, .call 0),
      ({}, .call 0), ({}, answer 0 0 0), ({}, .call 0), ({ decision := some .retry }, .call 0), ({}, .call 0)]

def idTakenAgain : Session :=
  run (step (scripted [])) retriedOnSameHost [({}, .execute none [0] none [] []), ({}, .call 0)]

end CqlDriver.Requests
