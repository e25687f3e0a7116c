import CqlDriver.Requests.Upkeep

/-! # What a `_query` can do -/

namespace CqlDriver.Requests

open Lib Conn

namespace Session

/-- The host's open pool, and the connection a borrow turns to. -/
def borrowsFrom (s : Session) (host : Host) : Option (PoolId × Pool × ConnId) := do
  let p ← s.poolOf.get? host
  let pool ← s.pools[p]?
  if pool.isShutdown then none
  else
    let c ← s.pick pool
    return (p, pool, c)

def lend (s : Session) (f : FutureId) (c : ConnId) (conn : Connection Callback) : Session :=
  { s with conns := s.conns.set c conn, borrowed := (f, c) :: s.borrowed }

def lendAndSend (s : Session) (f : FutureId) (c : ConnId) (conn : Connection Callback) (raised : Bool) : Session :=
  { (s.lend f c conn).modFuture f fun fut => { fut with connection := some c } with
    sends := s.sends + 1
    raisedSends := if raised then s.sends :: s.raisedSends else s.raisedSends }

end Session

open Session

/-- `cb` registered on `conn'`, which `get_request_id` left. -/
def registerOn (conn conn' : Connection Callback) (requestId : Int) (cb : Callback) : Connection Callback :=
  { conn' with inFlight := conn.inFlight + 1, requests := conn'.requests.set requestId cb }

inductive QueryOutcome (o : Oracle) (s : Session) (f : FutureId) (c : ConnId) (conn : Connection Callback)
    (kind : PoolKind) (cb : Callback) (s' : Session) : Option Int → Prop
  | full (h : Upkeep s s') : QueryOutcome o s f c conn kind cb s' none
  | exhausted (hroom : hasRoom kind conn = true) (hid : getRequestId conn = none)
      (h : Upkeep (s.lend f c { conn with inFlight := conn.inFlight + 1 }) s') :
      QueryOutcome o s f c conn kind cb s' none
  | shutdown (requestId : Int) (conn' : Connection Callback) (hid : getRequestId conn = some (requestId, conn'))
      (h : Upkeep ((s.lendAndSend f c { conn' with inFlight := conn.inFlight + 1 } false).countedDown f c) s') :
      QueryOutcome o s f c conn kind cb s' none
  | raised (hroom : hasRoom kind conn = true) (requestId : Int) (conn' : Connection Callback)
      (hid : getRequestId conn = some (requestId, conn'))
      (h : Upkeep ((s.lendAndSend f c (registerOn conn conn' requestId cb) true).countedDown f c) s') :
      QueryOutcome o s f c conn kind cb s' none
  | sent (hroom : hasRoom kind conn = true) (requestId : Int) (conn' : Connection Callback)
      (hid : getRequestId conn = some (requestId, conn'))
      (h : Upkeep (s.lendAndSend f c (registerOn conn conn' requestId cb) false) s') :
      QueryOutcome o s f c conn kind cb s' (some requestId)

theorem boundCallback_future (s : Session) (f : FutureId) (host : Host) (p : PoolId) (c : ConnId)
    (ag : Option Callback) : (s.boundCallback f host p c ag).future = f := by
  cases ag <;> rfl

theorem boundCallback_serial (s : Session) (f : FutureId) (host : Host) (p : PoolId) (c : ConnId)
    (ag : Option Callback) : (s.boundCallback f host p c ag).serial = s.sends := by
  cases ag <;> rfl

theorem upkeep_addError (s : Session) (f : FutureId) (host : Host) (e : HostError) : Upkeep s (s.addError f host e) :=
  upkeep_modFuture s f _ fun _ => rfl

variable {f : FutureId} {g : ResponseFuture → ResponseFuture} {p : PoolId} {pool : Pool}

theorem modFuture_modFuture {s : Session} (h : ResponseFuture → ResponseFuture) :
    (s.modFuture f g).modFuture f h = s.modFuture f (h ∘ g) := by
  unfold modFuture
  rw [List.modify_modify_eq]

theorem maybeSpawnNewConnection_modFuture {s : Session} {c : ConnId} :
    (s.maybeSpawnNewConnection p pool c).modFuture f g = (s.modFuture f g).maybeSpawnNewConnection p pool c := by
  have hf : (s.modFuture f g).inFlightOf c = s.inFlightOf c := rfl
  unfold maybeSpawnNewConnection
  rw [hf]
  split
  · rfl
  split
  · split
    · rfl
    · split <;> rfl
  · rfl

variable {c : ConnId} {conn : Connection Callback} {s s' : Session}

variable {host : Host} {o : Oracle}

theorem upkeep_giveUp {s : Session} {e : HostError} (hc : c < s.conns.length) :
    Upkeep (s.countedDown f c) (((s.maybeSpawnNewConnection p pool c).addError f host e).returnConnection o f p c) := by
  have hs : Upkeep s (s.maybeSpawnNewConnection p pool c) := (PoolWork.refl.maybeSpawnNewConnection p pool c).upkeep
  have hup := hs.trans (upkeep_addError _ f host e)
  exact (hup.countedDown f hc).trans (upkeep_returnConnection o _ f p c)

theorem upkeep_sent {s : Session} {c : ConnId} {conn : Connection Callback} : Upkeep (s.lendAndSend f c conn false)
      ((({ s.lend f c conn with sends := s.sends + 1 } : Session).maybeSpawnNewConnection p pool c).modFuture f fun fut =>
        { fut with connection := some c, attemptedHosts := fut.attemptedHosts ++ [host] }) := by
  have hs : s.lendAndSend f c conn false = ({ s.lend f c conn with sends := s.sends + 1 } : Session).modFuture f
      fun fut => { fut with connection := some c } := rfl
  have hh : Upkeep ((s.lendAndSend f c conn false).maybeSpawnNewConnection p pool c)
      (((s.lendAndSend f c conn false).maybeSpawnNewConnection p pool c).modFuture f fun fut =>
        { fut with attemptedHosts := fut.attemptedHosts ++ [host] }) := upkeep_modFuture _ f _ fun _ => rfl
  have hup := (PoolWork.refl.maybeSpawnNewConnection p pool c).upkeep.trans hh
  rw [hs, ← maybeSpawnNewConnection_modFuture, modFuture_modFuture] at hup
  exact hup

theorem queryConn_cases {s : Session} {c : ConnId} {ag : Option Callback} (hcn : s.conns[c]? = some conn) :
    QueryOutcome o s f c conn pool.kind (s.boundCallback f host p c ag)
      (s.queryConn o f host p pool c ag).1 (s.queryConn o f host p pool c ag).2 := by
  have hc : ∀ conn' raised, c < (s.lendAndSend f c conn' raised).conns.length := by
    intro conn' raised
    obtain ⟨hc, -⟩ := List.getElem?_eq_some_iff.mp hcn
    simpa [lendAndSend, lend, modFuture] using hc
  unfold queryConn
  simp only [hcn]
  rcases queryOn_cases pool.kind conn _ o.fault with
    ⟨hq, -⟩ | ⟨hq, hroom, hid⟩ | ⟨requestId, conn', hroom, hid, ⟨hq, -⟩ | ⟨hq, -⟩⟩ <;> rw [hq]
  · exact .full (upkeep_addError ..)
  · exact .exhausted hroom hid (upkeep_addError ..)
  · simp only [maybeSpawnNewConnection_modFuture]
    exact .shutdown requestId conn' hid (upkeep_giveUp (hc _ false))
  cases o.fault with
  | true =>
    simp only [maybeSpawnNewConnection_modFuture]
    exact .raised hroom requestId conn' hid (upkeep_giveUp (hc _ true))
  | false =>
    exact .sent hroom requestId conn' hid upkeep_sent

theorem QueryOutcome.of_currentHost {kind : PoolKind} {cb : Callback} {r : Option Int} {host : Host}
    (h : QueryOutcome o (s.modFuture f fun fut => { fut with currentHost := some host }) f c conn kind cb s' r) :
    QueryOutcome o s f c conn kind cb s' r := by
  have hs : ∀ s, Upkeep s (s.modFuture f fun fut => { fut with currentHost := some host }) := fun s =>
    upkeep_modFuture s f _ fun _ => rfl
  have hsn : ∀ conn raised, (s.modFuture f fun fut => { fut with currentHost := some host }).lendAndSend f c conn
      raised = (s.lendAndSend f c conn raised).modFuture f fun fut => { fut with currentHost := some host } := by
    intro conn raised
    unfold lendAndSend lend modFuture
    simp only [List.modify_modify_eq]
    rfl
  cases h with
  | full h => exact .full ((hs s).trans h)
  | exhausted hroom hid h => exact .exhausted hroom hid ((hs _).trans h)
  | shutdown rid conn' hid h =>
    rw [hsn] at h
    exact .shutdown rid conn' hid ((hs _).trans h)
  | raised hroom rid conn' hid h =>
    rw [hsn] at h
    exact .raised hroom rid conn' hid ((hs _).trans h)
  | sent hroom rid conn' hid h =>
    rw [hsn] at h
    exact .sent hroom rid conn' hid ((hs _).trans h)

theorem pick_congr (h : s'.conns = s.conns) (pool : Pool) : s'.pick pool = s.pick pool := by
  have hf : ∀ c, s'.inFlightOf c = s.inFlightOf c := by
    intro c
    unfold inFlightOf
    rw [h]
  have hb : ∀ l, s'.leastBusy l = s.leastBusy l := by
    intro l
    induction l with
    | nil => rfl
    | cons c l ih =>
      unfold leastBusy
      rw [ih]
      cases s.leastBusy l with
      | none => rfl
      | some c' => simp only [hf]
  unfold pick
  rw [hb]

theorem query_cases (o : Oracle) (s : Session) (f : FutureId) (host : Host) (ag : Option Callback) :
    (s.query o f host ag).2 = none ∧ Upkeep s (s.query o f host ag).1 ∨
      ∃ p pool c conn, s.borrowsFrom host = some (p, pool, c) ∧ s.conns[c]? = some conn ∧
        QueryOutcome o s f c conn pool.kind (s.boundCallback f host p c ag) (s.query o f host ag).1
          (s.query o f host ag).2 := by
  unfold query
  cases hp : s.poolOf.get? host with
  | none => exact .inl ⟨rfl, upkeep_addError ..⟩
  | some p =>
    simp only
    cases hpl : s.pools[p]? with
    | none => exact .inl ⟨rfl, upkeep_addError ..⟩
    | some pool =>
      simp only
      cases hd : pool.isShutdown with
      | true => exact .inl ⟨rfl, upkeep_addError ..⟩
      | false =>
        have hb : Upkeep s (s.modFuture f fun fut => { fut with currentHost := some host }) :=
          upkeep_modFuture s f _ fun _ => rfl
        have hconns : (s.modFuture f fun fut => { fut with currentHost := some host }).conns = s.conns := rfl
        rw [pick_congr hconns]
        cases hc : s.pick pool with
        | none => exact .inl ⟨rfl, (hb.trans (PoolWork.refl.openCore p pool).upkeep).trans (upkeep_addError ..)⟩
        | some c =>
          simp only
          cases hcn : s.conns[c]? with
          | none =>
            left
            unfold queryConn
            rw [hconns, hcn]
            exact ⟨rfl, hb.trans (upkeep_addError ..)⟩
          | some conn =>
            right
            refine ⟨p, pool, c, conn, ?_, hcn, ?_⟩
            · simp [borrowsFrom, hp, hpl, hd, hc]
            rw [← hconns] at hcn
            exact (queryConn_cases hcn).of_currentHost

end CqlDriver.Requests
