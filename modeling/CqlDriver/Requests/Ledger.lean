import CqlDriver.Requests.Timeout

/-! # What is borrowed is returned -/

namespace CqlDriver.Requests

open Lib Conn Session List

/-! ## Specification -/

/-- The callback has to return `c` for `f`. -/
def Callback.owes (raisedSends : List Nat) (f : FutureId) (c : ConnId) (cb : Callback) : Bool :=
  cb.future = f ∧ cb.connection = c ∧ cb.serial ∉ raisedSends

namespace Session

def owed (s : Session) (f : FutureId) (c : ConnId) : Nat := s.outstanding.countP (Callback.owes s.raisedSends f c)

def Answered (s : Session) (f : FutureId) : Prop := ∀ cb ∈ s.outstanding, cb.future = f → cb.serial ∈ s.raisedSends

instance (s : Session) (f : FutureId) : Decidable (s.Answered f) :=
  inferInstanceAs (Decidable (∀ cb ∈ s.outstanding, cb.future = f → cb.serial ∈ s.raisedSends))

/-- What the futures other than `f` have borrowed of `c` and not returned. -/
def lentToOthers (s : Session) (f : FutureId) (c : ConnId) : Int :=
  (s.borrowed.countP fun loan => loan.1 ≠ f ∧ loan.2 = c) - (s.returned.countP fun loan => loan.1 ≠ f ∧ loan.2 = c)

/-! ## The condition -/

/-- A borrow finds an id, on the same connection for a re-prepare. -/
def borrowOk (s : Session) (host : Host) (again : Option Callback) : Bool :=
  match s.borrowsFrom host with
  | none => true
  | some (_, pool, c) =>
    match s.conns[c]? with
    | none => true
    | some conn =>
      !hasRoom pool.kind conn || ((getRequestId conn).isSome && again.all fun cb => cb.connection = c)

def sendOk (s : Session) (f : FutureId) : Bool :=
  match s.futures[f]? with
  | none => true
  | some fut =>
    match fut.queryPlan with
    | [] => true
    | host :: _ => s.borrowOk host none

/-- The request found owes its connection, whose pool is open. -/
def timeoutOk (s : Session) (f : FutureId) : Bool :=
  match s.futures[f]? with
  | none => true
  | some fut =>
    match fut.connection, fut.reqId with
    | some c, some reqId =>
      match (s.conns[c]?).bind fun conn => conn.requests.get? reqId with
      | none => true
      | some cb => cb.owes s.raisedSends f c && (s.openPoolOf fut.currentHost).isSome
    | _, _ => true

def callOk (o : Oracle) (s : Session) : Call → Bool
  | .callback cb _ | .executeAfterPrepare cb _ => cb.serial ∉ s.raisedSends
  | .sendRequest f _ => s.sendOk f
  | .sendFailed f _ =>
    match s.futures[f]? with
    | none => true
    | some fut => if fut.timeout.isSome && o.late then s.timeoutOk f else s.sendOk f
  | .retryTask _ reuse host => !reuse || s.borrowOk host none
  | .reprepare cb => s.borrowOk cb.host (some cb)
  | .afterPrepare cb (.prepared _) => s.borrowOk cb.host none
  | _ => true

/-- Each `_query` and each handler works on the connection that was borrowed. -/
def booksOk (s : Session) (a : Oracle × Act) : Bool :=
  match a.2 with
  | .call index =>
    match s.calls[index]? with
    | none => true
    | some call => ({ s with calls := s.calls.eraseIdx index } : Session).callOk a.1 call
  | .timer f =>
    match s.futures[f]? with
    | none => true
    | some fut =>
      match fut.timer with
      | some ⟨.timeout, true⟩ => s.timeoutOk f
      | some ⟨.speculative, true⟩ => fut.event || !(fut.timeout.isSome && a.1.late) || s.timeoutOk f
      | _ => true
  | _ => true

end Session

/-! ## The books -/

/-- Callbacks are numbered and bound, and no id is twice. -/
structure Sound (s : Session) : Prop where
  maxInFlight : 1 ≤ s.maxInFlight
  connsOk : s.ConnsOk
  serials : ∀ cb ∈ s.outstanding, cb.serial < s.sends
  raised : ∀ n ∈ s.raisedSends, n < s.sends
  connections : ∀ cb ∈ s.outstanding, cb.connection < s.conns.length

/-- What is borrowed is returned or owed. -/
structure Booked (s : Session) : Prop extends Sound s where
  balanced : ∀ f c, s.borrowed.count (f, c) = s.returned.count (f, c) + s.owed f c
  inFlight : ∀ c, s.inFlightOf c =
    (s.borrowed.countP fun loan => loan.2 = c : Int) - (s.returned.countP fun loan => loan.2 = c : Int)

variable {s s' : Session} {call : Call} {cb : Callback} {idx : Nat} {c : ConnId} {conn conn' : Connection Callback}
  {f : FutureId} {raised : Bool} {rid : Int} {again : Option Callback} {host : Host}

theorem SameBooks.booked (h : SameBooks s s') (hs : Booked s) : Booked s' where
  maxInFlight := by rw [h.maxInFlight]; exact hs.maxInFlight
  connsOk := h.connsOk hs.maxInFlight hs.connsOk
  serials cb hcb := by
    rw [h.sends]
    exact hs.serials cb (h.outstanding.mem_iff.mp hcb)
  raised n hn := by
    rw [h.sends]
    rw [h.raisedSends] at hn
    exact hs.raised n hn
  connections cb hcb := Nat.lt_of_lt_of_le (hs.connections cb (h.outstanding.mem_iff.mp hcb)) h.length
  balanced f c := by
    unfold Session.owed
    rw [h.borrowed, h.returned, h.raisedSends, h.outstanding.countP_eq]
    exact hs.balanced f c
  inFlight c := by
    rw [h.inFlight, h.borrowed, h.returned]
    exact hs.inFlight c

structure TakenOut (cb : Callback) (s s' : Session) : Prop where
  outstanding : s.outstanding.Perm (cb :: s'.outstanding)
  inFlight : ∀ c, s'.inFlightOf c = s.inFlightOf c
  length : s'.conns.length = s.conns.length
  connsOk : s.ConnsOk → s'.ConnsOk
  borrowed : s'.borrowed = s.borrowed
  returned : s'.returned = s.returned
  sends : s'.sends = s.sends
  raisedSends : s'.raisedSends = s.raisedSends
  maxInFlight : s'.maxInFlight = s.maxInFlight

theorem outstanding_eraseIdx (hc : s.calls[idx]? = some call) (ho : call.owing = some cb) :
    s.outstanding.Perm (cb :: ({ s with calls := s.calls.eraseIdx idx } : Session).outstanding) := by
  obtain ⟨hi, rfl⟩ := List.getElem?_eq_some_iff.mp hc
  have hp := (getElem_cons_eraseIdx_perm hi).filterMap Call.owing
  rw [filterMap_cons, ho] at hp
  exact (hp.symm.append_left s.entries).trans perm_middle

theorem takenOut_call (hc : s.calls[idx]? = some call) (ho : call.owing = some cb) :
    TakenOut cb s { s with calls := s.calls.eraseIdx idx } :=
  ⟨outstanding_eraseIdx hc ho, fun _ => rfl, rfl, fun h => h, rfl, rfl, rfl, rfl, rfl⟩

theorem owes_eq {raisedSends : List Nat} (h : cb.serial ∉ raisedSends) {f : FutureId} {c : ConnId} :
    cb.owes raisedSends f c = ((cb.future, cb.connection) == (f, c)) := by
  rw [Bool.eq_iff_iff]
  simp [Callback.owes, h]

theorem TakenOut.booked (h : TakenOut cb s s') (hs : Booked s) (hser : cb.serial ∉ s.raisedSends) :
    Booked (s'.countedDown cb.future cb.connection) := by
  have hmem : ∀ x ∈ (s'.countedDown cb.future cb.connection).outstanding, x ∈ s.outstanding := by
    intro x hx
    rw [outstanding_countedDown] at hx
    exact h.outstanding.mem_iff.mpr (mem_cons_of_mem _ hx)
  have hlen : (s'.countedDown cb.future cb.connection).conns.length = s.conns.length := by
    rw [← h.length]
    simp [Session.countedDown, modConn]
  have hc := hs.connections cb (h.outstanding.mem_iff.mpr mem_cons_self)
  have hmax : (s'.countedDown cb.future cb.connection).maxInFlight = s.maxInFlight := h.maxInFlight
  have hsn : (s'.countedDown cb.future cb.connection).sends = s.sends := h.sends
  have hrsd : (s'.countedDown cb.future cb.connection).raisedSends = s.raisedSends := h.raisedSends
  have hb : (s'.countedDown cb.future cb.connection).borrowed = s.borrowed := h.borrowed
  have hret : (s'.countedDown cb.future cb.connection).returned = (cb.future, cb.connection) :: s.returned :=
    congrArg _ h.returned
  refine ⟨⟨?_, countedDown_connsOk.mpr (h.connsOk hs.connsOk), ?_, ?_, ?_⟩, ?_, ?_⟩
  · rw [hmax]
    exact hs.maxInFlight
  · intro x hx
    rw [hsn]
    exact hs.serials x (hmem x hx)
  · rw [hrsd, hsn]
    exact hs.raised
  · intro x hx
    rw [hlen]
    exact hs.connections x (hmem x hx)
  · intro f c
    have hbal := hs.balanced f c
    unfold Session.owed at hbal ⊢
    rw [h.outstanding.countP_eq, countP_cons, owes_eq hser] at hbal
    rw [hb, hret, hrsd, outstanding_countedDown, count_cons]
    omega
  intro c
  rw [countedDown_inFlightOf _ (by rw [h.length]; exact hc), h.inFlight, hs.inFlight, hb, hret, countP_cons]
  by_cases hcc : cb.connection = c
  · simp only [hcc, decide_true, if_true]
    omega
  simp only [hcc, Ne.symm hcc, decide_false, if_false, Bool.false_eq_true]
  omega

/-! ## Borrowing -/

theorem sound_countedDown (hs : Sound s) {f : FutureId} {c : ConnId} : Sound (s.countedDown f c) := by
  refine ⟨hs.maxInFlight, countedDown_connsOk.mpr hs.connsOk, ?_, hs.raised, ?_⟩
  · rw [outstanding_countedDown]
    exact hs.serials
  rw [outstanding_countedDown]
  simpa [Session.countedDown, modConn] using hs.connections

theorem sound_lendAndSend (hs : Sound s) (hids : IdsOk ⟨conn, []⟩) (hnew : ∀ cb ∈ (s.lendAndSend f c conn
      raised).outstanding, cb ∈ s.outstanding ∨ cb.serial = s.sends ∧ cb.connection < s.conns.length) :
    Sound (s.lendAndSend f c conn raised) := by
  refine ⟨hs.maxInFlight, connsOk_set rfl hs.connsOk hids, ?_, ?_, ?_⟩
  · intro cb hcb
    simp only [lendAndSend]
    rcases hnew cb hcb with hold | ⟨hser, -⟩
    · exact Nat.lt_succ_of_lt (hs.serials cb hold)
    · omega
  · intro n hn
    have hold : n = s.sends ∨ n ∈ s.raisedSends := by
      cases raised with
      | true => exact mem_cons.mp hn
      | false => exact .inr hn
    rcases hold with rfl | hold
    · exact Nat.lt_succ_self _
    · exact Nat.lt_succ_of_lt (hs.raised n hold)
  intro cb hcb
  have hlen : (s.lendAndSend f c conn raised).conns.length = s.conns.length := length_set
  rw [hlen]
  rcases hnew cb hcb with hold | ⟨-, hc⟩
  · exact hs.connections cb hold
  · exact hc

theorem inFlight_lendAndSend (hcn : s.conns[c]? = some conn) (hf : conn'.inFlight = conn.inFlight + 1)
    (c' : ConnId) : (s.lendAndSend f c conn' raised).inFlightOf c' = s.inFlightOf c' + if c' = c then 1 else 0 := by
  rw [inFlightOf_set rfl (List.getElem?_eq_some_iff.mp hcn).1]
  split
  · rename_i hc
    subst hc
    simp [inFlightOf, hcn, hf]
  · simp

theorem booked_givenBack (hs : Booked s) (hcn : s.conns[c]? = some conn)
    (hf : conn'.inFlight = conn.inFlight + 1) (hsn : Sound (s.lendAndSend f c conn' raised))
    (ho : ∀ f' c', (s.lendAndSend f c conn' raised).owed f' c' = s.owed f' c') :
    Booked ((s.lendAndSend f c conn' raised).countedDown f c) := by
  have hb : ((s.lendAndSend f c conn' raised).countedDown f c).borrowed = (f, c) :: s.borrowed := rfl
  have hret : ((s.lendAndSend f c conn' raised).countedDown f c).returned = (f, c) :: s.returned := rfl
  refine ⟨sound_countedDown hsn, ?_, ?_⟩
  · intro f' c'
    have hsm : ((s.lendAndSend f c conn' raised).countedDown f c).owed f' c' = s.owed f' c' := by
      rw [← ho, Session.owed, outstanding_countedDown]
      rfl
    have := hs.balanced f' c'
    rw [hb, hret, count_cons, count_cons]
    omega
  intro c'
  have hc : c < (s.lendAndSend f c conn' raised).conns.length := by
    simpa [lendAndSend, lend, modFuture] using (List.getElem?_eq_some_iff.mp hcn).1
  rw [countedDown_inFlightOf f hc, inFlight_lendAndSend hcn hf, hs.inFlight, hb, hret, countP_cons, countP_cons]
  omega

theorem getRequestId_unregistered (hs : s.ConnsOk) (hc : s.conns[c]? = some conn)
    (hid : getRequestId conn = some (rid, conn')) : IdsOk ⟨conn', [rid]⟩ := getRequestId_ok (hs conn (mem_of_getElem? hc)) hid

theorem outstanding_registerOn (f : FutureId) (raised : Bool) (hs : s.ConnsOk) (hc : s.conns[c]? = some conn)
    (hid : getRequestId conn = some (rid, conn')) (cb : Callback) :
    (s.lendAndSend f c (registerOn conn conn' rid cb) raised).outstanding.Perm (cb :: s.outstanding) := by
  have hf := (getRequestId_unregistered hs hc hid).not_registered mem_cons_self
  have hv : (registerOn conn conn' rid cb).requests.values.Perm (cb :: conn.requests.values) := by
    rw [← getRequestId_requests hid, ← Dict.values_erase_of_not_mem hf]
    exact Dict.values_set conn'.requests rid cb
  rw [perm_iff_count]
  intro x
  have h1 := (flatMap_set_perm (fun conn => conn.requests.values) (registerOn conn conn' rid cb) hc).count_eq x
  have h2 := (entries_perm hc).count_eq x
  have h3 := hv.count_eq x
  rw [← singleton_append] at h3 ⊢
  simp only [Session.outstanding, Session.entries, lendAndSend, lend, modFuture, count_append] at h1 h2 h3 ⊢
  omega

theorem registerOn_ok (hs : s.ConnsOk) (hc : s.conns[c]? = some conn)
    (hid : getRequestId conn = some (rid, conn')) (cb : Callback) : IdsOk ⟨registerOn conn conn' rid cb, []⟩ := by
  have h := sendMsg_ok (getRequestId_unregistered hs hc hid) rid cb mem_cons_self
  rw [erase_cons_head] at h
  exact ⟨h.once, h.range, h.highest⟩

theorem booked_shutdown (hs : Booked s) (hc : s.conns[c]? = some conn) (hid : getRequestId conn = some (rid, conn')) :
    Booked ((s.lendAndSend f c { conn' with inFlight := conn.inFlight + 1 } false).countedDown f c) := by
  have hids : IdsOk (κ := Callback) ⟨{ conn' with inFlight := conn.inFlight + 1 }, []⟩ := by
    refine idsOk_of_places_le (getRequestId_unregistered hs.connsOk hc hid) (fun i => ?_) rfl
    simp [places]
  have hout : (s.lendAndSend f c { conn' with inFlight := conn.inFlight + 1 } false).outstanding.Perm s.outstanding := by
    have h1 := flatMap_set_perm (fun conn => conn.requests.values) { conn' with inFlight := conn.inFlight + 1 } hc
    have h2 := entries_perm hc
    rw [← getRequestId_requests hid] at h2
    exact (h1.trans h2.symm).append_right _
  refine booked_givenBack hs hc rfl (sound_lendAndSend hs.toSound hids ?_) ?_
  · intro cb hcb
    exact .inl (hout.mem_iff.mp hcb)
  intro f' c'
  exact hout.countP_eq _

theorem booked_raised (hs : Booked s) (hc : s.conns[c]? = some conn)
    (hid : getRequestId conn = some (rid, conn')) (hser : cb.serial = s.sends) (hcn : cb.connection < s.conns.length) :
    Booked ((s.lendAndSend f c (registerOn conn conn' rid cb) true).countedDown f c) := by
  have hout := outstanding_registerOn f true hs.connsOk hc hid cb
  refine booked_givenBack hs hc rfl (sound_lendAndSend hs.toSound (registerOn_ok hs.connsOk hc hid cb) ?_) ?_
  · intro x hx
    rcases mem_cons.mp (hout.mem_iff.mp hx) with rfl | hold
    · exact .inr ⟨hser, hcn⟩
    · exact .inl hold
  intro f' c'
  have hnew : cb.owes (s.sends :: s.raisedSends) f' c' = false := by simp [Callback.owes, hser]
  have hold : ∀ x ∈ s.outstanding,
      x.owes (s.sends :: s.raisedSends) f' c' ↔ x.owes s.raisedSends f' c' := by
    intro x hx
    have hne : x.serial ≠ s.sends := Nat.ne_of_lt (hs.serials x hx)
    simp [Callback.owes, hne]
  have hrsd : (s.lendAndSend f c (registerOn conn conn' rid cb) true).raisedSends = s.sends :: s.raisedSends := rfl
  rw [Session.owed, hrsd, hout.countP_eq, countP_cons, hnew, countP_congr hold]
  rfl

theorem booked_sent (hs : Booked s) (hcn : s.conns[c]? = some conn)
    (hid : getRequestId conn = some (rid, conn')) (hser : cb.serial = s.sends) (hfut : cb.future = f)
    (hconnection : cb.connection = c) : Booked (s.lendAndSend f c (registerOn conn conn' rid cb) false) := by
  have hout := outstanding_registerOn f false hs.connsOk hcn hid cb
  have hnot : cb.serial ∉ s.raisedSends := by
    intro h
    have := hs.raised _ h
    omega
  have hb : (s.lendAndSend f c (registerOn conn conn' rid cb) false).borrowed = (f, c) :: s.borrowed := rfl
  have hret : (s.lendAndSend f c (registerOn conn conn' rid cb) false).returned = s.returned := rfl
  refine ⟨sound_lendAndSend hs.toSound (registerOn_ok hs.connsOk hcn hid cb) ?_, ?_, ?_⟩
  · intro x hx
    rcases mem_cons.mp (hout.mem_iff.mp hx) with rfl | hold
    · refine .inr ⟨hser, ?_⟩
      rw [hconnection]
      exact (List.getElem?_eq_some_iff.mp hcn).1
    · exact .inl hold
  · intro f' c'
    have ho : (s.lendAndSend f c (registerOn conn conn' rid cb) false).owed f' c' =
        s.owed f' c' + if (f, c) == (f', c') then 1 else 0 := by
      have hrsd : (s.lendAndSend f c (registerOn conn conn' rid cb) false).raisedSends = s.raisedSends := rfl
      rw [Session.owed, hrsd, hout.countP_eq, countP_cons, owes_eq hnot, hfut, hconnection]
      rfl
    have := hs.balanced f' c'
    rw [hb, hret, count_cons]
    omega
  intro c'
  rw [inFlight_lendAndSend hcn rfl, hs.inFlight, hb, hret, countP_cons]
  by_cases hc : c = c'
  · simp only [hc, decide_true, if_true]
    omega
  simp only [hc, Ne.symm hc, decide_false, if_false, Bool.false_eq_true]
  omega

/-! ## The handlers -/

theorem boundCallback_connection {p : PoolId} (h : (again.all fun cb => cb.connection = c)) :
    (s.boundCallback f host p c again).connection = c := by
  cases again with
  | none => rfl
  | some cb => simpa [boundCallback] using h

theorem booked_query (o : Oracle) (hs : Booked s) (hok : s.borrowOk host again) :
    Booked (s.query o f host again).1 := by
  rcases query_cases o s f host again with ⟨-, hup⟩ | ⟨p, pool, c, conn, hb, hc, hout⟩
  · exact hup.toSameBooks.booked hs
  simp only [borrowOk, hb, hc, Bool.or_eq_true, Bool.and_eq_true] at hok
  have hok : hasRoom pool.kind conn →
      (getRequestId conn).isSome ∧ (s.boundCallback f host p c again).connection = c := by
    intro hr
    rw [hr] at hok
    have hok := hok.resolve_left (by decide)
    exact ⟨hok.1, boundCallback_connection hok.2⟩
  have hfut := boundCallback_future s f host p c again
  have hser := boundCallback_serial s f host p c again
  generalize (s.query o f host again).2 = result at hout
  cases hout with
  | full h => exact h.toSameBooks.booked hs
  | exhausted hr hid h =>
    have := (hok hr).1
    rw [hid] at this
    cases this
  | shutdown rid conn' hid h => exact h.toSameBooks.booked (booked_shutdown hs hc hid)
  | raised hr rid conn' hid h =>
    refine h.toSameBooks.booked (booked_raised hs hc hid hser ?_)
    rw [(hok hr).2]
    exact (List.getElem?_eq_some_iff.mp hc).1
  | sent hr rid conn' hid h =>
    exact h.toSameBooks.booked (booked_sent hs hc hid hser hfut (hok hr).2)

theorem borrowOk_modFuture {s : Session} {f : FutureId} (g : ResponseFuture → ResponseFuture) {host : Host}
    {again : Option Callback} : (s.modFuture f g).borrowOk host again = s.borrowOk host again := by
  have hc : (s.modFuture f g).conns = s.conns := rfl
  have hb : (s.modFuture f g).borrowsFrom host = s.borrowsFrom host := by
    unfold borrowsFrom
    simp only [pick_congr hc]
    rfl
  unfold borrowOk
  rw [hb, hc]

variable {noHosts : Bool} {o : Oracle}

theorem booked_sendRequest (hs : Booked s) (hok : s.sendOk f) : Booked (s.sendRequest o f noHosts) := by
  unfold sendRequest
  unfold sendOk at hok
  split
  · exact hs
  rename_i fut hf
  simp only [hf] at hok
  split
  · split <;> exact (sameBooks_modFuture ..).booked hs
  rename_i host rest hp
  simp only [hp] at hok
  have hs' := (sameBooks_modFuture s f fun fut => { fut with queryPlan := rest }).booked hs
  rw [← borrowOk_modFuture fun fut => { fut with queryPlan := rest }] at hok
  have hqr := booked_query o (f := f) hs' hok
  split <;> rename_i hq <;> rw [hq] at hqr <;> exact (sameBooks_submit _ rfl).booked hqr

theorem takenOut_timeout {reqId : Int} {po : Bool} (hcn : s.conns[c]? = some conn)
    (hget : conn.requests.get? reqId = some cb) (ht : timeoutRequest conn reqId po = some conn') :
    TakenOut cb s { s with conns := s.conns.set c conn' } := by
  refine ⟨?_, ?_, length_set, ?_, rfl, rfl, rfl, rfl, rfl⟩
  · rw [perm_iff_count]
    intro x
    rw [← count_timeout hcn hget ht, List.count_singleton, count_cons]
  · intro c'
    rw [inFlightOf_set rfl (List.getElem?_eq_some_iff.mp hcn).1]
    split
    · rename_i hc
      subst hc
      simp [inFlightOf, hcn, (timeoutRequest_eq_some ht).2]
    · rfl
  intro hs
  exact connsOk_set rfl hs (timeoutRequest_ok (s := ⟨conn, []⟩) (hs conn (mem_of_getElem? hcn)) ht)

theorem booked_onTimeout (o : Oracle) (hs : Booked s) (hok : s.timeoutOk f) : Booked (s.onTimeout o f).1 := by
  cases hf : s.futures[f]? with
  | none =>
    unfold onTimeout
    rw [hf]
    exact hs
  | some fut =>
    rcases onTimeout_cases o s hf with ⟨hsm, -⟩ | ⟨c, conn, reqId, cb, conn', s', hc, hcn, hr, hget, ht, hup, hfin⟩
    · rw [hsm]
      exact hs
    simp only [timeoutOk, hf, hc, hr, hcn, Option.bind_some, hget, Bool.and_eq_true, Callback.owes,
      decide_eq_true_eq] at hok
    obtain ⟨⟨rfl, rfl, hser⟩, hp⟩ := hok
    have hb := (takenOut_timeout hcn hget ht).booked hs hser
    rw [hfin]
    refine (sameBooks_modFuture ..).booked ?_
    rcases hup with ⟨hn, -⟩ | ⟨p, -, rfl⟩
    · rw [hn] at hp
      cases hp
    · exact (upkeep_returnConnection ..).toSameBooks.booked hb

theorem timeoutOk_timer (s : Session) (f : FutureId) (t : ResponseFuture → Option Timer) :
    (s.modFuture f fun fut => { fut with timer := t fut }).timeoutOk f = s.timeoutOk f := by
  unfold timeoutOk modFuture
  rw [getElem?_modify_eq]
  cases s.futures[f]? <;> rfl

theorem booked_sendFailed (hs : Booked s) (hok : s.callOk o (.sendFailed f noHosts)) :
    Booked (s.sendFailed o f noHosts) := by
  unfold sendFailed
  unfold callOk at hok
  split
  · exact hs
  rename_i fut hf
  simp only [hf] at hok
  split
  · rename_i hl
    rw [if_pos hl] at hok
    have hb := booked_onTimeout o hs hok
    simp only
    split
    · exact hb
    · exact (sameBooks_modFuture ..).booked hb
  rename_i hl
  rw [if_neg hl] at hok
  exact booked_sendRequest hs hok

theorem booked_fireTimer (hs : Booked s) (hok : s.booksOk (o, .timer f)) : Booked (s.fireTimer o f) := by
  unfold fireTimer
  simp only [booksOk] at hok
  split
  · exact hs
  rename_i fut hf
  simp only [hf] at hok
  split
  · rename_i ht
    simp only [ht] at hok
    exact booked_onTimeout o ((sameBooks_modFuture ..).booked hs) ((timeoutOk_timer ..).trans hok)
  · rename_i ht
    simp only [ht] at hok
    have hs' := (sameBooks_modFuture s f fun fut => { fut with timer := none }).booked hs
    unfold onSpeculativeExecute
    simp only [hf]
    split
    · exact hs'
    rename_i he
    split
    · rename_i hl
      rw [hl] at hok
      have hok : s.timeoutOk f := by simpa [he] using hok
      exact booked_onTimeout o hs' ((timeoutOk_timer ..).trans hok)
    · exact (sameBooks_submit _ rfl).booked hs'
  · exact hs

theorem booked_queryOrSend (o : Oracle) (hs : Booked s) (hok : s.borrowOk host again) :
    Booked (s.queryOrSend o f host again) := by
  have hqr := booked_query o (f := f) hs hok
  unfold queryOrSend
  split <;> rename_i hq <;> rw [hq] at hqr
  · exact hqr
  · exact (sameBooks_submit _ rfl).booked hqr

theorem booked_retryTask {ru : Bool} (hs : Booked s) (hok : s.callOk o (.retryTask f ru host)) :
    Booked (s.retryTask o f ru host) := by
  unfold retryTask
  split
  · exact hs
  split
  · exact hs
  split
  · rename_i hr
    refine booked_queryOrSend o hs ?_
    simpa [callOk, hr] using hok
  · exact (sameBooks_submit _ rfl).booked hs

theorem booked_afterPrepare {resp : Response} (hs : Booked s) (hok : s.callOk o (.afterPrepare cb resp)) :
    Booked (s.afterPrepare o cb resp) := by
  have he : ∀ e, Booked ((s.addError cb.future cb.host e).submit (.sendRequest cb.future true)) := fun e =>
    ((sameBooks_modFuture ..).trans (sameBooks_submit _ rfl)).booked hs
  unfold afterPrepare
  split
  · exact hs
  split
  · exact hs
  cases resp with
  | prepared _ => exact booked_queryOrSend o hs hok
  | connectionException => exact he _
  | connectionShutdown => exact he _
  | _ => exact (sameBooks_modFuture ..).booked hs

theorem sameBooks_passOn {call' : Call} (hc : s.calls[idx]? = some call) (ho : call.owing = some cb)
    (ho' : call'.owing = some cb) :
    SameBooks s (({ s with calls := s.calls.eraseIdx idx } : Session).submit call') := by
  refine ⟨?_, fun _ => rfl, Nat.le_refl _, fun _ h => h, rfl, rfl, rfl, rfl, rfl⟩
  refine Perm.trans ?_ (outstanding_eraseIdx hc ho).symm
  simp only [Session.outstanding, submit, filterMap_append, filterMap_cons, ho']
  rw [← append_assoc]
  exact perm_append_singleton ..

theorem booked_runCall (hs : Booked s) (hc : s.calls[idx]? = some call)
    (hok : ({ s with calls := s.calls.eraseIdx idx } : Session).callOk o call) :
    Booked (({ s with calls := s.calls.eraseIdx idx } : Session).runCall o call) := by
  have hr : call.owing = none → Booked ({ s with calls := s.calls.eraseIdx idx } : Session) := fun ho =>
    (sameBooks_eraseIdx hc ho).booked hs
  cases call with
  | callback cb resp =>
    simp only [runCall]
    split
    · -- The connection is returned before the rest of `_set_result` runs.
      have hser : cb.serial ∉ s.raisedSends := by simpa [callOk] using hok
      have hb := (takenOut_call hc rfl).booked hs hser
      have hn := (sameBooks_modFuture _ cb.future fun fut => { fut with coordinatorHost := some cb.host }).booked hb
      exact (sameBooks_submit _ rfl).booked ((upkeep_returnConnection ..).toSameBooks.booked hn)
    · exact (sameBooks_passOn hc rfl rfl).booked hs
  | executeAfterPrepare cb resp =>
    have hser : cb.serial ∉ s.raisedSends := by simpa [callOk] using hok
    have hb := (takenOut_call hc rfl).booked hs hser
    exact (sameBooks_submit _ rfl).booked ((upkeep_returnConnection ..).toSameBooks.booked hb)
  | setResult cb resp => exact (sameBooks_setResult ..).booked (hr rfl)
  | afterPrepare cb resp => exact booked_afterPrepare (hr rfl) hok
  | sendRequest f noHosts => exact booked_sendRequest (hr rfl) hok
  | requestSent f rid noHosts =>
    simp only [runCall]
    split
    · exact (sameBooks_modFuture ..).booked (hr rfl)
    · exact ((sameBooks_modFuture ..).trans (sameBooks_modFuture ..)).booked (hr rfl)
  | sendFailed f noHosts => exact booked_sendFailed (hr rfl) hok
  | retry f ru host => exact (sameBooks_retry ..).booked (hr rfl)
  | retryTask f ru host => exact booked_retryTask (hr rfl) hok
  | reprepare cb => exact booked_queryOrSend o (hr rfl) hok
  | setFinalException f exc => exact (sameBooks_modFuture ..).booked (hr rfl)
  | refreshSchema f => exact ((sameBooks_modFuture ..).trans (sameBooks_modFuture ..)).booked (hr rfl)
  | setKeyspaceCompleted f =>
    simp only [runCall]
    split <;> exact (sameBooks_modFuture ..).booked (hr rfl)
  | replace p => exact (PoolWork.refl.replace o p).upkeep.toSameBooks.booked (hr rfl)
  | createNewConnection p => exact (PoolWork.refl.createNewConnection o p).upkeep.toSameBooks.booked (hr rfl)
  | shutdownPool p => exact (PoolWork.refl.shutdownPool p).upkeep.toSameBooks.booked (hr rfl)

/-! ## Steps and runs -/

theorem booked_step {d : Decoding Callback Response Response} (s : Session) (a : Oracle × Act) (hs : Booked s)
    (hok : s.booksOk a) : Booked (step d s a) := by
  obtain ⟨o, act⟩ := a
  cases act with
  | execute tmo plan pst cbs ebs =>
    have hfut : ∀ futures, SameBooks s { s with futures } := fun futures =>
      ⟨.refl _, fun _ => rfl, Nat.le_refl _, fun _ h => h, rfl, rfl, rfl, rfl, rfl⟩
    exact ((hfut _).trans (sameBooks_submit _ rfl)).booked hs
  | startFetchingNextPage f plan =>
    simp only [step, startFetchingNextPage]
    split
    · exact hs
    split
    · exact ((sameBooks_modFuture ..).trans (sameBooks_submit _ rfl)).booked hs
    · exact hs
  | call idx =>
    simp only [step]
    simp only [booksOk] at hok
    split
    · exact hs
    rename_i call hc
    simp only [hc] at hok
    exact booked_runCall hs hc hok
  | processMsg c fr => exact (upkeep_processMsg d s c fr).toSameBooks.booked hs
  | timer f => exact booked_fireTimer hs hok
  | defunct c => exact (upkeep_defunctConn s c).toSameBooks.booked hs
  | close c => exact (upkeep_closeConn s c).toSameBooks.booked hs
  | addOrRenewPool pool n => exact (PoolWork.refl.addOrRenewPool pool n).upkeep.toSameBooks.booked hs
  | removePool host => exact (PoolWork.refl.removePool host).upkeep.toSameBooks.booked hs
  | setKeyspace c ks => exact (upkeep_keyspace s c ks).toSameBooks.booked hs

theorem booked_start (pv : Nat) {maxInFlight : Nat} (pss : Dict Nat PreparedStatement)
    (hmax : 1 ≤ maxInFlight) : Booked (Session.start pv maxInFlight pss) where
  maxInFlight := hmax
  connsOk := by
    intro conn hc
    cases hc
  serials := by
    intro cb hcb
    cases hcb
  raised := by
    intro n hn
    cases hn
  connections := by
    intro cb hcb
    cases hcb
  balanced _ _ := rfl
  inFlight _ := rfl

theorem countP_split (l : List (FutureId × ConnId)) (f : FutureId) {c : ConnId} :
    (l.countP fun loan => loan.2 = c) = l.count (f, c) + l.countP fun loan => loan.1 ≠ f ∧ loan.2 = c := by
  induction l with
  | nil => rfl
  | cons loan l ih =>
    rw [countP_cons, count_cons, ih]
    by_cases hf : loan.1 = f <;> by_cases hc : loan.2 = c
    all_goals
      simp [hf, hc, Prod.ext_iff]
      try omega

/-- **What is borrowed is returned**, if each call works on the connection borrowed. -/
theorem borrowed_connections_returned (d : Decoding Callback Response Response) (protocolVersion maxInFlight : Nat)
    (hmax : 1 ≤ maxInFlight) (preparedStatements : Dict Nat PreparedStatement) (acts : List (Oracle × Act))
    (h : RunOk (step d) (fun s a => s.booksOk a = true)
      (Session.start protocolVersion maxInFlight preparedStatements) acts) :
    let s := run (step d) (Session.start protocolVersion maxInFlight preparedStatements) acts
    ∀ f, s.Answered f → ∀ c,
      s.borrowed.count (f, c) = s.returned.count (f, c) ∧ s.inFlightOf c = s.lentToOthers f c := by
  intro s f hf c
  have hs : Booked s := run_invariant booked_step (booked_start protocolVersion preparedStatements hmax) h
  have hn : s.owed f c = 0 := by
    unfold Session.owed
    rw [countP_eq_zero]
    intro cb hcb ho
    simp only [Callback.owes, decide_eq_true_eq] at ho
    exact ho.2.2 (hf cb hcb ho.1)
  have hbal := hs.balanced f c
  rw [hn] at hbal
  rw [hs.inFlight, countP_split _ f, countP_split s.returned f]
  unfold lentToOthers
  omega

def prepareAgain : List (Oracle × Act) :=
  andCalls (.addOrRenewPool (fixedPool .hostConnection 0) 1) 0 ++ andCalls (.execute none [0] (some ⟨9, none⟩) [] []) 2 ++
    andCalls (answer 0 0 0) 3 ++ andCalls (answer 0 1 1) 3 ++ andCalls (answer 0 2 2) 2

theorem borrowed_connections_returned_prepared :
    let s := run (step (scripted [.error (.preparedQueryNotFound 9), .prepared 0, .rows 5 none]))
      (Session.start 4 4 Dict.empty) prepareAgain
    s.borrowed.count (0, 0) = 3 ∧ s.futures[0]?.map ResponseFuture.event = some true ∧
      s.borrowed.count (0, 0) = s.returned.count (0, 0) ∧ s.inFlightOf 0 = s.lentToOthers 0 0 :=
  ⟨by decide +kernel, by decide +kernel,
    borrowed_connections_returned _ 4 4 (by decide) Dict.empty prepareAgain (by decide +kernel) 0 (by decide +kernel) 0⟩

/-- Prepared again on 0, connection 1 is returned. -/
theorem prepared_on_other_connection :
    let s := run (step (scripted [.error (.preparedQueryNotFound 9), .prepared 0, .rows 5 none]))
      (Session.start 2 4 Dict.empty)
      (andCalls (.addOrRenewPool (fixedPool .hostConnectionPool 0) 2) 0 ++ andCalls (.execute none [0] none [] []) 2 ++
        andCalls (.execute none [0] (some ⟨9, none⟩) [] []) 2 ++ andCalls (answer 0 0 2) 2 ++
        andCalls (answer 1 0 0) 3 ++ andCalls (answer 0 1 1) 3 ++ andCalls (answer 1 1 2) 2)
    s.outstanding = [] ∧ s.calls = [] ∧ s.futures.map ResponseFuture.event = [true, true] ∧
      s.inFlightOf 0 = 1 ∧ s.inFlightOf 1 = -1 := by
  decide +kernel

end CqlDriver.Requests
