import CqlDriver.Requests.Timeout

/-! # A future completes once -/

namespace CqlDriver.Requests

open Lib Conn Session List ResponseFuture

/-! ## Specification -/

/-- Not complete, or complete by one call. -/
inductive CompletedOnce (x : Completion) : Prop
  | pending (event : x.event = false) (result : x.finalResult = none) (exception : x.finalException = none)
      (history : x.history = [])
  | result (results : Option Results) (fns : List UserFn) (event : x.event = true)
      (result : x.finalResult = some results) (exception : x.finalException = none) (called : fns <+: x.callbacks)
      (history : x.history = .final (.result results) :: fns.map .callback)
  | exception (exc : Exc) (fns : List UserFn) (event : x.event = true) (result : x.finalResult = none)
      (exception : x.finalException = some exc) (called : fns <+: x.errbacks)
      (history : x.history = .final (.exception exc) :: fns.map .errback)

/-! ## The condition -/

namespace Session

def idle (s : Session) (f : FutureId) : Bool :=
  (s.entries.all fun cb => cb.future != f) && s.calls.all fun call => call.future != some f

/-- A request found is its future's and the last of it. -/
def timeoutAlone (s : Session) (f : FutureId) : Bool :=
  match s.futures[f]? with
  | none => true
  | some fut =>
    match fut.connection, fut.reqId with
    | some c, some reqId =>
      match s.conns[c]? with
      | none => true
      | some conn =>
        match conn.requests.get? reqId, timeoutRequest conn reqId (s.openPoolOf fut.currentHost).isSome with
        | some cb, some conn => cb.future == f && ({ s with conns := s.conns.set c conn } : Session).idle f
        | _, _ => true
    | _, _ => true

def noHostsAlone (s : Session) (f : FutureId) (errorNoHosts : Bool) : Bool :=
  match s.futures[f]? with
  | none => true
  | some fut => !(errorNoHosts && fut.queryPlan.isEmpty) || s.idle f

/-- What completes is the last, and no user function raises inside `_set_result`. -/
def callAlone (o : Oracle) (s : Session) : Call → Bool
  | .setResult cb response =>
    match s.futures[cb.future]? with
    | none => true
    | some fut =>
      match s.verdict o fut response with
      | .final outcome => s.idle cb.future && !fut.finishRaises o.raises outcome
      | _ => true
  | .afterPrepare cb response =>
    match response with
    | .prepared _ | .connectionException | .connectionShutdown => true
    | _ => s.idle cb.future
  | .sendRequest f errorNoHosts => s.noHostsAlone f errorNoHosts
  | .sendFailed f errorNoHosts =>
    match s.futures[f]? with
    | none => true
    | some fut => if fut.timeout.isSome && o.late then s.timeoutAlone f else s.noHostsAlone f errorNoHosts
  | .setFinalException f exc =>
    match s.futures[f]? with
    | none => true
    | some fut => s.idle f && !fut.finishRaises o.raises (.exception exc)
  | .refreshSchema f | .setKeyspaceCompleted f => s.idle f
  | _ => true

def timerAlone (o : Oracle) (s : Session) (f : FutureId) : Bool :=
  match s.futures[f]? with
  | none => true
  | some fut =>
    match fut.timer with
    | some ⟨.timeout, true⟩ => s.timeoutAlone f
    | some ⟨.speculative, true⟩ => fut.event || !(fut.timeout.isSome && o.late) || s.timeoutAlone f
    | _ => true

/-- Whatever completes a future comes last. -/
def endsAlone (s : Session) (a : Oracle × Act) : Bool :=
  match a.2 with
  | .call index =>
    match s.calls[index]? with
    | none => true
    | some call => ({ s with calls := s.calls.eraseIdx index } : Session).callAlone a.1 call
  | .timer f => s.timerAlone a.1 f
  | _ => true

end Session

theorem idle_iff {s : Session} {f : FutureId} : s.idle f ↔ ¬ s.Busy f := by
  simp [idle, Busy]

/-! ## What a step may do to the futures -/

def Once (s : Session) : Prop :=
  ∀ (f : FutureId) (x : Completion), s.completions[f]? = some x → CompletedOnce x ∧ (x.event = true → ¬ s.Busy f)

def Open (s : Session) (f : FutureId) : Prop := ∀ x : Completion, s.completions[f]? = some x → x.event = false

structure Quiet (g : FutureId) (s s' : Session) : Prop where
  completions : s'.completions = s.completions
  busy : ∀ f, f ≠ g → s'.Busy f → s.Busy f

structure Advance (s s' : Session) : Prop where
  once : Once s'
  settled : ∀ (f : FutureId) (x : Completion), s.completions[f]? = some x → x.event = true → s'.completions[f]? = some x

variable {g f : FutureId} {s s' s'' : Session} {c : ConnId} {conn conn' : Connection Callback} {fut : ResponseFuture}
  {cb : Callback} {noHosts : Bool} {resp : Response} {a : Oracle × Act} {x : Completion}

theorem Quiet.trans (h : Quiet g s s') (h' : Quiet g s' s'') : Quiet g s s'' :=
  ⟨h'.completions.trans h.completions, fun f hf hb => h.busy f hf (h'.busy f hf hb)⟩

theorem Upkeep.quiet (h : Upkeep s s') (g : FutureId) : Quiet g s s' :=
  ⟨h.completions, fun f _ hb => h.busy f hb⟩

theorem quiet_modFuture (s : Session) (f : FutureId) (g : ResponseFuture → ResponseFuture)
    (h : ∀ fut, (g fut).completion = fut.completion) : Quiet f s (s.modFuture f g) :=
  ⟨map_modify h f, fun _ _ hb => hb⟩

theorem Advance.trans (h : Advance s s') (h' : Advance s' s'') : Advance s s'' :=
  ⟨h'.once, fun f x hx he => h'.settled f x (h.settled f x hx he) he⟩

theorem open_of_busy (h : Once s) (hb : s.Busy f) : Open s f := by
  intro x hx
  by_contra he
  exact (h f x hx).2 (by simpa using he) hb

theorem Quiet.open (h : Quiet g s s') (ho : Open s g) : Open s' g := by
  intro x hx
  rw [h.completions] at hx
  exact ho x hx

theorem advance_of_quiet (hs : Once s) (ho : Open s g) (h : Quiet g s s') : Advance s s' := by
  refine ⟨?_, fun f x hx _ => by rwa [h.completions]⟩
  intro f x hx
  rw [h.completions] at hx
  refine ⟨(hs f x hx).1, fun he hb => ?_⟩
  by_cases hf : f = g
  · subst hf
    rw [ho x hx] at he
    cases he
  · exact (hs f x hx).2 he (h.busy f hf hb)

theorem advance_of_less (hs : Once s) (hc : s'.completions = s.completions)
    (hbs : ∀ f, s'.Busy f → s.Busy f) : Advance s s' := by
  refine ⟨?_, fun f x hx _ => by rwa [hc]⟩
  intro f x hx
  rw [hc] at hx
  exact ⟨(hs f x hx).1, fun he hb => (hs f x hx).2 he (hbs f hb)⟩

theorem advance_of_upkeep (hs : Once s) (h : Upkeep s s') : Advance s s' :=
  advance_of_less hs h.completions h.busy

theorem quiet_submit (s : Session) {g : FutureId} {call : Call} (h : call.future = some g) :
    Quiet g s (s.submit call) := by
  refine ⟨rfl, ?_⟩
  rintro f hf (hb | ⟨x, hx, hxf⟩)
  · exact .inl hb
  simp only [submit, mem_append, mem_singleton] at hx
  rcases hx with hx | rfl
  · exact .inr ⟨x, hx, hxf⟩
  rw [h, Option.some.injEq] at hxf
  exact absurd hxf.symm hf

theorem busy_countedDown {s : Session} {f : FutureId} {c : ConnId} {g : FutureId} :
    (s.countedDown f c).Busy g ↔ s.Busy g := by
  unfold Busy
  rw [countedDown_entries]
  rfl

theorem quiet_countedDown {g : FutureId} {s : Session} {f : FutureId} {c : ConnId} : Quiet g s (s.countedDown f c) :=
  ⟨rfl, fun _ _ hb => (busy_countedDown ..).mp hb⟩

variable {o : Oracle} {raises : UserFn → Bool} {outcome : Outcome} {d : Decoding Callback Response Response}

theorem quiet_returnConnection {s : Session} {f : FutureId} (p : PoolId) {c : ConnId} {g : FutureId} :
    Quiet g s (s.returnConnection o f p c) := by
  exact quiet_countedDown.trans ((upkeep_returnConnection o s f p c).quiet g)

theorem quiet_set (hcn : s.conns[c]? = some conn) (hconns : s'.conns = s.conns.set c conn')
    (hcl : s'.calls = s.calls) (hcm : s'.completions = s.completions)
    (hreq : ∀ cb ∈ conn'.requests.values, cb.future = g ∨ cb ∈ conn.requests.values) : Quiet g s s' := by
  refine ⟨hcm, ?_⟩
  rintro f hf (⟨cb, hcb, hcbf⟩ | hc)
  · rw [Session.entries, hconns] at hcb
    have hmem := (flatMap_set_perm _ conn' hcn).mem_iff.mp hcb
    refine .inl ⟨cb, (entries_perm hcn).mem_iff.mpr ?_, hcbf⟩
    rw [mem_append] at hmem ⊢
    rcases hmem with hmem | hmem
    · rcases hreq cb hmem with hg | hold
      · exact absurd (hcbf.symm.trans hg) hf
      · exact .inl hold
    · exact .inr hmem
  rw [hcl] at hc
  exact .inr hc

theorem registerOn_values {rid : Int} (hid : getRequestId conn = some (rid, conn')) {cb : Callback} :
    ∀ x ∈ (registerOn conn conn' rid cb).requests.values, x.future = cb.future ∨ x ∈ conn.requests.values := by
  intro x hx
  have hmem := (Dict.values_set conn'.requests rid cb).mem_iff.mp hx
  rw [getRequestId_requests hid] at hmem
  rcases mem_cons.mp hmem with rfl | hmem
  · exact .inl rfl
  · exact .inr (Dict.values_erase_subset _ _ hmem)

theorem completions_lendAndSend {s : Session} {f : FutureId} {c : ConnId} {conn : Connection Callback} (raised : Bool) :
    (s.lendAndSend f c conn raised).completions = s.completions :=
  (quiet_modFuture (s.lend f c conn) f (fun fut => { fut with connection := some c })
    fun _ => rfl).completions

theorem quiet_query (o : Oracle) (s : Session) (f : FutureId) (host : Host) (ag : Option Callback) :
    Quiet f s (s.query o f host ag).1 := by
  rcases query_cases o s f host ag with ⟨-, hup⟩ | ⟨p, pool, c, conn, -, hc, hout⟩
  · exact hup.quiet f
  have hcb := boundCallback_future s f host p c ag
  generalize s.boundCallback f host p c ag = cb at hout hcb
  generalize (s.query o f host ag).2 = result at hout
  cases hout with
  | full h => exact h.quiet f
  | exhausted hr hid h =>
    refine Quiet.trans ?_ (h.quiet f)
    exact quiet_set hc rfl rfl rfl fun x hx => .inr hx
  | shutdown rid conn' hid h =>
    refine (Quiet.trans ?_ (quiet_countedDown ..)).trans (h.quiet f)
    refine quiet_set hc rfl rfl (completions_lendAndSend ..) fun x hx => .inr ?_
    rwa [← getRequestId_requests hid]
  | raised hr rid conn' hid h =>
    refine (Quiet.trans ?_ (quiet_countedDown ..)).trans (h.quiet f)
    exact quiet_set hc rfl rfl (completions_lendAndSend ..) (hcb ▸ registerOn_values hid)
  | sent hr rid conn' hid h =>
    refine Quiet.trans ?_ (h.quiet f)
    exact quiet_set hc rfl rfl (completions_lendAndSend ..) (hcb ▸ registerOn_values hid)

/-! ## Completion -/

theorem calledUntilRaise_first (raises : UserFn → Bool) (fns : List UserFn) : calledUntilRaise raises fns <+: fns := by
  induction fns with
  | nil => exact prefix_rfl
  | cons fn rest ih =>
    unfold calledUntilRaise
    split
    · exact ⟨rest, rfl⟩
    · exact cons_prefix_cons.mpr ⟨rfl, ih⟩

theorem completedOnce_finish {oc : Outcome} (h : CompletedOnce fut.completion) (ho : fut.event = false) :
    CompletedOnce (fut.finish raises oc).completion := by
  cases h with
  | pending _ hres hexc hh =>
    have hh : fut.history = [] := hh
    cases oc with
    | result ress =>
      refine .result ress _ rfl rfl hexc (calledUntilRaise_first raises fut.callbacks) ?_
      simp [ResponseFuture.completion, ResponseFuture.finish, ResponseFuture.cancelTimer, hh]
    | exception exc =>
      refine .exception exc _ rfl hres rfl (calledUntilRaise_first raises fut.errbacks) ?_
      simp [ResponseFuture.completion, ResponseFuture.finish, ResponseFuture.cancelTimer, hh]
  | result _ _ he | exception _ _ he => exact absurd (ho.symm.trans he) (by decide)

theorem completions_modFuture {s : Session} {g f : FutureId} (h : ResponseFuture → ResponseFuture) :
    (s.modFuture g h).completions[f]? =
      if g = f then s.futures[f]?.map fun fut => (h fut).completion else s.completions[f]? :=
  getElem?_map_modify s.futures h completion g f

theorem advance_finish (o : Oracle) (oc : Outcome) (hs : Once s) (ho : Open s g) (hi : ¬ s.Busy g) :
    Advance s (s.finish o g oc) := by
  unfold Session.finish
  constructor
  · intro f x hx
    rw [completions_modFuture] at hx
    split at hx
    · rename_i hf
      subst hf
      rw [Option.map_eq_some_iff] at hx
      obtain ⟨fut, hfut, rfl⟩ := hx
      have hget : s.completions[g]? = some fut.completion := by rw [completions, getElem?_map, hfut]; rfl
      exact ⟨completedOnce_finish (hs g _ hget).1 (ho _ hget), fun _ => hi⟩
    · exact hs f x hx
  intro f x hx he
  rw [completions_modFuture]
  split
  · rename_i hf
    subst hf
    rw [ho x hx] at he
    cases he
  · exact hx

/-! ## The handlers -/

theorem Advance.refl (hs : Once s) : Advance s s := ⟨hs, fun _ _ hx _ => hx⟩

theorem Advance.upkeep (h : Advance s s') (h' : Upkeep s' s'') : Advance s s'' :=
  h.trans (advance_of_upkeep h.once h')

theorem timeoutAlone_own {reqId : Int} (h : s.timeoutAlone f) (hf : s.futures[f]? = some fut)
    (hc : fut.connection = some c) (hcn : s.conns[c]? = some conn) (hr : fut.reqId = some reqId)
    (hget : conn.requests.get? reqId = some cb)
    (ht : timeoutRequest conn reqId (s.openPoolOf fut.currentHost).isSome = some conn') :
    cb.future = f ∧ ¬ ({ s with conns := s.conns.set c conn' } : Session).Busy f := by
  simp only [timeoutAlone, hf, hc, hr, hcn, hget, ht, Bool.and_eq_true, beq_iff_eq, idle_iff] at h
  exact h

theorem timeoutAlone_timer (s : Session) (f : FutureId) (t : ResponseFuture → Option Timer) :
    (s.modFuture f fun fut => { fut with timer := t fut }).timeoutAlone f = s.timeoutAlone f := by
  unfold timeoutAlone modFuture
  rw [getElem?_modify_eq]
  cases s.futures[f]? <;> rfl

theorem advance_onTimeout (o : Oracle) (hs : Once s) (ha : s.timeoutAlone f) :
    Advance s (s.onTimeout o f).1 := by
  cases hf : s.futures[f]? with
  | none =>
    unfold onTimeout
    rw [hf]
    exact Advance.refl hs
  | some fut =>
    rcases onTimeout_cases o s hf with ⟨hsm, -⟩ | ⟨c, conn, reqId, cb, conn', s', hc, hcn, hr, hget, ht, hup, hfin⟩
    · rw [hsm]
      exact Advance.refl hs
    obtain ⟨hown, hi⟩ := timeoutAlone_own ha hf hc hcn hr hget ht
    have hreq : conn'.requests = conn.requests.erase reqId := by rw [(timeoutRequest_eq_some ht).2]
    -- The request that is found is one of the future, so the future is not complete.
    have ho : Open s f := by
      refine open_of_busy hs (.inl ⟨cb, mem_entries.mpr ⟨conn, mem_of_getElem? hcn, ?_⟩, hown⟩)
      exact (Dict.values_of_get? hget).mem_iff.mpr mem_cons_self
    have hpop : Quiet f s { s with conns := s.conns.set c conn' } := by
      refine quiet_set hcn rfl rfl rfl fun x hx => .inr ?_
      rw [hreq] at hx
      exact Dict.values_erase_subset _ _ hx
    have hq : Quiet f s s' ∧ ¬ s'.Busy f := by
      rcases hup with ⟨-, rfl⟩ | ⟨p, -, rfl⟩
      · exact ⟨hpop, hi⟩
      have hup := upkeep_returnConnection o { s with conns := s.conns.set c conn' } f p c
      refine ⟨(hpop.trans (quiet_countedDown ..)).trans (hup.quiet f), fun hb => hi ?_⟩
      exact (busy_countedDown ..).mp (hup.busy f hb)
    rw [hfin]
    have hadv := advance_of_quiet hs ho hq.1
    exact hadv.trans (advance_finish o _ hadv.once (hq.1.open ho) hq.2)

theorem advance_sendRequest (o : Oracle) (hs : Once s) (ho : Open s f)
    (ha : s.noHostsAlone f noHosts) : Advance s (s.sendRequest o f noHosts) := by
  unfold sendRequest
  split
  · exact Advance.refl hs
  rename_i fut hf
  split
  · rename_i hp
    split
    · rename_i herr
      refine advance_finish o _ hs ho ?_
      rw [← idle_iff]
      simpa [noHostsAlone, hf, hp, herr] using ha
    · exact advance_of_upkeep hs (upkeep_startTimer o s f)
  rename_i host rest hp
  have hp : Quiet f s (s.modFuture f fun fut => { fut with queryPlan := rest }) :=
    quiet_modFuture s f _ fun _ => rfl
  have hqr := hp.trans (quiet_query o _ f host none)
  split <;> rename_i hq <;> rw [hq] at hqr
  · exact advance_of_quiet hs ho (hqr.trans ((upkeep_submit rfl).quiet f))
  · exact advance_of_quiet hs ho (hqr.trans (quiet_submit _ rfl))

theorem advance_sendFailed (hs : Once s) (ho : Open s f) (ha : s.callAlone o (.sendFailed f noHosts)) :
    Advance s (s.sendFailed o f noHosts) := by
  unfold sendFailed
  unfold callAlone at ha
  split
  · exact Advance.refl hs
  rename_i fut hf
  simp only [hf] at ha
  split
  · rename_i hl
    rw [if_pos hl] at ha
    have hadv := advance_onTimeout o hs ha
    simp only
    split
    · exact hadv
    · exact hadv.upkeep (upkeep_startTimer ..)
  rename_i hl
  rw [if_neg hl] at ha
  exact advance_sendRequest o hs ho ha

theorem advance_fireTimer (hs : Once s) (ha : s.timerAlone o f) : Advance s (s.fireTimer o f) := by
  unfold fireTimer
  unfold timerAlone at ha
  split
  · exact Advance.refl hs
  rename_i fut hf
  simp only [hf] at ha
  split
  · rename_i ht
    simp only [ht] at ha
    have hadv := advance_of_upkeep hs (upkeep_modFuture s f cancelTimer fun _ => rfl)
    exact hadv.trans (advance_onTimeout o hadv.once ((timeoutAlone_timer ..).trans ha))
  · rename_i ht
    simp only [ht] at ha
    have hadv := advance_of_upkeep hs (upkeep_modFuture s f (fun fut => { fut with timer := none }) fun _ => rfl)
    unfold onSpeculativeExecute
    simp only [hf]
    split
    · exact hadv
    rename_i he
    split
    · rename_i hl
      rw [hl] at ha
      have ha : s.timeoutAlone f := by simpa [he] using ha
      exact hadv.trans (advance_onTimeout o hadv.once ((timeoutAlone_timer ..).trans ha))
    have ho : Open s f := by
      intro x hx
      rw [completions, getElem?_map, hf, Option.map_some, Option.some.injEq] at hx
      rw [← hx]
      exact Bool.eq_false_iff.mpr he
    exact advance_of_quiet hs ho
      ((quiet_modFuture s f (fun fut => { fut with timer := none }) fun _ => rfl).trans (quiet_submit _ rfl))
  · exact Advance.refl hs

theorem finishRaises_congr {fut' : ResponseFuture} (h : fut'.completion = fut.completion) :
    fut'.finishRaises raises outcome = fut.finishRaises raises outcome := by
  cases outcome with
  | result _ => exact congrArg (fun x : Completion => x.callbacks.any raises) h
  | exception _ => exact congrArg (fun x : Completion => x.errbacks.any raises) h

theorem settle_eq_finish (h : ∀ fut, s.futures[f]? = some fut → fut.finishRaises o.raises outcome = false) :
    s.settle o f outcome = s.finish o f outcome := by
  unfold settle modFuture
  congr 1
  apply ext_getElem?
  intro i
  rw [getElem?_modify, getElem?_modify]
  by_cases hi : f = i
  · subst hi
    cases hf : s.futures[f]? with
    | none => rfl
    | some fut => simp [h fut hf]
  · simp [hi]

theorem advance_retry (hs : Once s) (ho : Open s f) (ru : Bool) (host : Host) : Advance s (s.retry f ru host) := by
  unfold retry
  split
  · exact Advance.refl hs
  split
  · exact Advance.refl hs
  · exact advance_of_quiet hs ho (quiet_submit _ rfl)

theorem advance_setResult (hs : Once s) (ho : Open s cb.future) (ha : s.callAlone o (.setResult cb resp)) :
    Advance s (s.setResult o cb resp) := by
  unfold setResult
  unfold callAlone at ha
  split
  · exact Advance.refl hs
  rename_i fut hf
  simp only [hf] at ha
  have hn := upkeep_note o s cb.future fut resp
  generalize (s.noteStatement fut resp).modFuture cb.future (noteResponse o resp) = s' at hn ⊢
  have hadv := advance_of_upkeep hs hn
  have ho' := (hn.quiet cb.future).open ho
  have hsub : ∀ call, call.future = some cb.future → Advance s (s'.submit call) := fun call h =>
    hadv.trans (advance_of_quiet hadv.once ho' (quiet_submit _ h))
  cases hv : s.verdict o fut resp with
  | final outcome =>
    simp only [hv, Bool.and_eq_true, Bool.not_eq_true', idle_iff] at ha
    have hset : s'.settle o cb.future outcome = s'.finish o cb.future outcome := by
      apply settle_eq_finish
      intro fut' hf'
      obtain ⟨fut₁, hf₁, hcmp⟩ := exists_future hn.completions hf
      rw [hf'] at hf₁
      cases hf₁
      rw [finishRaises_congr hcmp]
      exact ha.2
    have hfin := hadv.trans (advance_finish o outcome hadv.once ho' fun hb => ha.1 (hn.busy _ hb))
    simp only [hset]
    split
    · split
      · exact hfin.upkeep (upkeep_addError ..)
      · exact hfin
    · exact hfin
  | setKeyspace | schemaChange | reprepare => exact hsub _ rfl
  | retry ru =>
    have hr := hadv.trans (advance_retry hadv.once ho' ru cb.host)
    simp only
    split
    · exact hr.upkeep (upkeep_addError ..)
    · exact hr
  | connectionError =>
    have hdef := (upkeep_defunctOwn s' fut).quiet cb.future
    exact hadv.trans (advance_of_quiet hadv.once ho' (hdef.trans (quiet_submit _ rfl)))
  | unexpected =>
    have hcan := quiet_modFuture s' cb.future cancelTimer fun _ => rfl
    have hdef := hcan.trans ((upkeep_defunctOwn _ fut).quiet cb.future)
    exact hadv.trans (advance_of_quiet hadv.once ho' (hdef.trans (quiet_submit _ rfl)))

theorem quiet_queryOrSend (o : Oracle) (s : Session) (f : FutureId) (host : Host) (ag : Option Callback) :
    Quiet f s (s.queryOrSend o f host ag) := by
  have hqr := quiet_query o s f host ag
  unfold queryOrSend
  split <;> rename_i hq <;> rw [hq] at hqr
  · exact hqr
  · exact hqr.trans (quiet_submit _ rfl)

theorem advance_retryTask (hs : Once s) (ho : Open s f) {ru : Bool} {host : Host} :
    Advance s (s.retryTask o f ru host) := by
  unfold retryTask
  split
  · exact Advance.refl hs
  split
  · exact Advance.refl hs
  split
  · exact advance_of_quiet hs ho (quiet_queryOrSend ..)
  · exact advance_of_quiet hs ho (quiet_submit _ rfl)

theorem advance_afterPrepare (hs : Once s) (ho : Open s cb.future) (ha : s.callAlone o (.afterPrepare cb resp)) :
    Advance s (s.afterPrepare o cb resp) := by
  have hsub : ∀ e, Advance s ((s.addError cb.future cb.host e).submit (.sendRequest cb.future true)) := fun e =>
    advance_of_quiet hs ho (((upkeep_addError s cb.future cb.host e).quiet cb.future).trans (quiet_submit _ rfl))
  unfold afterPrepare
  split
  · exact Advance.refl hs
  split
  · exact Advance.refl hs
  cases resp with
  | prepared _ => exact advance_of_quiet hs ho (quiet_queryOrSend ..)
  | connectionException => exact hsub _
  | connectionShutdown => exact hsub _
  | _ =>
    simp only [callAlone, idle_iff] at ha
    exact advance_finish o _ hs ho ha

theorem advance_runCall {call : Call} (hs : Once s) (ho : ∀ f, call.future = some f → Open s f)
    (ha : s.callAlone o call) : Advance s (s.runCall o call) := by
  cases call with
  | callback cb resp =>
    have ho := ho cb.future rfl
    simp only [runCall]
    split
    · have hn := quiet_modFuture s cb.future (fun fut => { fut with coordinatorHost := some cb.host }) fun _ => rfl
      exact advance_of_quiet hs ho ((hn.trans (quiet_returnConnection ..)).trans (quiet_submit _ rfl))
    · exact advance_of_quiet hs ho (quiet_submit _ rfl)
  | executeAfterPrepare cb resp =>
    exact advance_of_quiet hs (ho cb.future rfl) ((quiet_returnConnection ..).trans (quiet_submit _ rfl))
  | setResult cb resp => exact advance_setResult hs (ho cb.future rfl) ha
  | afterPrepare cb resp => exact advance_afterPrepare hs (ho cb.future rfl) ha
  | sendRequest f noHosts => exact advance_sendRequest o hs (ho f rfl) ha
  | requestSent f rid noHosts =>
    have hup := upkeep_modFuture s f (fun fut => { fut with reqId := some rid }) fun _ => rfl
    simp only [runCall]
    split
    · exact advance_of_upkeep hs hup
    · exact advance_of_upkeep hs (hup.trans (upkeep_startTimer ..))
  | sendFailed f noHosts => exact advance_sendFailed hs (ho f rfl) ha
  | retry f ru host => exact advance_retry hs (ho f rfl) ru host
  | retryTask f ru host => exact advance_retryTask hs (ho f rfl)
  | reprepare cb => exact advance_of_quiet hs (ho cb.future rfl) (quiet_queryOrSend ..)
  | setFinalException f exc =>
    cases hf : s.futures[f]? with
    | none =>
      have hsm : s.settle o f (.exception exc) = s := by
        simp only [settle, modFuture, modify_eq_self (getElem?_eq_none_iff.mp hf)]
      rw [runCall, hsm]
      exact Advance.refl hs
    | some fut =>
      simp only [callAlone, hf, Bool.and_eq_true, Bool.not_eq_true', idle_iff] at ha
      have hset : s.settle o f (.exception exc) = s.finish o f (.exception exc) := by
        apply settle_eq_finish
        intro fut' hf'
        rw [hf] at hf'
        cases hf'
        exact ha.2
      rw [runCall, hset]
      exact advance_finish o _ hs (ho f rfl) ha.1
  | refreshSchema f =>
    simp only [callAlone, idle_iff] at ha
    have hn := upkeep_modFuture s f (fun fut => { fut with isSchemaAgreed := o.schemaAgreed }) fun _ => rfl
    have hadv := advance_of_upkeep hs hn
    exact hadv.trans (advance_finish o _ hadv.once ((hn.quiet f).open (ho f rfl)) ha)
  | setKeyspaceCompleted f =>
    simp only [callAlone, idle_iff] at ha
    simp only [runCall]
    split <;> exact advance_finish o _ hs (ho f rfl) ha
  | replace p => exact advance_of_upkeep hs (PoolWork.refl.replace o p).upkeep
  | createNewConnection p => exact advance_of_upkeep hs (PoolWork.refl.createNewConnection o p).upkeep
  | shutdownPool p => exact advance_of_upkeep hs (PoolWork.refl.shutdownPool p).upkeep

/-! ## Steps and runs -/

theorem advance_execute (hs : Once s) (tmo : Option Nat) (plan : List Host) (pst : Option PreparedStatement)
    (cbs ebs : List UserFn) : Advance s (s.execute o tmo plan pst cbs ebs) := by
  have hnew : (s.execute o tmo plan pst cbs ebs).completions =
      s.completions ++ [⟨false, none, none, cbs, ebs, []⟩] := by
    simp only [execute, completions, submit, map_append, map_cons, startTimer_completion]
    rfl
  have hbs : ∀ f, f ≠ s.futures.length → (s.execute o tmo plan pst cbs ebs).Busy f → s.Busy f := fun f hf hb =>
    (quiet_submit { s with futures := _ } rfl).busy f hf hb
  have hlen : s.completions.length = s.futures.length := by simp [completions]
  constructor
  · intro f x hx
    rw [hnew] at hx
    by_cases hf : f < s.completions.length
    · rw [getElem?_append_left hf] at hx
      exact ⟨(hs f x hx).1, fun he hb => (hs f x hx).2 he (hbs f (Nat.ne_of_lt (hlen ▸ hf)) hb)⟩
    rw [getElem?_append_right (Nat.le_of_not_lt hf)] at hx
    have hx := mem_singleton.mp (mem_of_getElem? hx)
    subst hx
    exact ⟨.pending rfl rfl rfl rfl, fun he => by cases he⟩
  intro f x hx _
  rw [hnew]
  exact getElem?_append_left (List.getElem?_eq_some_iff.mp hx).1 ▸ hx

theorem advance_step (hs : Once s) (ha : s.endsAlone a) (hp : ∀ f plan, a.2 ≠ .startFetchingNextPage f plan) :
    Advance s (step d s a) := by
  obtain ⟨o, act⟩ := a
  cases act with
  | execute tmo plan pst cbs ebs => exact advance_execute hs ..
  | startFetchingNextPage f plan => exact absurd rfl (hp f plan)
  | call idx =>
    simp only [step]
    simp only [endsAlone] at ha
    split
    · exact Advance.refl hs
    rename_i call hc
    simp only [hc] at ha
    have hl : Advance s { s with calls := s.calls.eraseIdx idx } := by
      refine advance_of_less hs rfl ?_
      rintro f (hf | ⟨x, hx, hxf⟩)
      · exact .inl hf
      · exact .inr ⟨x, mem_of_mem_eraseIdx hx, hxf⟩
    refine hl.trans (advance_runCall hl.once ?_ ha)
    intro f hf
    have ho : Open s f := open_of_busy hs (.inr ⟨call, mem_of_getElem? hc, hf⟩)
    exact ho
  | processMsg c fr => exact advance_of_upkeep hs (upkeep_processMsg d s c fr)
  | timer f => exact advance_fireTimer hs ha
  | defunct c => exact advance_of_upkeep hs (upkeep_defunctConn s c)
  | close c => exact advance_of_upkeep hs (upkeep_closeConn s c)
  | addOrRenewPool pool n => exact advance_of_upkeep hs (PoolWork.refl.addOrRenewPool pool n).upkeep
  | removePool host => exact advance_of_upkeep hs (PoolWork.refl.removePool host).upkeep
  | setKeyspace c ks => exact advance_of_upkeep hs (upkeep_keyspace s c ks)

theorem startFetchingNextPage_once (hs : Once s) {g : FutureId} (queryPlan : List Host) :
    Once (s.startFetchingNextPage o g queryPlan) ∧
      ∀ f, f ≠ g → (s.startFetchingNextPage o g queryPlan).completions[f]? = s.completions[f]? := by
  unfold startFetchingNextPage
  split
  · exact ⟨hs, fun _ _ => rfl⟩
  split
  · have hsm : ∀ f, (s.modFuture g fun fut =>
        { fut with queryPlan, event := false, finalResult := none, finalException := none, history := [] }.startTimer
          o).completions[f]? = if g = f then s.futures[f]?.map fun fut =>
            ⟨false, none, none, fut.callbacks, fut.errbacks, []⟩ else s.completions[f]? := by
      intro f
      rw [completions_modFuture]
      simp only [startTimer_completion]
      rfl
    have hq := @quiet_submit (s.modFuture g fun fut =>
        { fut with queryPlan, event := false, finalResult := none, finalException := none, history := [] }.startTimer o)
      g (.sendRequest g true) rfl
    constructor
    · intro f x hx
      rw [hq.completions, hsm] at hx
      split at hx
      · rw [Option.map_eq_some_iff] at hx
        obtain ⟨fut, -, rfl⟩ := hx
        exact ⟨.pending rfl rfl rfl rfl, fun he => by cases he⟩
      rename_i hne
      exact ⟨(hs f x hx).1, fun he hb => (hs f x hx).2 he (hq.busy f (Ne.symm hne) hb)⟩
    intro f hne
    rw [hq.completions, hsm, if_neg (Ne.symm hne)]
  · exact ⟨hs, fun _ _ => rfl⟩

theorem step_once (s : Session) {a : Oracle × Act} (hs : Once s) (hal : s.endsAlone a) : Once (step d s a) := by
  by_cases hp : ∃ f plan, a.2 = .startFetchingNextPage f plan
  · obtain ⟨f, plan, ha⟩ := hp
    simp only [step, ha]
    exact (startFetchingNextPage_once hs plan).1
  simp only [not_exists] at hp
  exact (advance_step hs hal hp).once

theorem step_settled (hs : Once s) (hal : s.endsAlone a) (hp : ∀ plan, a.2 ≠ .startFetchingNextPage f plan)
    (hx : s.completions[f]? = some x) (he : x.event) : (step d s a).completions[f]? = some x := by
  by_cases ho : ∃ g plan, a.2 = .startFetchingNextPage g plan
  · obtain ⟨g, plan, ha⟩ := ho
    have hne : f ≠ g := by
      rintro rfl
      exact hp plan ha
    simp only [step, ha]
    rw [(startFetchingNextPage_once hs plan).2 f hne]
    exact hx
  simp only [not_exists] at ho
  exact (advance_step hs hal ho).settled f x hx he

theorem run_settled (d : Decoding Callback Response Response) {acts : List (Oracle × Act)} (hs : Once s)
    (hal : RunOk (step d) (fun s a => s.endsAlone a) s acts)
    (hp : ∀ a ∈ acts, ∀ plan, a.2 ≠ .startFetchingNextPage f plan) (hx : s.completions[f]? = some x)
    (he : x.event) : (run (step d) s acts).completions[f]? = some x := by
  induction acts generalizing s with
  | nil => exact hx
  | cons a acts ih =>
    obtain ⟨ha, hac⟩ := hal
    rw [forall_mem_cons] at hp
    exact ih (step_once s hs ha) hac hp.2 (step_settled hs ha hp.1 hx he)

theorem once_start (pv mif : Nat) (pss : Dict Nat PreparedStatement) : Once (Session.start pv mif pss) := by
  intro f x hx
  cases hx

def twoPages : List (Oracle × Act) :=
  andCalls (.addOrRenewPool (fixedPool .hostConnection 0) 1) 0 ++
    andCalls (.addOrRenewPool (fixedPool .hostConnection 1) 1) 0 ++ andCalls (.execute none [0, 1] none [7] []) 2 ++
    andCalls (answer 0 0 0) 5 ++ andCalls (answer 1 0 1) 2 ++ andCalls (.startFetchingNextPage 0 [1]) 2 ++
    andCalls (answer 1 1 2) 2

end CqlDriver.Requests
