import CqlDriver.Requests.Timeout

/-! # The deadline of a page request -/

namespace CqlDriver.Requests

open Lib Conn Session List Option

structure Timing where
  timeout : Option Nat
  event : Bool
  timer : Option Timer

def ResponseFuture.timing (fut : ResponseFuture) : Timing := ⟨fut.timeout, fut.event, fut.timer⟩

def Session.timingOf (s : Session) (f : FutureId) : Option Timing := s.futures[f]?.map ResponseFuture.timing

/-- `_on_speculative_execute` is under way, with its `_start_timer` to come. -/
def Call.restarts (f : FutureId) : Call → Bool
  | .sendRequest g false | .requestSent g _ false | .sendFailed g false => g == f
  | _ => false

/-- `_set_result` has canceled the timer, with its `_set_final_exception` to come. -/
def Call.completes (f : FutureId) : Call → Bool
  | .setFinalException g _ => g == f
  | _ => false

def Timing.Armed (t : Timing) : Prop := ∃ timer ∈ t.timer, timer.pending = true

/-- An open future with a timeout has its timer, or `r` holds. -/
def Due (s : Session) (f : FutureId) (r : Prop) : Prop :=
  ∀ t ∈ s.timingOf f, t.timeout.isSome = true → t.event = false →
    t.Armed ∨ (t.timer = none ∧ r) ∨ ∃ call ∈ s.calls, call.completes f = true

def HasDeadline (s : Session) (f : FutureId) : Prop := Due s f (∃ call ∈ s.calls, call.restarts f = true)

/-- `HasDeadline` for a future whose `_start_timer` is about to run. -/
def Restarting (s : Session) (f : FutureId) : Prop := Due s f True

def Session.timeoutOf (s : Session) (a : Oracle × Act) : Option FutureId :=
  match a.2 with
  | .timer f =>
    match s.futures[f]? with
    | none => none
    | some fut =>
      match fut.timer with
      | some ⟨.timeout, true⟩ => some f
      | some ⟨.speculative, true⟩ => if !fut.event && (fut.timeout.isSome && a.1.late) then some f else none
      | _ => none
  | .call index =>
    match s.calls[index]? with
    | some (.sendFailed f _) =>
      match s.futures[f]? with
      | none => none
      | some fut => if fut.timeout.isSome && a.1.late then some f else none
    | _ => none
  | _ => none

def Complete (s : Session) (f : FutureId) : Prop := ∀ t ∈ s.timingOf f, t.event = true

/-! ## What leaves the timers alone -/

structure TimersKept (s s' : Session) : Prop where
  timings : ∀ f, s'.timingOf f = s.timingOf f
  calls : s.calls ⊆ s'.calls

structure TimersKeptBut (g : FutureId) (s s' : Session) : Prop where
  timings : ∀ f, f ≠ g → s'.timingOf f = s.timingOf f
  calls : s.calls ⊆ s'.calls

variable {s s' s'' : Session} {f g : FutureId}

namespace TimersKept

theorem refl (s : Session) : TimersKept s s := ⟨fun _ => rfl, Subset.refl _⟩

variable (h : TimersKept s s')
include h

theorem trans (h' : TimersKept s' s'') : TimersKept s s'' :=
  ⟨fun f => (h'.timings f).trans (h.timings f), Subset.trans h.calls h'.calls⟩

theorem of_eq (hf : s''.futures = s'.futures) (hc : s'.calls ⊆ s''.calls) : TimersKept s s'' :=
  h.trans ⟨fun f => by unfold timingOf; rw [hf], hc⟩

theorem submit (call : Call) : TimersKept s (s'.submit call) :=
  h.of_eq rfl (subset_append_left ..)

theorem modFuture (f : FutureId) (k : ResponseFuture → ResponseFuture)
    (hk : ∀ fut, (k fut).timing = fut.timing) : TimersKept s (s'.modFuture f k) := by
  refine h.trans ⟨fun g => ?_, fun _ => id⟩
  unfold timingOf Session.modFuture
  rw [← getElem?_map, ← getElem?_map, map_modify hk]

theorem addError (f : FutureId) (host : Host) (e : HostError) :
    TimersKept s (s'.addError f host e) := h.modFuture f _ fun _ => rfl

theorem stopConn (stop : Connection Callback → Connection Callback × List Callback)
    (c : ConnId) : TimersKept s (s'.stopConn stop c) := by
  unfold Session.stopConn
  split
  · exact h
  · exact h.of_eq rfl (subset_append_left ..)

theorem closeConn (c : ConnId) : TimersKept s (s'.closeConn c) := h.stopConn close c

theorem defunctConn (c : ConnId) : TimersKept s (s'.defunctConn c) :=
  h.stopConn defunct c

theorem work (hw : PoolWork s' s'') : TimersKept s s'' := by
  induction hw with
  | refl => exact h
  | pools _ pools poolOf ih | signaled _ c ih | connect _ ih => exact ih.of_eq rfl fun _ => id
  | close _ c ih => exact ih.closeConn c
  | submit _ call _ ih => exact ih.submit call

theorem returnConnection (o : Oracle) (f : FutureId) (p : PoolId) (c : ConnId) :
    TimersKept s (s'.returnConnection o f p c) := by
  have hd : TimersKept s { s'.modConn c giveBack with returned := (f, c) :: s'.returned } :=
    h.of_eq rfl fun _ => id
  exact hd.work (PoolWork.returnConnection o s' f p c)

theorem processMsg (d : Decoding Callback Response Response) (c : ConnId) (fr : Frame) :
    TimersKept s (s'.processMsg d c fr) := by
  unfold Session.processMsg
  split
  · exact h
  have hset : ∀ conns, TimersKept s { s' with conns } := fun conns => h.of_eq rfl fun _ => id
  dsimp only
  split
  · exact hset _
  · exact hset _
  · exact (hset _).defunctConn c
  · exact (hset _).submit _
  · exact ((hset _).defunctConn c).submit _
  · exact ((hset _).submit _).defunctConn c

theorem query (o : Oracle) (f : FutureId) (host : Host) (ag : Option Callback) :
    TimersKept s (s'.query o f host ag).1 := by
  unfold Session.query
  split
  · exact h.addError ..
  split
  · exact h.addError ..
  split
  · exact h.addError ..
  have hh : TimersKept s (s'.modFuture f fun fut => { fut with currentHost := some host }) :=
    h.modFuture f _ fun _ => rfl
  dsimp only
  split
  · exact (hh.work (PoolWork.refl.openCore ..)).addError ..
  unfold Session.queryConn
  split
  · exact hh.addError ..
  split
  · exact hh.addError ..
  · apply TimersKept.addError
    exact hh.of_eq rfl fun _ => id
  · refine TimersKept.modFuture (TimersKept.work ?_ (PoolWork.refl.maybeSpawnNewConnection ..)) f _ fun _ => rfl
    exact hh.of_eq rfl fun _ => id
  apply TimersKept.returnConnection
  apply TimersKept.addError
  refine TimersKept.modFuture (TimersKept.work ?_ (PoolWork.refl.maybeSpawnNewConnection ..)) f _ fun _ => rfl
  exact hh.of_eq rfl fun _ => id

theorem queryOrSend (o : Oracle) (f : FutureId) (host : Host) (ag : Option Callback) :
    TimersKept s (s'.queryOrSend o f host ag) := by
  have hq := h.query o f host ag
  unfold Session.queryOrSend
  split <;> rename_i heq <;> rw [heq] at hq
  · exact hq
  · exact hq.submit _

end TimersKept

namespace TimersKeptBut

theorem trans (h : TimersKeptBut g s s') (h' : TimersKeptBut g s' s'') : TimersKeptBut g s s'' :=
  ⟨fun f hf => (h'.timings f hf).trans (h.timings f hf), Subset.trans h.calls h'.calls⟩

theorem of_kept (h : TimersKept s s') (g : FutureId) : TimersKeptBut g s s' := ⟨fun f _ => h.timings f, h.calls⟩

theorem modFuture (h : TimersKeptBut g s s') (k : ResponseFuture → ResponseFuture) :
    TimersKeptBut g s (s'.modFuture g k) := by
  refine h.trans ⟨fun f hf => ?_, fun _ => id⟩
  unfold timingOf Session.modFuture
  simp [Ne.symm hf]

end TimersKeptBut

/-! ## Deadlines -/

theorem timingOf_modFuture {s : Session} (f : FutureId) (k : ResponseFuture → ResponseFuture) :
    (s.modFuture f k).timingOf f = s.futures[f]?.map fun fut => (k fut).timing := by
  unfold timingOf Session.modFuture
  rw [getElem?_modify_eq]
  cases s.futures[f]? <;> rfl

theorem Due.mono {r r' : Prop} (h : Due s f r) (hr : r → r') (ht : s'.timingOf f = s.timingOf f)
    (hc : s.calls ⊆ s'.calls) : Due s' f r' := by
  intro t htf hto he
  rw [ht] at htf
  rcases h t htf hto he with ha | ⟨hn, hx⟩ | ⟨call, hcl, hcm⟩
  · exact .inl ha
  · exact .inr (.inl ⟨hn, hr hx⟩)
  · exact .inr (.inr ⟨call, hc hcl, hcm⟩)

theorem HasDeadline.mono (h : HasDeadline s f) (ht : s'.timingOf f = s.timingOf f) (hc : s.calls ⊆ s'.calls) :
    HasDeadline s' f := Due.mono h (fun ⟨call, hcl, hr⟩ => ⟨call, hc hcl, hr⟩) ht hc

theorem HasDeadline.kept (h : HasDeadline s f) (hk : TimersKept s s') : HasDeadline s' f :=
  h.mono (hk.timings f) hk.calls

theorem Restarting.kept (h : Restarting s f) (hk : TimersKept s s') : Restarting s' f :=
  Due.mono h id (hk.timings f) hk.calls

theorem Complete.due {r : Prop} (h : Complete s f) : Due s f r := by
  intro t ht _ he
  rw [h t ht] at he
  cases he

theorem HasDeadline.restarting (h : HasDeadline s f) : Restarting s f := Due.mono h (fun _ => trivial) rfl fun _ => id

variable {call : Call} {fut : ResponseFuture} {o : Oracle} {timer : Timer} {k : ResponseFuture → ResponseFuture}
  {noHosts : Bool} {index : Nat}

theorem Restarting.hasDeadline (h : Restarting s f) (hc : call ∈ s.calls) (hr : call.restarts f) :
    HasDeadline s f := Due.mono h (fun _ => ⟨call, hc, hr⟩) rfl fun _ => id

theorem hasDeadline_completes (hc : call ∈ s.calls) (hr : call.completes f) : HasDeadline s f :=
  fun _ _ _ _ => .inr (.inr ⟨call, hc, hr⟩)

theorem timeout_startTimer (o : Oracle) (fut : ResponseFuture) : (fut.startTimer o).timing.timeout = fut.timeout := by
  unfold ResponseFuture.startTimer
  split
  · rfl
  · split_ifs <;> rfl

theorem armed_startTimer (ht : fut.timer = none) (hto : (fut.startTimer o).timing.timeout.isSome) :
    (fut.startTimer o).timing.Armed := by
  unfold ResponseFuture.startTimer at hto ⊢
  simp only [ht] at hto ⊢
  split_ifs at hto ⊢ with hsp hs
  · exact ⟨_, rfl, rfl⟩
  · exact ⟨_, rfl, rfl⟩
  · exact absurd hto hs

theorem startTimer_of_timer (ht : fut.timer = some timer) : fut.startTimer o = fut := by
  simp [ResponseFuture.startTimer, ht]

theorem armed_startTimer_of_pending (ht : fut.timer = some timer) (hp : timer.pending) :
    (fut.startTimer o).timing.Armed := by
  rw [startTimer_of_timer ht]
  exact ⟨timer, ht, hp⟩

theorem hasDeadline_startTimer (o : Oracle) (h : Restarting s f) :
    HasDeadline (s.modFuture f (ResponseFuture.startTimer o)) f := by
  intro t ht hto he
  rw [timingOf_modFuture, mem_def, map_eq_some_iff] at ht
  obtain ⟨fut, hf, rfl⟩ := ht
  have hold : fut.timing ∈ s.timingOf f := by simp [timingOf, hf]
  cases htm : fut.timer with
  | some timer =>
    rw [startTimer_of_timer htm] at hto he ⊢
    rcases h _ hold hto he with ha | ⟨hn, -⟩ | hc
    · exact .inl ha
    · simp [ResponseFuture.timing, htm] at hn
    · exact .inr (.inr hc)
  | none => exact .inl (armed_startTimer htm hto)

theorem complete_modFuture (hk : ∀ fut, (k fut).event) (s : Session) (f : FutureId) :
    Complete (s.modFuture f k) f := by
  intro t ht
  rw [timingOf_modFuture, mem_def, map_eq_some_iff] at ht
  obtain ⟨fut, -, rfl⟩ := ht
  exact hk fut

theorem finish_event (raises : UserFn → Bool) (oc : Outcome) (fut : ResponseFuture) :
    (fut.finish raises oc).event := by
  cases oc <;> rfl

theorem complete_finish (o : Oracle) {s : Session} (f : FutureId) {oc : Outcome} :
    Complete (s.finish o f oc) f := complete_modFuture (finish_event o.raises oc) s f

theorem complete_settle (o : Oracle) {s : Session} (f : FutureId) {oc : Outcome} : Complete (s.settle o f oc) f := by
  apply complete_modFuture
  intro fut
  split <;> exact finish_event ..

/-! ## `_on_timeout` -/

def Session.findsRequest (s : Session) (fut : ResponseFuture) : Bool :=
  fut.connection.any fun c => s.conns[c]?.any fun conn => fut.reqId.any fun id => (conn.requests.get? id).isSome

theorem onTimeout_timers (o : Oracle) (s : Session) {f : FutureId} (hf : s.futures[f]? = some fut) :
    (s.findsRequest fut = false ∧ ∃ raised, s.onTimeout o f = (s, raised) ∧ (raised → fut.connection = none)) ∨
      TimersKeptBut f s (s.onTimeout o f).1 ∧ Complete (s.onTimeout o f).1 f := by
  have hno : ∀ raised, raised = false → (raised → fut.connection = none) := by
    rintro _ rfl h
    cases h
  cases hc : fut.connection with
  | none => exact .inl ⟨by simp [findsRequest, hc], true, by simp only [onTimeout, hf, hc], fun _ => rfl⟩
  | some c =>
    rw [hc] at hno
    cases hcn : s.conns[c]? with
    | none =>
      exact .inl ⟨by simp [findsRequest, hc, hcn], false, by simp only [onTimeout, hf, hc, hcn], hno _ rfl⟩
    | some conn =>
      cases hreq : fut.reqId with
      | none =>
        exact .inl ⟨by simp [findsRequest, hreq], false, by simp only [onTimeout, hf, hc, hcn, hreq], hno _ rfl⟩
      | some reqId =>
        cases ht : timeoutRequest conn reqId (s.openPoolOf fut.currentHost).isSome with
        | none =>
          left
          refine ⟨?_, false, by simp only [onTimeout, hf, hc, hcn, hreq, ht], hno _ rfl⟩
          simp only [timeoutRequest, map_eq_none_iff, Dict.pop] at ht
          simp [findsRequest, hc, hcn, hreq, ht]
        | some conn' =>
          right
          simp only [onTimeout, hf, hc, hcn, hreq, ht]
          have hset : TimersKept s { s with conns := s.conns.set c conn' } :=
            (TimersKept.refl s).of_eq rfl fun _ => id
          refine ⟨?_, complete_finish o f⟩
          apply TimersKeptBut.modFuture
          apply TimersKeptBut.of_kept
          split
          · exact hset.returnConnection ..
          · exact hset

/-! ## The loop over the hosts -/

theorem timersKept_plan (s : Session) (f : FutureId) (rest : List Host) :
    TimersKept s (s.modFuture f fun fut => { fut with queryPlan := rest }) :=
  (TimersKept.refl s).modFuture f _ fun _ => rfl

theorem timersKeptBut_sendRequest {o : Oracle} {s : Session} (f : FutureId) (noHosts : Bool) :
    TimersKeptBut f s (s.sendRequest o f noHosts) := by
  have hr := TimersKeptBut.of_kept (TimersKept.refl s) f
  unfold sendRequest
  split
  · exact hr
  split
  · split
    · exact hr.modFuture _
    · exact hr.modFuture _
  rename_i host rest _
  have hq := TimersKeptBut.of_kept ((timersKept_plan s f rest).query o f host none) f
  split <;> rename_i heq <;> rw [heq] at hq <;> exact ⟨hq.timings, Subset.trans hq.calls (subset_append_left ..)⟩

theorem hasDeadline_sendRequest (o : Oracle) (h : Restarting s f) (hd : noHosts → HasDeadline s f) :
    HasDeadline (s.sendRequest o f noHosts) f := by
  unfold sendRequest
  split
  · rename_i hf
    intro t ht
    simp [timingOf, hf] at ht
  split
  · split
    · exact (complete_finish o f).due
    · exact hasDeadline_startTimer o h
  rename_i host rest _
  have hq := (timersKept_plan s f rest).query o f host none
  -- What is submitted restarts the timer, unless there is an error for no hosts.
  have hsub : ∀ {s' : Session} (call : Call), TimersKept s s' → (noHosts = false → call.restarts f) →
      HasDeadline (s'.submit call) f := by
    intro s' call hk hc
    cases noHosts with
    | true => exact (hd rfl).kept (hk.submit call)
    | false => exact (h.kept (hk.submit call)).hasDeadline (mem_append_right _ mem_cons_self) (hc rfl)
  split <;> rename_i heq <;> rw [heq] at hq
  all_goals exact hsub _ hq (by rintro rfl; simp [Call.restarts])

theorem timersKeptBut_onTimeout (o : Oracle) (s : Session) (f : FutureId) : TimersKeptBut f s (s.onTimeout o f).1 := by
  cases hf : s.futures[f]? with
  | none =>
    simp only [onTimeout, hf]
    exact .of_kept (.refl s) f
  | some fut =>
    rcases onTimeout_timers o s hf with ⟨-, raised, heq, -⟩ | ⟨hk, -⟩
    · rw [heq]
      exact .of_kept (.refl s) f
    · exact hk

theorem timersKeptBut_sendFailed {o : Oracle} {s : Session} (f : FutureId) (noHosts : Bool) :
    TimersKeptBut f s (s.sendFailed o f noHosts) := by
  unfold sendFailed
  split
  · exact .of_kept (.refl s) f
  split
  · have hk := timersKeptBut_onTimeout o s f
    rcases heq : s.onTimeout o f with ⟨s', raised⟩
    rw [heq] at hk
    dsimp only
    split
    · exact hk
    · exact hk.modFuture _
  · exact timersKeptBut_sendRequest ..

theorem hasDeadline_sendFailed (o : Oracle) (h : Restarting s f) (hd : noHosts → HasDeadline s f) (hr
      : ∀ fut, s.futures[f]? = some fut → fut.timeout.isSome → o.late → noHosts ∨ fut.event
      ∨ fut.connection.isSome) : HasDeadline (s.sendFailed o f noHosts) f := by
  unfold sendFailed
  split
  · rename_i hf
    intro t ht
    simp [timingOf, hf] at ht
  rename_i fut hf
  split
  · rename_i hl
    rw [Bool.and_eq_true] at hl
    rcases onTimeout_timers o s hf with ⟨-, raised, heq, hn⟩ | ⟨-, hcmp⟩
    · rw [heq]
      dsimp only
      split
      · rename_i hst
        rcases hr fut hf hl.1 hl.2 with htr | he | hs
        · exact hd htr
        · intro t ht _ ho
          simp only [timingOf, hf, map_some, mem_def, some.injEq] at ht
          rw [← ht] at ho
          simp [ResponseFuture.timing, he] at ho
        rw [Bool.or_eq_true] at hst
        rcases hst with htr | hrsd
        · exact hd htr
        · simp [hn hrsd] at hs
      · exact hasDeadline_startTimer o h
    rcases heq : s.onTimeout o f with ⟨s', raised⟩
    rw [heq] at hcmp
    dsimp only
    split
    · exact hcmp.due
    · exact hasDeadline_startTimer o hcmp.due
  · exact hasDeadline_sendRequest o h hd

/-! ## Timers -/

theorem timersKeptBut_fireTimer (o : Oracle) {s : Session} (f : FutureId) : TimersKeptBut f s (s.fireTimer o f) := by
  have hr := TimersKeptBut.of_kept (TimersKept.refl s) f
  unfold fireTimer
  split
  · exact hr
  split
  · exact (hr.modFuture _).trans (timersKeptBut_onTimeout ..)
  · unfold onSpeculativeExecute
    split
    · exact hr
    split_ifs
    · exact hr.modFuture _
    · exact (hr.modFuture _).trans (timersKeptBut_onTimeout ..)
    · exact (hr.modFuture _).trans (.of_kept ((TimersKept.refl _).submit _) f)
  · exact hr

theorem hasDeadline_onTimeout (o : Oracle) (hf : s.futures[f]? = some fut) (hk : (k fut).connection = fut.connection ∧
      (k fut).reqId = fut.reqId ∧ (k fut).timeout = fut.timeout ∧ (k fut).event = fut.event)
    (hfn : fut.timeout.isSome → fut.event = false → s.findsRequest fut) :
    HasDeadline ((s.modFuture f k).onTimeout o f).1 f := by
  have hget : (s.modFuture f k).futures[f]? = some (k fut) := by
    simp [Session.modFuture, hf]
  rcases onTimeout_timers o _ hget with ⟨hn, raised, heq, -⟩ | ⟨-, hcmp⟩
  · rw [heq]
    intro t ht hto he
    rw [timingOf_modFuture, hf, map_some, mem_def] at ht
    cases ht
    have hs : (s.modFuture f k).findsRequest (k fut) = s.findsRequest fut := by
      unfold findsRequest
      rw [hk.1, hk.2.1]
      rfl
    rw [hs, hfn (by simpa [ResponseFuture.timing, hk] using hto) (by simpa [ResponseFuture.timing, hk] using he)] at hn
    cases hn
  · exact hcmp.due

theorem hasDeadline_fireTimer (o : Oracle) (h : HasDeadline s f)
    (hfn : ∀ fut, s.futures[f]? = some fut → s.timeoutOf (o, .timer f) = some f → fut.timeout.isSome →
      fut.event = false → s.findsRequest fut) : HasDeadline (s.fireTimer o f) f := by
  cases hf : s.futures[f]? with
  | none => simpa only [fireTimer, hf] using h
  | some fut =>
    have hfn := hfn fut hf
    simp only [timeoutOf, hf] at hfn
    simp only [fireTimer, hf]
    split
    · rename_i htm
      simp only [htm, forall_const] at hfn
      exact hasDeadline_onTimeout o hf ⟨rfl, rfl, rfl, rfl⟩ hfn
    · rename_i htm
      simp only [htm] at hfn
      simp only [onSpeculativeExecute, hf]
      split_ifs with he hl
      · intro t ht _ ho
        rw [timingOf_modFuture, hf, map_some, mem_def, some.injEq] at ht
        rw [← ht] at ho
        simp [ResponseFuture.timing, he] at ho
      · refine hasDeadline_onTimeout o hf ⟨rfl, rfl, rfl, rfl⟩ fun hto ho => ?_
        exact hfn (by simp [ho, hl]) hto ho
      -- the timer is gone, and `_start_timer` is to come
      have hn : Restarting (s.modFuture f fun fut => { fut with timer := none }) f := by
        intro t ht _ _
        rw [timingOf_modFuture, hf, map_some, mem_def, some.injEq] at ht
        exact .inr (.inl ⟨by rw [← ht]; rfl, trivial⟩)
      have hsub := (TimersKept.refl (s.modFuture f fun fut => { fut with timer := none })).submit (.sendRequest f false)
      refine (hn.kept hsub).hasDeadline (?_ : Call.sendRequest f false ∈ _) (by simp [Call.restarts])
      simp [submit]
    · exact h

/-! ## Responses -/

structure Handled (g : FutureId) (s s' : Session) : Prop where
  kept : TimersKeptBut g s s'
  deadline : HasDeadline s g → HasDeadline s' g

namespace Handled

theorem of_kept (h : TimersKept s s') (g : FutureId) : Handled g s s' := ⟨.of_kept h g, fun hd => hd.kept h⟩

theorem trans (h : Handled g s s') (h' : Handled g s' s'') : Handled g s s'' :=
  ⟨h.kept.trans h'.kept, fun hd => h'.deadline (h.deadline hd)⟩

theorem finish (h : TimersKept s s') (o : Oracle) (g : FutureId) (oc : Outcome) : Handled g s (s'.finish o g oc) :=
  ⟨(TimersKeptBut.of_kept h g).modFuture _, fun _ => (complete_finish o g).due⟩

theorem settle (h : TimersKept s s') (o : Oracle) (g : FutureId) (oc : Outcome) : Handled g s (s'.settle o g oc) :=
  ⟨(TimersKeptBut.of_kept h g).modFuture _, fun _ => (complete_settle o g).due⟩

theorem sendRequest (o : Oracle) (s : Session) (g : FutureId) : Handled g s (s.sendRequest o g true) :=
  ⟨timersKeptBut_sendRequest .., fun hd => hasDeadline_sendRequest o hd.restarting fun _ => hd⟩

theorem all (h : Handled g s s') (hs : ∀ f, HasDeadline s f) (f : FutureId) : HasDeadline s' f := by
  by_cases hf : f = g
  · subst hf
    exact h.deadline (hs f)
  · exact (hs f).mono (h.kept.timings f hf) h.kept.calls

end Handled

theorem timersKept_note (o : Oracle) (s : Session) (f : FutureId) (fut : ResponseFuture) (resp : Response) :
    TimersKept s ((s.noteStatement fut resp).modFuture f (noteResponse o resp)) := by
  have hs : TimersKept s (s.noteStatement fut resp) := by
    unfold noteStatement
    repeat' split
    all_goals exact (TimersKept.refl s).of_eq rfl fun _ => id
  refine hs.modFuture f _ fun fut => ?_
  unfold noteResponse
  repeat' split
  all_goals rfl

theorem timersKept_defunctOwn (h : TimersKept s s') (fut : ResponseFuture) : TimersKept s (s'.defunctOwn fut) := by
  unfold defunctOwn
  split
  · exact h
  · exact h.defunctConn _

theorem timersKept_retry (h : TimersKept s s') (f : FutureId) (ru : Bool) (host : Host) :
    TimersKept s (s'.retry f ru host) := by
  unfold retry
  split
  · exact h
  split
  · exact h
  · exact h.submit _

theorem handled_setResult (o : Oracle) (s : Session) (cb : Callback) (resp : Response) :
    Handled cb.future s (s.setResult o cb resp) := by
  unfold setResult
  split
  · exact .of_kept (.refl s) _
  rename_i fut _
  have hn := timersKept_note o s cb.future fut resp
  split
  · rename_i oc _
    have hset := Handled.settle hn o cb.future oc
    split
    · split
      · exact hset.trans (.of_kept ((TimersKept.refl _).addError ..) _)
      · exact hset
    · exact hset
  · exact .of_kept (hn.submit _) _
  · exact .of_kept (hn.submit _) _
  · have hr := fun ru => timersKept_retry hn cb.future ru cb.host
    split
    · exact .of_kept ((hr _).addError ..) _
    · exact .of_kept (hr _) _
  · exact .of_kept (hn.submit _) _
  · exact .of_kept ((timersKept_defunctOwn hn fut).submit _) _
  -- the timer is canceled, and `_set_final_exception` is to come
  refine ⟨?_, fun _ => hasDeadline_completes (mem_append_right _ mem_cons_self) ?_⟩
  · have hcan := (TimersKeptBut.of_kept hn cb.future).modFuture ResponseFuture.cancelTimer
    exact hcan.trans (.of_kept ((timersKept_defunctOwn (.refl _) fut).submit _) _)
  · simp [Call.completes]

theorem handled_afterPrepare (o : Oracle) {s : Session} (cb : Callback) {resp : Response} :
    Handled cb.future s (s.afterPrepare o cb resp) := by
  have hr := TimersKept.refl s
  unfold afterPrepare
  split
  · exact .of_kept hr _
  split
  · exact .of_kept hr _
  split
  · exact .of_kept (hr.queryOrSend ..) _
  · exact .finish hr ..
  · exact .finish hr ..
  · exact .finish hr ..
  · exact .finish hr ..
  · exact .finish hr ..
  · exact .of_kept ((hr.addError ..).submit _) _
  · exact .of_kept ((hr.addError ..).submit _) _
  · exact .finish hr ..
  · exact .finish hr ..

theorem timersKept_retryTask {o : Oracle} {s : Session} (f : FutureId) {ru : Bool} (host : Host) :
    TimersKept s (s.retryTask o f ru host) := by
  unfold retryTask
  split
  · exact .refl s
  split_ifs
  · exact .refl s
  · exact (TimersKept.refl s).queryOrSend ..
  · exact (TimersKept.refl s).submit _

/-! ## The step -/

def Call.plain (call : Call) : Prop := ∀ f, call.restarts f = false ∧ call.completes f = false

theorem deadlines_plain (o : Oracle) (hp : call.plain) (hs : ∀ f, HasDeadline s f) (f : FutureId) :
    HasDeadline (s.runCall o call) f := by
  have hr := TimersKept.refl s
  cases call with
  | callback cb resp =>
    unfold runCall
    dsimp only
    split
    · have hh := hr.modFuture cb.future (fun fut => { fut with coordinatorHost := some cb.host }) fun _ => rfl
      exact (hs f).kept ((hh.returnConnection ..).submit _)
    · exact (hs f).kept (hr.submit _)
  | executeAfterPrepare cb resp => exact (hs f).kept ((hr.returnConnection ..).submit _)
  | setResult cb resp => exact (handled_setResult o s cb resp).all hs f
  | afterPrepare cb resp => exact (handled_afterPrepare o cb).all hs f
  | sendRequest g noHosts =>
    cases noHosts with
    | true => exact (Handled.sendRequest o s g).all hs f
    | false => simpa [Call.restarts] using (hp g).1
  | requestSent g rid noHosts =>
    cases noHosts with
    | true => exact (hs f).kept (hr.modFuture g _ fun _ => rfl)
    | false => simpa [Call.restarts] using (hp g).1
  | sendFailed g noHosts =>
    cases noHosts with
    | true =>
      have hsn : Handled g s (s.sendFailed o g true) := ⟨timersKeptBut_sendFailed .., fun hd =>
        hasDeadline_sendFailed o hd.restarting (fun _ => hd) fun _ _ _ _ => .inl rfl⟩
      exact hsn.all hs f
    | false => simpa [Call.restarts] using (hp g).1
  | retry g ru host => exact (hs f).kept (timersKept_retry hr g ru host)
  | retryTask g ru host => exact (hs f).kept (timersKept_retryTask g host)
  | reprepare cb => exact (hs f).kept (hr.queryOrSend ..)
  | setFinalException g exc => simpa [Call.completes] using (hp g).2
  | refreshSchema g =>
    exact (Handled.finish (hr.modFuture g (fun fut => { fut with isSchemaAgreed := o.schemaAgreed }) fun _ => rfl)
      o g _).all hs f
  | setKeyspaceCompleted g =>
    unfold runCall
    dsimp only
    split <;> exact (Handled.finish hr o g _).all hs f
  | replace p => exact (hs f).kept (hr.work (PoolWork.refl.replace o p))
  | createNewConnection p => exact (hs f).kept (hr.work (PoolWork.refl.createNewConnection o p))
  | shutdownPool p => exact (hs f).kept (hr.work (PoolWork.refl.shutdownPool p))

theorem mem_eraseIdx_of_ne {x : Call} (hc : s.calls[index]? = some call) (hx : x ∈ s.calls) (hne : x ≠ call) :
    x ∈ s.calls.eraseIdx index := by
  obtain ⟨hlt, heq⟩ := List.getElem?_eq_some_iff.mp hc
  have hmem := (getElem_cons_eraseIdx_perm hlt).mem_iff.mpr hx
  rw [heq, mem_cons] at hmem
  exact hmem.resolve_left hne

theorem due_eraseIdx {r r' : Prop} (hcl : s.calls[index]? = some call) (hc : call.completes f = false)
    (hr : r → r') (h : Due s f r) : Due { s with calls := s.calls.eraseIdx index } f r' := by
  intro t ht hto he
  rcases h t ht hto he with ha | ⟨hn, hx⟩ | ⟨x, hx, hxc⟩
  · exact .inl ha
  · exact .inr (.inl ⟨hn, hr hx⟩)
  have hne : x ≠ call := by rintro rfl; simp [hc] at hxc
  exact .inr (.inr ⟨x, mem_eraseIdx_of_ne hcl hx hne, hxc⟩)

theorem hasDeadline_eraseIdx (hcl : s.calls[index]? = some call) (hr : call.restarts f = false)
    (hc : call.completes f = false) (h : HasDeadline s f) :
    HasDeadline { s with calls := s.calls.eraseIdx index } f := by
  refine due_eraseIdx hcl hc ?_ h
  rintro ⟨x, hx, hxr⟩
  have hne : x ≠ call := by rintro rfl; simp [hr] at hxr
  exact ⟨x, mem_eraseIdx_of_ne hcl hx hne, hxr⟩

theorem restarting_eraseIdx (hcl : s.calls[index]? = some call) (hc : call.completes f = false)
    (h : HasDeadline s f) : Restarting { s with calls := s.calls.eraseIdx index } f :=
  due_eraseIdx hcl hc (fun _ => trivial) h

theorem deadlines_own (hc : s.calls[index]? = some call)
    (ho : ∀ f, f ≠ g → call.restarts f = false ∧ call.completes f = false) (hs : ∀ f, HasDeadline s f)
    (hk : TimersKeptBut g { s with calls := s.calls.eraseIdx index } s') (hg : HasDeadline s' g) (f : FutureId) :
    HasDeadline s' f := by
  by_cases hf : f = g
  · rw [hf]
    exact hg
  have he := hasDeadline_eraseIdx hc (ho f hf).1 (ho f hf).2 (hs f)
  exact he.mono (hk.timings f hf) hk.calls

namespace Session

/-- Pages find a timer, and timers the request they end. -/
def keepsDeadline (s : Session) (a : Oracle × Act) : Bool :=
  match a.2 with
  | .startFetchingNextPage f _ =>
    s.futures[f]?.all fun fut => fut.pagingState.isNone || fut.timeout.isNone || fut.timer.all Timer.pending
  | .timer f =>
    (s.timeoutOf a).isNone ||
      s.futures[f]?.all fun fut => fut.timeout.isNone || fut.event || s.findsRequest fut
  | .call index =>
    match s.calls[index]? with
    | some (.sendFailed f false) =>
      s.futures[f]?.all fun fut => fut.timeout.isNone || !a.1.late || fut.event || fut.connection.isSome
    | _ => true
  | _ => true

end Session

theorem deadlines_call (d : Decoding Callback Response Response) {o : Oracle} (hs : ∀ f, HasDeadline s f)
    (hk : s.keepsDeadline (o, .call index)) (f : FutureId) : HasDeadline (step d s (o, .call index)) f := by
  cases hc : s.calls[index]? with
  | none => simpa only [step, hc] using hs f
  | some call =>
    simp only [step, hc]
    by_cases hp : call.plain
    · refine deadlines_plain o hp (fun f => ?_) f
      exact hasDeadline_eraseIdx hc (hp f).1 (hp f).2 (hs f)
    cases call with
    | sendRequest g noHosts =>
      cases noHosts with
      | true => exact absurd (fun f => ⟨rfl, rfl⟩) hp
      | false =>
        refine deadlines_own (g := g) hc (fun f hf => ?_) hs (timersKeptBut_sendRequest g false) ?_ f
        · simp [Call.restarts, Call.completes, Ne.symm hf]
        · exact hasDeadline_sendRequest o (restarting_eraseIdx hc rfl (hs g)) fun h => by cases h
    | requestSent g rid noHosts =>
      cases noHosts with
      | true => exact absurd (fun f => ⟨rfl, rfl⟩) hp
      | false =>
        have hr := TimersKept.refl { s with calls := s.calls.eraseIdx index }
        have hb := TimersKeptBut.of_kept hr g
        refine deadlines_own (g := g) hc (fun f hf => ?_) hs ((hb.modFuture _).modFuture _) ?_ f
        · simp [Call.restarts, Call.completes, Ne.symm hf]
        refine hasDeadline_startTimer o ((restarting_eraseIdx hc rfl (hs g)).kept ?_)
        exact hr.modFuture g _ fun _ => rfl
    | sendFailed g noHosts =>
      cases noHosts with
      | true => exact absurd (fun f => ⟨rfl, rfl⟩) hp
      | false =>
        simp only [keepsDeadline, hc] at hk
        refine deadlines_own (g := g) hc (fun f hf => ?_) hs (timersKeptBut_sendFailed g false) ?_ f
        · simp [Call.restarts, Call.completes, Ne.symm hf]
        refine hasDeadline_sendFailed o (restarting_eraseIdx hc rfl (hs g)) (fun h => by cases h) ?_
        intro fut hfut hto hl
        simpa [hfut, hl, isSome_iff_ne_none.mp hto] using hk
    | setFinalException g exc =>
      refine deadlines_own (g := g) hc (fun f hf => ?_) hs (Handled.settle (.refl _) o g _).kept ?_ f
      · simp [Call.restarts, Call.completes, Ne.symm hf]
      · exact (complete_settle o g).due
    | _ => exact absurd (fun f => ⟨rfl, rfl⟩) hp

theorem hasDeadline_execute (o : Oracle) (hs : ∀ f, HasDeadline s f) (tmo : Option Nat) (plan : List Host)
    (pst : Option PreparedStatement) (cbs ebs : List UserFn) (f : FutureId) :
    HasDeadline (s.execute o tmo plan pst cbs ebs) f := by
  by_cases hlt : f < s.futures.length
  · refine (hs f).mono ?_ (subset_append_left ..)
    unfold timingOf execute submit
    rw [getElem?_append_left hlt]
  intro t ht hto _
  simp only [timingOf, execute, submit, mem_def, map_eq_some_iff] at ht
  obtain ⟨fut, hfut, rfl⟩ := ht
  rw [getElem?_append_right (Nat.le_of_not_lt hlt), getElem?_singleton] at hfut
  split_ifs at hfut
  cases hfut
  exact .inl (armed_startTimer rfl hto)

theorem hasDeadline_startFetchingNextPage {o : Oracle} (hs : ∀ f, HasDeadline s f) (g : FutureId)
    (queryPlan : List Host) (hk : s.keepsDeadline (o, .startFetchingNextPage g queryPlan)) (f : FutureId) :
    HasDeadline (s.startFetchingNextPage o g queryPlan) f := by
  unfold startFetchingNextPage
  split
  · exact hs f
  rename_i fut hfut
  split
  swap
  · exact hs f
  rename_i hp
  have hc : Handled g s ((s.modFuture g fun fut =>
      { fut with queryPlan, event := false, finalResult := none, finalException := none, history := [] }.startTimer
        o).submit (.sendRequest g true)) := by
    have hr := TimersKeptBut.of_kept (TimersKept.refl s) g
    refine ⟨(hr.modFuture _).trans (.of_kept ((TimersKept.refl _).submit _) g), fun _ => ?_⟩
    refine HasDeadline.kept ?_ ((TimersKept.refl _).submit _)
    intro t ht hto _
    left
    rw [timingOf_modFuture, hfut, map_some, mem_def] at ht
    cases ht
    simp only [keepsDeadline, hfut] at hk
    by_cases htm : fut.timer = none
    · exact armed_startTimer htm hto
    obtain ⟨timer, htm⟩ := ne_none_iff_exists'.mp htm
    refine armed_startTimer_of_pending htm ?_
    rw [timeout_startTimer] at hto
    simpa [htm, isSome_iff_ne_none.mp hto, isSome_iff_ne_none.mp hp] using hk
  exact hc.all hs f

theorem hasDeadline_step (d : Decoding Callback Response Response) (s : Session) (a : Oracle × Act)
    (hs : ∀ f, HasDeadline s f) (hk : s.keepsDeadline a) (f : FutureId) : HasDeadline (step d s a) f := by
  obtain ⟨o, act⟩ := a
  have hr := TimersKept.refl s
  cases act with
  | execute tmo plan pst cbs ebs =>
    exact hasDeadline_execute o hs tmo plan pst cbs ebs f
  | startFetchingNextPage g plan => exact hasDeadline_startFetchingNextPage hs g plan hk f
  | call index => exact deadlines_call d hs hk f
  | processMsg c fr => exact (hs f).kept (hr.processMsg d c fr)
  | timer g =>
    have hf : Handled g s (s.fireTimer o g) := by
      refine ⟨timersKeptBut_fireTimer o g, fun hd => hasDeadline_fireTimer o hd ?_⟩
      intro fut hfut hto hsm he
      simpa [keepsDeadline, hto, hfut, he, isSome_iff_ne_none.mp hsm] using hk
    exact hf.all hs f
  | defunct c => exact (hs f).kept (hr.defunctConn c)
  | close c => exact (hs f).kept (hr.closeConn c)
  | addOrRenewPool pool n => exact (hs f).kept (hr.work (PoolWork.refl.addOrRenewPool pool n))
  | removePool host => exact (hs f).kept (hr.work (PoolWork.refl.removePool host))
  | setKeyspace c ks => exact (hs f).kept (hr.of_eq rfl fun _ => id)

theorem hasDeadline_start (pv mif : Nat) (pss : Dict Nat PreparedStatement)
    (f : FutureId) : HasDeadline (Session.start pv mif pss) f := by
  intro t ht
  simp [timingOf, Session.start] at ht

/-- **Every page request has a deadline**, if each step keeps it. -/
theorem page_requests_have_deadlines (d : Decoding Callback Response Response) (protocolVersion maxInFlight : Nat)
    (preparedStatements : Dict Nat PreparedStatement) (acts : List (Oracle × Act))
    (h : RunOk (step d) (fun s a => s.keepsDeadline a = true)
      (Session.start protocolVersion maxInFlight preparedStatements) acts) (f : FutureId) (fut : ResponseFuture)
    (hf : (run (step d) (Session.start protocolVersion maxInFlight preparedStatements) acts).futures[f]? = some fut)
    (htimeout : fut.timeout.isSome = true) (hopen : fut.event = false)
    (hcalls : ∀ call ∈ (run (step d) (Session.start protocolVersion maxInFlight preparedStatements) acts).calls,
      call.restarts f = false ∧ call.completes f = false) : ∃ timer, fut.timer = some timer ∧ timer.pending = true := by
  have hrun := run_invariant (fun s a hs hk => hasDeadline_step d s a hs hk)
    (hasDeadline_start protocolVersion maxInFlight preparedStatements) h f
  rcases hrun fut.timing (by simp [timingOf, hf]) htimeout hopen with
    ha | ⟨-, call, hc, hr⟩ | ⟨call, hc, hr⟩
  · exact ha
  · simp [(hcalls call hc).1] at hr
  · simp [(hcalls call hc).2] at hr

def pageAfterSpeculation : List (Oracle × Act) :=
  [({}, .addOrRenewPool (fixedPool .hostConnection 0) 1), ({ specDelay := true }, .execute (some 10) [0] none [] []),
    ({}, .call 0), ({}, .call 0), ({}, answer 0 0 0), ({}, .timer 0), ({}, .call 0), ({}, .call 1),
    ({}, .startFetchingNextPage 0 [0]), ({}, .call 1), ({}, .call 1), ({}, .call 0)]

theorem page_requests_have_deadlines_speculative :
    let s := run (step (scripted [.rows 5 (some 1)])) (Session.start 4 4 Dict.empty) pageAfterSpeculation
    s.futures[0]?.map ResponseFuture.event = some false ∧
      ∀ fut, s.futures[0]? = some fut → ∃ timer, fut.timer = some timer ∧ timer.pending = true := by
  intro s
  have he : s.futures[0]?.map ResponseFuture.event = some false := by decide +kernel
  have hto : s.futures[0]?.map ResponseFuture.timeout = some (some 10) := by decide +kernel
  refine ⟨he, fun fut hf => ?_⟩
  rw [hf, map_some, Option.some.injEq] at he hto
  exact page_requests_have_deadlines _ 4 4 Dict.empty pageAfterSpeculation (by decide +kernel) 0 fut hf
    (by rw [hto]; rfl) he (by decide +kernel)

/-- The second page has only the canceled timer of the first. -/
theorem second_page_without_timer :
    let s := run (step (scripted [.rows 5 (some 1)])) (Session.start 4 4 Dict.empty)
      (andCalls (.addOrRenewPool (fixedPool .hostConnection 0) 1) 0 ++ andCalls (.execute (some 10) [0] none [] []) 2 ++
        andCalls (answer 0 0 0) 2 ++ andCalls (.startFetchingNextPage 0 [0]) 2)
    s.futures[0]?.map ResponseFuture.timeout = some (some 10) ∧
      s.futures[0]?.map ResponseFuture.event = some false ∧
      s.futures[0]?.map ResponseFuture.timer = some (some ⟨.timeout, false⟩) ∧
      s.entries.map Callback.future = [0] ∧ s.calls = [] := by
  decide +kernel

end CqlDriver.Requests
