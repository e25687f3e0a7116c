import CqlDriver.Lib.Run
import Mathlib.Logic.Function.Basic

/-!
# Reconnecting to a host

A host keeps one reconnection handler. The threads of `on_up`, of its futures and of `on_down`
exchange it under the host's lock, and cancel or start handlers without it.
-/

namespace CqlDriver.Reconnection

open Lib Function

inductive Phase
  | idle
  | unstarted
  /-- `start` has found it not cancelled. -/
  | starting
  | scheduled
  | connecting
  /-- In `on_reconnection`; the callback comes next. -/
  | reconnected
  deriving DecidableEq

structure Handler where
  cancelled : Bool := false
  /-- The delays that the schedule still has, if it ends. -/
  schedule : Option Nat := none
  /-- The calls of `scheduler.schedule`. -/
  scheduled : Nat := 0
  phase : Phase := .idle

inductive Event
  | start
  /-- The rest of `start`. -/
  | schedule
  | run
  /-- How `try_reconnect` ends. -/
  | connected
  | failed (authenticationFailed : Bool)
  /-- `on_reconnection` raises. -/
  | raised

inductive Stage
  | free
  /-- `on_up` has set its flag. -/
  | take
  /-- After `get_and_set_reconnection_handler`. -/
  | cancel (old new : Option Nat)
  | openPools
  /-- At `_start_reconnector`. -/
  | install
  | start (new : Nat)
  | schedule (new : Nat)
  | finish
  deriving DecidableEq

/-- What a thread runs. -/
inductive Caller
  | onUp
  | completed
  | onDown
  deriving DecidableEq

/-- How `on_up` goes on when it has cancelled the handler. -/
inductive Pools
  | noFuture
  | futures
  | raised

structure Host where
  isUp : Bool := false
  handlingNodeUp : Bool := false
  made : Nat := 0
  handler : Nat → Handler := fun _ => {}
  reconnector : Option Nat := none
  stage : Nat → Stage := fun _ => .free
  caller : Nat → Caller := fun _ => .onDown
  /-- The handlers that a callback found in the place of its own. -/
  cleared : List Nat := []

section Steps

variable (delays : Option Nat)

def Handler.wait (h : Handler) : Handler :=
  match h.schedule with
  | some 0 => { h with phase := .idle }
  | rest => { h with schedule := rest.map (· - 1), scheduled := h.scheduled + 1, phase := .scheduled }

def Handler.step (h : Handler) : Event → Handler
  | .start => if h.phase = .unstarted then { h with phase := if h.cancelled then .idle else .starting } else h
  | .schedule => if h.phase = .starting then h.wait else h
  | .run => if h.phase = .scheduled then { h with phase := if h.cancelled then .idle else .connecting } else h
  | .connected =>
    if h.phase = .connecting then { h with phase := if h.cancelled then .idle else .reconnected } else h
  | .failed authenticationFailed =>
    if h.phase = .connecting then
      -- the delay is drawn before `on_exception` is asked
      if authenticationFailed then { h with schedule := h.schedule.map (· - 1), phase := .idle } else h.wait
    else h
  | .raised => if h.phase = .reconnected then { h with phase := .idle } else h

namespace Host

variable (s : Host) (t : Nat)

def goto (stage : Stage) : Host := { s with stage := update s.stage t stage }

def modify (k : Nat) (f : Handler → Handler) : Host :=
  { s with handler := update s.handler k (f (s.handler k)) }

def getAndSetReconnectionHandler (new : Option Nat) : Host :=
  { s with reconnector := new }.goto t (.cancel s.reconnector new)

def cancel (k : Nat) : Host := s.modify k ({ · with cancelled := true })

def call (caller : Caller) (stage : Stage) : Host := { s with caller := update s.caller t caller }.goto t stage

def leave : Host := { s with handlingNodeUp := false }.goto t .free

/-- The next step of a thread. -/
def advance (ignored : Bool) (pools : Pools) : Host :=
  match s.stage t with
  | .free => s
  | .take => s.getAndSetReconnectionHandler t none
  | .cancel old new => (old.elim s s.cancel).goto t (new.elim .openPools .start)
  | .openPools =>
    match pools with
    | .noFuture => { s with isUp := true }.leave t
    | .futures => s.goto t .free
    | .raised => s.goto t .install
  | .install =>
    if ignored then s.goto t .finish
    else
      ({ s with made := s.made + 1 }.getAndSetReconnectionHandler t (some s.made)).modify s.made
        fun _ => { schedule := delays, phase := .unstarted }
  | .start new =>
    (s.modify new (·.step .start)).goto t (if (s.handler new).cancelled then .finish else .schedule new)
  | .schedule new =>
    -- with an empty schedule `start` raises, and only the `finally` of the callback clears the flag
    (s.modify new (·.step .schedule)).goto t
      (if s.caller t = .onUp ∧ (s.handler new).schedule = some 0 then .free else .finish)
  | .finish => if s.caller t = .onDown then s.goto t .free else s.leave t

def onUp : Host := if s.handlingNodeUp || s.isUp then s else { s with handlingNodeUp := true }.call t .onUp .take

/-- `_on_up_future_completed` on empty `futures`, which may happen more than once. -/
def onUpFutureCompleted (allOk : Bool) : Host :=
  if allOk then { s with isUp := true }.call t .completed .finish else s.call t .completed .install

def onDown (connected expectHostToBeDown : Bool) : Host :=
  if connected then s
  else if (!s.isUp && !expectHostToBeDown) || s.reconnector.isSome then { s with isUp := false }
  else { s with isUp := false }.call t .onDown .install

/-- The end of a successful `run`. -/
def callback (k : Nat) : Host :=
  if (s.handler k).phase = .reconnected then
    { s.modify k ({ · with phase := .idle }) with
      reconnector := none
      cleared := s.cleared ++ s.reconnector.toList.filter (· ≠ k) }
  else s

end Host

inductive Act
  | onUp (thread : Nat)
  | completed (thread : Nat) (allOk : Bool)
  | onDown (thread : Nat) (connected expectHostToBeDown : Bool)
  | advance (thread : Nat) (ignored : Bool) (pools : Pools)
  /-- `_finalize_add` and `on_remove` -/
  | mark (isUp : Bool)
  | handler (k : Nat) (event : Event)
  | callback (k : Nat)

def step (s : Host) : Act → Host
  | .onUp t => if s.stage t = .free then s.onUp t else s
  | .onDown t connected expect => if s.stage t = .free then s.onDown t connected expect else s
  | .completed t allOk => if s.stage t = .free then s.onUpFutureCompleted t allOk else s
  | .advance t ignored pools => s.advance delays t ignored pools
  | .mark isUp => { s with isUp }
  | .handler k event => s.modify k (·.step event)
  | .callback k => s.callback k

end Steps

/-! ## What every step keeps -/

section Invariant

variable {m : Option Nat} {c : Nat → Option Nat} {s : Host} {t k : Nat} {h : Handler}

def Handler.Live (h : Handler) : Prop := h.cancelled = false ∧ h.phase ≠ .idle

def Stage.toCancel : Stage → Option Nat
  | .cancel old _ => old
  | _ => none

/-- The host's own, about to be cancelled, or cleared by a callback. -/
def Known (s : Host) (k : Nat) : Prop :=
  s.reconnector = some k ∨ (∃ t, (s.stage t).toCancel = some k) ∨ k ∈ s.cleared

def Kept (s : Host) : Prop := ∀ k, (s.handler k).Live → Known s k

/-- With what the schedule still has, no more than `n` runs. -/
def Handler.Within (n : Nat) (h : Handler) : Prop :=
  h.scheduled ≤ n ∧ (h.phase ≠ .idle → ∃ r, h.schedule = some r ∧ h.scheduled + r ≤ n)

/-- The runs that a call past its test may still ask for. -/
def Handler.underWay (h : Handler) : Nat := if h.phase = .starting ∨ h.phase = .connecting then 1 else 0

/-- Cancelled, with at most `n` runs. -/
def Handler.Spent (n : Nat) (h : Handler) : Prop := h.cancelled ∧ h.scheduled + h.underWay ≤ n

/-- With the bounds `c` for cancelled handlers. -/
structure Inv (m : Option Nat) (c : Nat → Option Nat) (s : Host) : Prop where
  known : Kept s
  within : ∀ n, m = some n → ∀ k, (s.handler k).Within n
  made : ∀ k n, c k = some n → k < s.made
  spent : ∀ k n, c k = some n → (s.handler k).Spent n

/-- What a handler may become. -/
structure Follows (h h' : Handler) : Prop where
  live : h'.Live → h.Live
  within : ∀ n, h.Within n → h'.Within n
  spent : ∀ n, h.Spent n → h'.Spent n

theorem follows_idle {schedule : Option Nat} : Follows h { h with schedule, phase := .idle } :=
  ⟨fun hl => absurd rfl hl.2, fun _ hw => ⟨hw.1, fun hi => absurd rfl hi⟩,
    fun _ hs => ⟨hs.1, Nat.le_of_add_right_le hs.2⟩⟩

theorem follows_step (e : Event) : Follows h (h.step e) := by
  unfold Handler.step Handler.wait
  constructor
  · unfold Handler.Live
    cases e <;> grind
  · unfold Handler.Within
    cases e <;> grind
  · unfold Handler.Spent Handler.underWay
    cases e <;> grind

theorem Inv.modify (h : Inv m c s) (f : Handler → Handler) (hl : (f (s.handler k)).Live → Known s k)
    (hw : ∀ n, m = some n → (f (s.handler k)).Within n) (hs : ∀ n, c k = some n → (f (s.handler k)).Spent n) :
    Inv m c (s.modify k f) :=
  { h with
    known := (forall_update_iff s.handler fun j h => h.Live → Known s j).mpr ⟨hl, fun j _ => h.known j⟩
    within := fun n hn =>
      (forall_update_iff s.handler fun _ h => h.Within n).mpr ⟨hw n hn, fun j _ => h.within n hn j⟩
    spent := (forall_update_iff s.handler fun j h => ∀ n, c j = some n → h.Spent n).mpr ⟨hs, fun j _ => h.spent j⟩ }

theorem Inv.follow (h : Inv m c s) {f : Handler → Handler} (hf : Follows (s.handler k) (f (s.handler k))) :
    Inv m c (s.modify k f) :=
  h.modify f (h.known k ∘ hf.live) (fun n hn => hf.within n (h.within n hn k))
    fun n hn => hf.spent n (h.spent k n hn)

/-- A thread moves on after cancelling what it took. -/
theorem Inv.move (h : Inv m c s) {stage : Stage} {new : Option Nat}
    (hd : ∀ k, (s.stage t).toCancel = some k → (s.handler k).cancelled)
    (hn : new = s.reconnector ∨ stage.toCancel = s.reconnector) :
    Inv m c ({ s with reconnector := new }.goto t stage) := by
  refine { h with known := fun k hl => ?_ }
  rcases h.known k hl with hr | ⟨u, hu⟩ | hc
  · rcases hn with rfl | hn
    · exact .inl hr
    · exact .inr (.inl ⟨t, by simp [Host.goto, hn, hr]⟩)
  · have hut : u ≠ t := by
      rintro rfl
      exact Bool.noConfusion (hl.1.symm.trans (hd k hu))
    exact .inr (.inl ⟨u, by simpa [Host.goto, hut] using hu⟩)
  · exact .inr (.inr hc)

/-- The same, with what no handler depends on changed too. -/
theorem Inv.pass (h : Inv m c s) (hst : (s.stage t).toCancel = none) {isUp flag : Bool} {caller : Nat → Caller}
    (stage : Stage) : Inv m c ({ s with isUp, handlingNodeUp := flag, caller }.goto t stage) :=
  Inv.move (s := { s with isUp, handlingNodeUp := flag, caller }) { h with } (by simp [hst]) (.inl rfl)

theorem Inv.advance (h : Inv m c s) (ignored : Bool) (pools : Pools) : Inv m c (s.advance m t ignored pools) := by
  unfold Host.advance
  split
  case h_1 => exact h
  case h_2 hst => exact h.move (by simp [hst, Stage.toCancel]) (.inr rfl)
  case h_3 old new hst =>
    cases old with
    | none => exact h.pass (congrArg Stage.toCancel hst) _
    | some k =>
      have hc : Inv m c (s.cancel k) := h.follow ⟨fun hl => Bool.noConfusion hl.1, fun _ => id, fun _ hs => ⟨rfl, hs.2⟩⟩
      refine hc.move (fun j hj => ?_) (.inl rfl)
      obtain rfl : k = j := by simpa [Host.cancel, Host.modify, hst, Stage.toCancel] using hj
      simp [Host.cancel, Host.modify]
  case h_4 hst =>
    cases pools <;> exact h.pass (congrArg Stage.toCancel hst) _
  case h_5 hst =>
    split_ifs
    · exact h.pass (congrArg Stage.toCancel hst) _
    · have hm : Inv m c { s with made := s.made + 1 } := { h with made := fun k n hn => Nat.lt_succ_of_lt (h.made k n hn) }
      have he : Inv m c ({ s with made := s.made + 1 }.getAndSetReconnectionHandler t (some s.made)) :=
        hm.move (by simp [hst, Stage.toCancel]) (.inr rfl)
      exact he.modify _ (fun _ => .inl rfl) (fun n hn => ⟨Nat.zero_le n, fun _ => ⟨n, hn, by simp⟩⟩)
        fun n hn => absurd (h.made _ n hn) (Nat.lt_irrefl _)
  case h_6 new hst =>
    exact (h.follow (f := (·.step .start)) (follows_step .start)).pass (congrArg Stage.toCancel hst) _
  case h_7 new hst =>
    exact (h.follow (f := (·.step .schedule)) (follows_step .schedule)).pass (congrArg Stage.toCancel hst) _
  case h_8 hst =>
    split_ifs <;> exact h.pass (congrArg Stage.toCancel hst) _

theorem inv_step (s : Host) (a : Act) (h : Inv m c s) : Inv m c (step m s a) := by
  cases a with
  | onUp t =>
    simp only [step, Host.onUp]
    split_ifs with hst
    · exact h
    · exact h.pass (congrArg Stage.toCancel hst) _
    · exact h
  | completed t ok =>
    simp only [step, Host.onUpFutureCompleted]
    split_ifs with hst
    · exact h.pass (congrArg Stage.toCancel hst) _
    · exact h.pass (congrArg Stage.toCancel hst) _
    · exact h
  | onDown t c e =>
    simp only [step, Host.onDown]
    split_ifs with hst
    · exact h
    · exact { h with }
    · exact h.pass (congrArg Stage.toCancel hst) _
    · exact h
  | advance t i p => exact h.advance i p
  | mark up => exact { h with }
  | handler k e => exact h.follow (f := (·.step e)) (follows_step e)
  | callback k =>
    simp only [step, Host.callback]
    split_ifs
    · have hm := h.follow (k := k) (f := ({ · with phase := .idle })) follows_idle
      refine { hm with known := fun j hj => ?_ }
      have hjk : j ≠ k := by
        rintro rfl
        simp [Host.modify, Handler.Live] at hj
      rcases hm.known j hj with hr | hu | hc
      · exact .inr (.inr (by simp [show s.reconnector = some j from hr, hjk]))
      · exact .inr (.inl hu)
      · exact .inr (.inr (List.mem_append_left _ hc))
    · exact h

variable (m) (acts : List Act)

theorem inv_run : Inv m (fun _ => none) (run (step m) {} acts) :=
  run_invariant_all inv_step acts ⟨by simp [Kept, Handler.Live], by simp [Handler.Within], by simp, by simp⟩

/-- A live handler is forgotten only when another's `run` clears it. -/
theorem reconnectors_kept : Kept (run (step m) {} acts) := (inv_run m acts).known

/-- No handler is scheduled more often than its schedule has delays. -/
theorem scheduled_at_most (n k : Nat) : ((run (step (some n)) {} acts).handler k).scheduled ≤ n :=
  ((inv_run (some n) acts).within n rfl k).1

/-- Only an attempt or `start` under way schedules a cancelled handler again. -/
theorem scheduled_after_cancel (later : List Act) (hk : k < (run (step m) {} acts).made)
    (hc : ((run (step m) {} acts).handler k).cancelled) :
    ((run (step m) (run (step m) {} acts) later).handler k).scheduled ≤
      ((run (step m) {} acts).handler k).scheduled + ((run (step m) {} acts).handler k).underWay := by
  let h := (run (step m) {} acts).handler k
  let b (j : Nat) := if j = k then some (h.scheduled + h.underWay) else none
  have hb : Inv m b (run (step m) {} acts) := by
    refine { inv_run m acts with made := fun j n hn => ?_, spent := fun j n hn => ?_ }
    · obtain ⟨rfl, -⟩ := by simpa [b] using hn
      exact hk
    · obtain ⟨rfl, rfl⟩ := by simpa [b] using hn
      exact ⟨hc, Nat.le_refl _⟩
  have hl := (run_invariant_all inv_step later hb).spent k _ (if_pos rfl)
  exact Nat.le_of_add_right_le hl.2

end Invariant

/-- Thread 0 installs a handler and gets through `n` steps of its start. -/
def started (n : Nat) : List Act := .onDown 0 false true :: List.replicate (n + 2) (.advance 0 false .raised)

/-- Thread 1 takes the handler and cancels it. -/
def cancelledBy : List Act := .onUp 1 :: List.replicate 2 (.advance 1 false .raised)

theorem scheduled_again :
    ((run (step none) (run (step none) {} (started 2 ++ .handler 0 .run :: cancelledBy))
      [.handler 0 (.failed false)]).handler 0).scheduled ≤ 1 + 1 ∧
    ((run (step none) (run (step none) {} (started 1 ++ cancelledBy)) [.advance 0 false .raised]).handler 0).scheduled
      ≤ 0 + 1 ∧
    ((run (step none) (run (step none) {} (started 0 ++ cancelledBy))
      [.advance 0 false .raised, .advance 0 false .raised]).handler 0).scheduled ≤ 0 + 0 :=
  ⟨scheduled_after_cancel none _ _ (by decide) (by decide), scheduled_after_cancel none _ _ (by decide) (by decide),
    scheduled_after_cancel none _ _ (by decide) (by decide)⟩

end CqlDriver.Reconnection
