import CqlDriver.Lib.Heap
import CqlDriver.Lib.Loop
import Mathlib.Data.List.Nodup

/-!
# The timers of a connection's event loop

`Timer` and `TimerManager`. What a callback does besides running is a parameter: the timers it adds
and cancels, and whether it raises.
-/

namespace CqlDriver.Timers

open Lib Heap List

structure Timer (T : Type) where
  obj : Nat
  endTime : T
deriving DecidableEq

/-- What one `add_timer` adds; the ghost `serial` tells additions apart. -/
structure Entry (T : Type) where
  timer : Timer T
  serial : Nat
deriving DecidableEq

/-- `(timer.end, timer)` compare by their end times, as `Timer.__lt__` does. -/
def Entry.endTime {T : Type} (e : Entry T) : T := e.timer.endTime

/-- An entry at the front, run or found cancelled. -/
structure Turn (T : Type) where
  entry : Entry T
  ran : Bool
deriving DecidableEq

structure Call (T : Type) where
  now : T
  known : Nat

variable {T : Type} [LinearOrder T]

/-- `added`, `turns` and `calls` are history. -/
structure Manager (T : Type) [LinearOrder T] where
  queue : Queue (Entry.endTime : Entry T → T)
  newTimers : List (Entry T)
  canceled : List (Timer T)
  invoked : Nat
  added : List (Entry T)
  turns : List (Turn T)
  calls : List (Call T)

def Manager.init : Manager T := ⟨Queue.empty, [], [], 0, [], [], []⟩

def Manager.pending (m : Manager T) : List (Entry T) := m.queue.items ++ m.newTimers

def addTimer (m : Manager T) (t : Timer T) : Manager T :=
  let e : Entry T := ⟨t, m.added.length⟩
  { m with newTimers := m.newTimers ++ [e], added := m.added ++ [e] }

def cancel (m : Manager T) (t : Timer T) : Manager T := { m with canceled := t :: m.canceled }

inductive Action (T : Type) where
  | addTimer (t : Timer T)
  | cancel (t : Timer T)
deriving DecidableEq

def act (m : Manager T) : Action T → Manager T
  | .addTimer t => addTimer m t
  | .cancel t => cancel m t

/-- What the `n`-th callback does, and which ones then raise. -/
structure Callbacks (T : Type) where
  effects : Nat → List (Action T)
  raises : Timer T → Bool

def invoke (cb : Callbacks T) (m : Manager T) (e : Entry T) : Manager T :=
  (cb.effects m.invoked).foldl act
    { m with invoked := m.invoked + 1, turns := m.turns ++ [⟨e, true⟩] }

def finish (cb : Callbacks T) (now : T) (m : Manager T) (e : Entry T) :
    Except Unit Bool × Manager T :=
  if e.timer ∈ m.canceled then
    (.ok true, { m with turns := m.turns ++ [⟨e, false⟩] })
  else if e.endTime ≤ now then
    let m := invoke cb m e
    if cb.raises e.timer then (.error (), m) else (.ok true, m)
  else (.ok false, m)

def serviceBody (cb : Callbacks T) (now : T) (m : Manager T) : Option T ⊕ Manager T :=
  match m.queue.items with
  | [] => .inl none
  | e :: _ =>
    match finish cb now m e with
    | (.ok true, m) => .inr { m with queue := m.queue.pop }
    | (.ok false, _) => .inl (some e.endTime)
    -- The handler writes to the log only.
    | (.error _, m) => .inr m

def pushNew (m : Manager T) (now : T) : Manager T :=
  { m with
    queue := m.newTimers.foldr (fun e q => q.push e) m.queue
    newTimers := []
    calls := m.calls ++ [⟨now, m.added.length⟩] }

/-- With the clock reading `now`, in at most `fuel` turns of the loop. -/
def serviceTimeouts (cb : Callbacks T) (fuel : Nat) (now : T) (m : Manager T) :
    Option (Option T × Manager T) :=
  loop (serviceBody cb now) fuel (pushNew m now)

def Serves (cb : Callbacks T) (now : T) (m : Manager T) (r : Option T) (m' : Manager T) : Prop :=
  ∃ fuel, serviceTimeouts cb fuel now m = some (r, m')

inductive Reachable (cb : Callbacks T) : Manager T → Prop where
  | init : Reachable cb Manager.init
  | act {m : Manager T} (a : Action T) : Reachable cb m → Reachable cb (act m a)
  | service {m m' : Manager T} {now : T} {r : Option T} :
      Reachable cb m → Serves cb now m r m' → Reachable cb m'

/-! ## What the steps do -/

structure Acted (acts : List (Action T)) (m m' : Manager T) : Prop where
  queue : m'.queue = m.queue
  invoked : m'.invoked = m.invoked
  turns : m'.turns = m.turns
  calls : m'.calls = m.calls
  canceled : ∀ t, t ∈ m'.canceled ↔ t ∈ m.canceled ∨ Action.cancel t ∈ acts
  added : ∃ new, m'.added = m.added ++ new ∧ m'.newTimers = m.newTimers ++ new ∧
    new.map Entry.serial = List.range' m.added.length new.length

theorem act_acted (m : Manager T) (a : Action T) : Acted [a] m (act m a) := by
  cases a with
  | addTimer t =>
    exact ⟨rfl, rfl, rfl, rfl, fun u => by simp [act, addTimer], [⟨t, m.added.length⟩], rfl, rfl, rfl⟩
  | cancel t =>
    exact ⟨rfl, rfl, rfl, rfl, fun u => by simp [act, cancel, or_comm], [], by simp [act, cancel]⟩

theorem foldl_act_acted (acts : List (Action T)) (m : Manager T) : Acted acts m (acts.foldl act m) := by
  induction acts generalizing m with
  | nil => exact ⟨rfl, rfl, rfl, rfl, fun t => by simp, [], by simp⟩
  | cons a acts ih =>
    have h₁ := act_acted m a
    have h₂ := ih (act m a)
    obtain ⟨new₁, ha₁, hnew₁, hser₁⟩ := h₁.added
    obtain ⟨new₂, ha₂, hnew₂, hser₂⟩ := h₂.added
    refine ⟨h₂.queue.trans h₁.queue, h₂.invoked.trans h₁.invoked, h₂.turns.trans h₁.turns,
      h₂.calls.trans h₁.calls, fun t => ?_, new₁ ++ new₂, ?_, ?_, ?_⟩
    · rw [foldl_cons, h₂.canceled, h₁.canceled, mem_singleton, mem_cons, or_assoc]
    · rw [foldl_cons, ha₂, ha₁, append_assoc]
    · rw [foldl_cons, hnew₂, hnew₁, append_assoc]
    · rw [map_append, hser₁, hser₂, ha₁, length_append, length_append, range'_append_1]

/-- One turn. When the callback raises, the entry stays. -/
inductive TurnOf (cb : Callbacks T) (now : T) (m : Manager T) (e : Entry T) : Manager T → Prop where
  | canceled (hc : e.timer ∈ m.canceled) :
      TurnOf cb now m e { m with turns := m.turns ++ [⟨e, false⟩], queue := m.queue.pop }
  | returned (hc : e.timer ∉ m.canceled) (hdue : e.endTime ≤ now) (hr : cb.raises e.timer = false) :
      TurnOf cb now m e { invoke cb m e with queue := m.queue.pop }
  | raised (hc : e.timer ∉ m.canceled) (hdue : e.endTime ≤ now) (hr : cb.raises e.timer = true) :
      TurnOf cb now m e (invoke cb m e)

theorem invoke_acted (cb : Callbacks T) (m : Manager T) (e : Entry T) : Acted (cb.effects m.invoked)
      { m with invoked := m.invoked + 1, turns := m.turns ++ [⟨e, true⟩] } (invoke cb m e) :=
  foldl_act_acted _ _

variable {cb : Callbacks T} {m : Manager T} {now : T} {r : Option T}

theorem serviceBody_inr {m' : Manager T} :
    serviceBody cb now m = .inr m' ↔ ∃ e l, m.queue.items = e :: l ∧ TurnOf cb now m e m' := by
  unfold serviceBody
  cases hq : m.queue.items with
  | nil => simp
  | cons e l =>
    have hqueue : (invoke cb m e).queue = m.queue := (invoke_acted cb m e).queue
    simp only [finish]
    by_cases hc : e.timer ∈ m.canceled
    · simp only [if_pos hc, Sum.inr.injEq, cons.injEq]
      constructor
      · rintro rfl
        exact ⟨e, l, ⟨rfl, rfl⟩, .canceled hc⟩
      rintro ⟨_, _, ⟨rfl, rfl⟩, ht⟩
      cases ht with
      | canceled => rfl
      | returned hn | raised hn => exact absurd hc hn
    by_cases hdue : e.endTime ≤ now
    · simp only [if_neg hc, if_pos hdue, cons.injEq]
      cases hr : cb.raises e.timer with
      | true =>
        simp only [if_true, Sum.inr.injEq]
        constructor
        · rintro rfl
          exact ⟨e, l, ⟨rfl, rfl⟩, .raised hc hdue hr⟩
        rintro ⟨_, _, ⟨rfl, rfl⟩, ht⟩
        cases ht with
        | canceled hn => exact absurd hn hc
        | returned _ _ hn => exact absurd hn (by simp [hr])
        | raised => rfl
      | false =>
        simp only [Bool.false_eq_true, if_false, Sum.inr.injEq, hqueue]
        constructor
        · rintro rfl
          exact ⟨e, l, ⟨rfl, rfl⟩, .returned hc hdue hr⟩
        rintro ⟨_, _, ⟨rfl, rfl⟩, ht⟩
        cases ht with
        | canceled hn => exact absurd hn hc
        | returned => rfl
        | raised _ _ hn => exact absurd hn (by simp [hr])
    simp only [if_neg hc, if_neg hdue, reduceCtorEq, false_iff]
    rintro ⟨_, _, ⟨rfl, rfl⟩, ht⟩
    cases ht with
    | canceled hn => exact hc hn
    | returned _ hn | raised _ hn => exact hdue hn

theorem serviceBody_inl : serviceBody cb now m = .inl r ↔ (m.queue.items = [] ∧ r = none) ∨
      ∃ e l, m.queue.items = e :: l ∧ e.timer ∉ m.canceled ∧ now < e.endTime ∧ r = some e.endTime := by
  unfold serviceBody
  cases hq : m.queue.items with
  | nil => simp [eq_comm]
  | cons e l =>
    simp only [finish, reduceCtorEq, false_and, false_or, cons.injEq]
    by_cases hc : e.timer ∈ m.canceled
    · simp only [if_pos hc, reduceCtorEq, false_iff]
      rintro ⟨_, _, ⟨rfl, rfl⟩, hn, -⟩
      exact hn hc
    by_cases hdue : e.endTime ≤ now
    · simp only [if_neg hc, if_pos hdue]
      have hnot : ¬ ∃ a b, (e = a ∧ l = b) ∧ a.timer ∉ m.canceled ∧ now < a.endTime ∧ r = some a.endTime := by
        rintro ⟨_, _, ⟨rfl, rfl⟩, -, hlt, -⟩
        exact not_lt.mpr hdue hlt
      cases hr : cb.raises e.timer <;> simp only [hnot] <;> simp
    simp only [if_neg hc, if_neg hdue, Sum.inl.injEq]
    constructor
    · rintro rfl
      exact ⟨e, l, ⟨rfl, rfl⟩, hc, not_le.mp hdue, rfl⟩
    rintro ⟨_, _, ⟨rfl, rfl⟩, -, -, rfl⟩
    rfl

theorem lt_of_serviceBody_inl (h : serviceBody cb now m = .inl r) {e : Entry T} (he : e ∈ m.queue.items) :
    now < e.endTime := by
  rcases serviceBody_inl.mp h with ⟨hnil, -⟩ | ⟨first, l, hq, -, hlt, -⟩
  · rw [hnil] at he
    exact absurd he not_mem_nil
  · exact hlt.trans_le (Queue.head_le hq he)

theorem pushNew_perm (m : Manager T) (now : T) : (pushNew m now).queue.items.Perm m.pending := by
  have hf : ∀ (new : List (Entry T)) (q : Queue (Entry.endTime : Entry T → T)),
      (new.foldr (fun e q => q.push e) q).items.Perm (new ++ q.items) := by
    intro new q
    induction new with
    | nil => exact .refl _
    | cons e new ih => exact (Queue.push_perm _ e).trans (ih.cons e)
  exact (hf m.newTimers m.queue).trans perm_append_comm

end CqlDriver.Timers
