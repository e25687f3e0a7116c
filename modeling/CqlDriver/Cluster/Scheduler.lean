import CqlDriver.Lib.Heap
import CqlDriver.Lib.Fair
import Mathlib.Algebra.Order.Monoid.Defs
import Mathlib.Data.Finset.Basic
import Mathlib.Data.Prod.Lex

/-!
# The scheduler of a cluster

`_Scheduler`: client threads put tasks with a time in a queue, and one thread submits those whose
time has come. The set of scheduled tasks and the queue are changed in separate steps.
-/

namespace CqlDriver.Scheduler

open Lib Heap List Scheduler

/-- `(run_at, next(self._count), task)`, or the `(0, 0, None)` of `shutdown`. -/
structure Entry (T τ : Type) where
  runAt : T
  count : Nat
  task : Option τ
deriving DecidableEq

inductive Phase (T τ : Type) where
  | top
  | getting
  | got (e : Entry T τ)
  | due (e : Entry T τ)
  | discarded (e : Entry T τ)
  | stopped

variable {T τ : Type} [LinearOrder T]

def Entry.key (e : Entry T τ) : T ×ₗ Nat := toLex (e.runAt, e.count)

structure State (T τ : Type) [LinearOrder T] where
  queue : Queue (Entry.key : Entry T τ → T ×ₗ Nat)
  count : Nat
  scheduledTasks : Finset τ
  isShutdown : Bool
  loop : Phase T τ
  submitted : List τ

def State.init : State T τ := ⟨Queue.empty, 0, ∅, false, .top, []⟩

inductive Step (T τ : Type) where
  | schedule (delay : T) (task : τ)
  | scheduleUnique (delay : T) (task : τ)
  | shutdown
  | run

section Model

variable [AddCommMonoid T] [DecidableEq τ]

def insertTask (now delay : T) (task : τ) (s : State T τ) : State T τ :=
  if s.isShutdown then s
  else
    { s with
      scheduledTasks := insert task s.scheduledTasks
      queue := s.queue.push ⟨now + delay, s.count, some task⟩
      count := s.count + 1 }

def scheduleUnique (now delay : T) (task : τ) (s : State T τ) : State T τ :=
  if task ∉ s.scheduledTasks then insertTask now delay task s else s

def discard (tasks : Finset τ) : Option τ → Finset τ
  | some task => tasks.erase task
  | none => tasks

def runStep (now : T) (s : State T τ) : State T τ :=
  match s.loop with
  | .top => if s.isShutdown then { s with loop := .stopped } else { s with loop := .getting }
  | .getting =>
    match s.queue.items with
    -- `get` waits.
    | [] => s
    | e :: _ => { s with queue := s.queue.pop, loop := .got e }
  | .got e =>
    if s.isShutdown then { s with loop := .stopped }
    else if e.runAt ≤ now then { s with loop := .due e }
    else { s with queue := s.queue.push e, loop := .top }
  | .due e => { s with scheduledTasks := discard s.scheduledTasks e.task, loop := .discarded e }
  | .discarded e =>
    match e.task with
    | some task => { s with submitted := s.submitted ++ [task], loop := .getting }
    -- `None` cannot be unpacked.
    | none => { s with loop := .stopped }
  | .stopped => s

def step (s : State T τ) (now : T) : Step T τ → State T τ
  | .schedule delay task => insertTask now delay task s
  | .scheduleUnique delay task => scheduleUnique now delay task s
  | .shutdown => { s with isShutdown := true, queue := s.queue.push ⟨0, 0, none⟩ }
  | .run => runStep now s

structure Run (T τ : Type) where
  now : Nat → T
  step : Nat → Step T τ

def Run.state (ρ : Run T τ) : Nat → State T τ
  | 0 => State.init
  | n + 1 => Scheduler.step (ρ.state n) (ρ.now n) (ρ.step n)

def Run.NoShutdown (ρ : Run T τ) : Prop := ∀ n, ρ.step n ≠ .shutdown

end Model

/-! ## Entries still to come -/

def held : Phase T τ → List (Entry T τ)
  | .got e => [e]
  | .due e => [e]
  | _ => []

def leaving : Phase T τ → List (Entry T τ)
  | .discarded e => [e]
  | _ => []

def waiting (s : State T τ) : List (Entry T τ) := held s.loop ++ s.queue.items

def pending (s : State T τ) : List (Entry T τ) := leaving s.loop ++ waiting s

variable {e : Entry T τ} {s : State T τ}

theorem mem_waiting : e ∈ waiting s ↔ e ∈ s.queue.items ∨ s.loop = .got e ∨ s.loop = .due e := by
  unfold waiting held
  cases s.loop <;> simp [or_comm, eq_comm]

/-- Without `shutdown`, each scheduled task has an entry waiting. -/
structure Inv (s : State T τ) : Prop where
  isOpen : s.isShutdown = false
  running : s.loop ≠ .stopped
  tasks : ∀ e ∈ pending s, ∃ task, e.task = some task
  counts : ∀ e ∈ pending s, e.count < s.count
  covered : ∀ task ∈ s.scheduledTasks, ∃ e ∈ waiting s, e.task = some task

theorem inv_init : Inv (State.init : State T τ) where
  isOpen := rfl
  running := nofun
  tasks := nofun
  counts := nofun
  covered := nofun

/-! ## The steps of the thread -/

variable [DecidableEq τ]

inductive RunsTo (now : T) (s : State T τ) : State T τ → Prop where
  | check (hl : s.loop = .top) : RunsTo now s { s with loop := .getting }
  | wait (hl : s.loop = .getting) (hq : s.queue.items = []) : RunsTo now s s
  | get {e : Entry T τ} {l : List (Entry T τ)} (hl : s.loop = .getting) (hq : s.queue.items = e :: l) :
      RunsTo now s { s with queue := s.queue.pop, loop := .got e }
  | accept {e : Entry T τ} (hl : s.loop = .got e) (hdue : e.runAt ≤ now) :
      RunsTo now s { s with loop := .due e }
  | putBack {e : Entry T τ} (hl : s.loop = .got e) (hlate : now < e.runAt) :
      RunsTo now s { s with queue := s.queue.push e, loop := .top }
  | discard {e : Entry T τ} {task : τ} (hl : s.loop = .due e) (ht : e.task = some task) :
      RunsTo now s { s with scheduledTasks := s.scheduledTasks.erase task, loop := .discarded e }
  | submit {e : Entry T τ} {task : τ} (hl : s.loop = .discarded e) (ht : e.task = some task) :
      RunsTo now s { s with submitted := s.submitted ++ [task], loop := .getting }

theorem Inv.runsTo (h : Inv s) (now : T) : RunsTo now s (runStep now s) := by
  have ho : ¬ s.isShutdown := by simp [h.isOpen]
  unfold runStep
  cases hl : s.loop with
  | top =>
    simp only [if_neg ho]
    exact .check hl
  | getting =>
    cases hq : s.queue.items with
    | nil => exact .wait hl hq
    | cons e l => exact .get hl hq
  | got e =>
    simp only [if_neg ho]
    split
    · rename_i hdue
      exact .accept hl hdue
    rename_i hlate
    exact .putBack hl (not_le.mp hlate)
  | due e =>
    obtain ⟨task, ht⟩ := h.tasks e (by simp [pending, waiting, held, hl])
    simp only [ht]
    exact .discard hl ht
  | discarded e =>
    obtain ⟨task, ht⟩ := h.tasks e (by simp [pending, leaving, hl])
    simp only [ht]
    exact .submit hl ht
  | stopped => exact absurd hl h.running

variable {now : T} {s' : State T τ}

theorem RunsTo.waiting (h : RunsTo now s s') : ((waiting s).Perm (waiting s') ∧ s'.scheduledTasks = s.scheduledTasks) ∨
      ∃ e task, e.task = some task ∧ waiting s = e :: waiting s' ∧ s'.scheduledTasks = s.scheduledTasks.erase task := by
  cases h with
  | check hl | accept hl | submit hl =>
    refine .inl ⟨?_, rfl⟩
    simp only [waiting, held, hl]
    exact List.Perm.refl _
  | wait => exact .inl ⟨List.Perm.refl _, rfl⟩
  | get hl hq =>
    refine .inl ⟨?_, rfl⟩
    simp only [waiting, held, hl]
    exact Queue.pop_perm hq
  | @putBack e hl =>
    refine .inl ⟨?_, rfl⟩
    simp only [waiting, held, hl]
    exact (s.queue.push_perm e).symm
  | @discard e task hl ht =>
    refine .inr ⟨e, task, ht, ?_, rfl⟩
    simp only [waiting, held, hl]
    rfl

theorem RunsTo.pending (h : RunsTo now s s') : (pending s).Perm (pending s') ∨
      ∃ e task, e.task = some task ∧ s.loop = .discarded e ∧ pending s = e :: pending s' ∧
        s'.submitted = s.submitted ++ [task] := by
  cases h with
  | check hl | accept hl | discard hl =>
    refine .inl ?_
    simp only [Scheduler.pending, Scheduler.waiting, held, leaving, hl]
    exact List.Perm.refl _
  | wait => exact .inl (List.Perm.refl _)
  | get hl hq =>
    refine .inl ?_
    simp only [Scheduler.pending, Scheduler.waiting, held, leaving, hl]
    exact Queue.pop_perm hq
  | @putBack e hl =>
    refine .inl ?_
    simp only [Scheduler.pending, Scheduler.waiting, held, leaving, hl]
    exact (s.queue.push_perm e).symm
  | @submit e task hl ht =>
    refine .inr ⟨e, task, ht, hl, ?_, rfl⟩
    simp only [Scheduler.pending, Scheduler.waiting, held, leaving, hl]
    rfl

theorem RunsTo.of_mem_pending (h : RunsTo now s s') (he : e ∈ Scheduler.pending s') : e ∈ Scheduler.pending s := by
  rcases h.pending with hp | ⟨_, _, _, _, hc, _⟩
  · exact hp.mem_iff.mpr he
  rw [hc]
  exact mem_cons_of_mem _ he

theorem RunsTo.inv (hr : RunsTo now s s') (h : Inv s) : Inv s' := by
  have hf : s'.isShutdown = s.isShutdown ∧ s'.count = s.count ∧ s'.loop ≠ .stopped := by
    cases hr with
    | wait => exact ⟨rfl, rfl, h.running⟩
    | _ => exact ⟨rfl, rfl, nofun⟩
  obtain ⟨ho, hcn, hrun⟩ := hf
  refine ⟨ho.trans h.isOpen, hrun, fun e he => h.tasks e (hr.of_mem_pending he),
    fun e he => hcn ▸ h.counts e (hr.of_mem_pending he), ?_⟩
  intro task hts
  rcases hr.waiting with ⟨hp, hs⟩ | ⟨e, gone, hg, hc, hset⟩
  · obtain ⟨e, he, ht⟩ := h.covered task (hs ▸ hts)
    exact ⟨e, hp.mem_iff.mp he, ht⟩
  rw [hset, Finset.mem_erase] at hts
  obtain ⟨e', he', ht⟩ := h.covered task hts.2
  rw [hc, mem_cons] at he'
  -- the entry let go of is of another task
  rcases he' with rfl | he'
  · exact absurd (Option.some.inj (ht.symm.trans hg)) hts.1
  · exact ⟨e', he', ht⟩

/-! ## Requests -/

variable [AddCommMonoid T]

def newEntry (now delay : T) (task : τ) (s : State T τ) : Entry T τ := ⟨now + delay, s.count, some task⟩

section

variable (h : Inv s)
include h

section

variable (now dly : T)

theorem insertTask_eq (task : τ) : insertTask now dly task s =
      { s with
        scheduledTasks := insert task s.scheduledTasks
        queue := s.queue.push (newEntry now dly task s)
        count := s.count + 1 } := by
  unfold insertTask
  rw [if_neg (by simp [h.isOpen])]
  rfl

theorem waiting_insertTask (task : τ) :
    (waiting (insertTask now dly task s)).Perm (newEntry now dly task s :: waiting s) := by
  rw [insertTask_eq h]
  exact ((s.queue.push_perm _).append_left _).trans perm_middle

theorem pending_insertTask (task : τ) :
    (pending (insertTask now dly task s)).Perm (newEntry now dly task s :: pending s) := by
  have hlp : (insertTask now dly task s).loop = s.loop := by rw [insertTask_eq h]
  unfold pending
  rw [hlp]
  exact ((waiting_insertTask h now dly task).append_left _).trans perm_middle

theorem Inv.insertTask (task : τ) : Inv (insertTask now dly task s) := by
  have hp := pending_insertTask h now dly task
  have hw := waiting_insertTask h now dly task
  have hfs := insertTask_eq h now dly task
  refine ⟨?_, ?_, ?_, ?_, ?_⟩
  · rw [hfs]
    exact h.isOpen
  · rw [hfs]
    exact h.running
  · intro e he
    rcases mem_cons.mp (hp.mem_iff.mp he) with rfl | he
    · exact ⟨task, rfl⟩
    · exact h.tasks e he
  · intro e he
    have hc : (Scheduler.insertTask now dly task s).count = s.count + 1 := by rw [hfs]
    rw [hc]
    rcases mem_cons.mp (hp.mem_iff.mp he) with rfl | he
    · exact Nat.lt_succ_self _
    · exact (h.counts e he).trans (Nat.lt_succ_self _)
  intro other ho
  have hset : (Scheduler.insertTask now dly task s).scheduledTasks = insert task s.scheduledTasks := by
    rw [hfs]
  rcases Finset.mem_insert.mp (hset ▸ ho) with rfl | ho
  · exact ⟨_, hw.mem_iff.mpr mem_cons_self, rfl⟩
  obtain ⟨e, he, ht⟩ := h.covered other ho
  exact ⟨e, hw.mem_iff.mpr (mem_cons_of_mem _ he), ht⟩

end

theorem Inv.step (now : T) {a : Step T τ} (ha : a ≠ .shutdown) : Inv (step s now a) := by
  cases a with
  | schedule dly task => exact h.insertTask now dly task
  | scheduleUnique dly task =>
    show Inv (scheduleUnique now dly task s)
    unfold scheduleUnique
    split
    · exact h.insertTask now dly task
    · exact h
  | shutdown => exact absurd rfl ha
  | run => exact (h.runsTo now).inv h

end

theorem Run.NoShutdown.inv {ρ : Run T τ} (h : ρ.NoShutdown) (n : Nat) : Inv (ρ.state n) := by
  induction n with
  | zero => exact inv_init
  | succ n ih => exact ih.step _ (h n)

end CqlDriver.Scheduler
