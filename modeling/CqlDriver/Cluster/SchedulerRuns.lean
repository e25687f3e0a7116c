import CqlDriver.Cluster.Scheduler
import Mathlib.Algebra.Order.Group.Nat

/-! # A scheduled task is submitted -/

namespace CqlDriver.Scheduler

open Lib Heap

variable {T τ : Type} [LinearOrder T] [DecidableEq τ]

/-- The entries that `get` gives before `e`. -/
def ahead (s : State T τ) (e : Entry T τ) : Nat :=
  s.queue.items.countP fun x => x.key ≤ e.key ∧ x ≠ e

def Phase.rank : Phase T τ → Nat
  | .got _ => 3
  | .due _ => 2
  | .discarded _ => 1
  | .top => 1
  | .getting => 0
  | .stopped => 0

def distance (s : State T τ) (e : Entry T τ) : Nat :=
  (if e ∈ held s.loop ++ leaving s.loop then 0 else 4 * (ahead s e + 1)) + s.loop.rank

variable {e x : Entry T τ} {now : T} {s : State T τ}

omit [DecidableEq τ] in
theorem key_lt (h : e.runAt < x.runAt ∨ e.runAt = x.runAt ∧ e.count < x.count) : e.key < x.key := Prod.Lex.toLex_lt_toLex.mpr h

theorem countP_push {q : Queue (Entry.key : Entry T τ → T ×ₗ Nat)} (h : e.key < x.key) :
    (q.push x).items.countP (fun y => y.key ≤ e.key ∧ y ≠ e) = q.items.countP (fun y => y.key ≤ e.key ∧ y ≠ e) := by
  rw [(q.push_perm x).countP_eq]
  simp [not_le.mpr h]

theorem RunsTo.distance_lt {s' : State T τ} (h : RunsTo now s s') (he : e ∈ Scheduler.pending s)
    (hnow : e.runAt ≤ now) (hne : s.loop ≠ .discarded e) : distance s' e < distance s e := by
  cases h with
  | check hl | accept hl | discard hl => simp [distance, ahead, hl, held, leaving, Phase.rank]
  | wait hl hq => simp [Scheduler.pending, Scheduler.waiting, hl, hq, held, leaving] at he
  | @get x l hl hq =>
    have hmem : e ∈ s.queue.items := by simpa [Scheduler.pending, Scheduler.waiting, hl, held, leaving] using he
    have hf : distance s e = 4 * (ahead s e + 1) := by simp [distance, hl, held, leaving, Phase.rank]
    by_cases hx : e = x
    · have hto : distance { s with queue := s.queue.pop, loop := .got x } e = 3 := by
        simp [distance, held, hx, Phase.rank]
      omega
    -- one entry fewer is ahead
    have ha : ahead s e = ahead { s with queue := s.queue.pop, loop := .got x } e + 1 := by
      unfold ahead
      rw [(Queue.pop_perm hq).countP_eq, List.countP_cons_of_pos]
      simpa [Ne.symm hx] using Queue.head_le hq hmem
    have hto : distance { s with queue := s.queue.pop, loop := .got x } e =
        4 * (ahead { s with queue := s.queue.pop, loop := .got x } e + 1) + 3 := by
      simp [distance, held, leaving, hx, Phase.rank]
    omega
  | @putBack x hl hlate =>
    have hlt : e.runAt < x.runAt := hnow.trans_lt hlate
    have hx : e ≠ x := fun heq => absurd (heq ▸ hlt) (lt_irrefl _)
    have ha : ahead { s with queue := s.queue.push x, loop := .top } e = ahead s e :=
      countP_push (key_lt (.inl hlt))
    simp [distance, ha, hl, held, leaving, hx, Phase.rank]
  | @submit x task hl =>
    have hx : e ≠ x := fun heq => hne (heq ▸ hl)
    simp [distance, ahead, hl, held, leaving, hx, Phase.rank]

variable [AddCommMonoid T]

variable {delay : T}

theorem distance_insertTask (h : Inv s) (he : e ∈ pending s) (hle : e.runAt ≤ now + delay) (task : τ) :
    distance (insertTask now delay task s) e = distance s e := by
  have hkey : e.key < (newEntry now delay task s).key := by
    rcases hle.lt_or_eq with hlt | heq
    · exact key_lt (.inl hlt)
    · exact key_lt (.inr ⟨heq, h.counts e he⟩)
  have ha : ahead (insertTask now delay task s) e = ahead s e := by
    rw [insertTask_eq h]
    exact countP_push hkey
  unfold distance
  rw [ha, insertTask_eq h]

def Run.Requests (ρ : Run T τ) (k : Nat) (delay : T) : Prop :=
  ∃ task, ρ.step k = .schedule delay task ∨ ρ.step k = .scheduleUnique delay task

/-- The clock and the times asked for pass `t`. -/
def Run.Passes (ρ : Run T τ) (t : T) : Prop :=
  ∃ N, ∀ k, N ≤ k → t ≤ ρ.now k ∧ ∀ delay, ρ.Requests k delay → t ≤ ρ.now k + delay

variable {ρ : Run T τ}

omit [DecidableEq τ] in
theorem Run.passes_of_nonneg [IsOrderedAddMonoid T] (hd : ∀ k delay, ρ.Requests k delay → 0 ≤ delay) {t : T}
    (hc : ∃ N, ∀ k, N ≤ k → t ≤ ρ.now k) : ρ.Passes t := by
  obtain ⟨N, hN⟩ := hc
  refine ⟨N, fun k hk => ⟨hN k hk, fun delay hreq => (hN k hk).trans ?_⟩⟩
  exact le_add_of_nonneg_right (hd k delay hreq)

def Run.Submits (ρ : Run T τ) (e : Entry T τ) (k : Nat) : Prop :=
  ρ.step k = .run ∧ (ρ.state k).loop = .discarded e

variable {k : Nat}

theorem Run.NoShutdown.pending_succ (h : ρ.NoShutdown) (he : e ∈ pending (ρ.state k)) :
    ρ.Submits e k ∨ e ∈ pending (ρ.state (k + 1)) := by
  have hinv := h.inv k
  have hins : ∀ delay task, e ∈ pending (insertTask (ρ.now k) delay task (ρ.state k)) :=
    fun delay task => (pending_insertTask hinv _ delay task).mem_iff.mpr (List.mem_cons_of_mem _ he)
  rw [Run.state]
  cases hs : ρ.step k with
  | schedule delay task => exact .inr (hins delay task)
  | scheduleUnique delay task =>
    refine .inr ?_
    show e ∈ pending (scheduleUnique (ρ.now k) delay task (ρ.state k))
    unfold scheduleUnique
    split
    · exact hins delay task
    · exact he
  | shutdown => exact absurd hs (h k)
  | run =>
    rcases (hinv.runsTo _).pending with hp | ⟨x, task, -, hl, hc, -⟩
    · exact .inr (hp.mem_iff.mp he)
    rw [hc, List.mem_cons] at he
    rcases he with rfl | he
    · exact .inl ⟨hs, hl⟩
    · exact .inr he

theorem Run.NoShutdown.distance_succ (h : ρ.NoShutdown) (he : e ∈ pending (ρ.state k)) (hnow : e.runAt ≤ ρ.now k)
    (hl : ∀ delay, ρ.Requests k delay → e.runAt ≤ ρ.now k + delay) (hnot : ¬ ρ.Submits e k) :
    distance (ρ.state (k + 1)) e ≤ distance (ρ.state k) e ∧
      (ρ.step k = .run → distance (ρ.state (k + 1)) e < distance (ρ.state k) e) := by
  have hinv := h.inv k
  rw [Run.state]
  cases hst : ρ.step k with
  | schedule delay task =>
    have hs := distance_insertTask hinv he (hl delay ⟨task, .inl hst⟩) task
    exact ⟨hs.le, nofun⟩
  | scheduleUnique delay task =>
    refine ⟨?_, nofun⟩
    show distance (scheduleUnique (ρ.now k) delay task (ρ.state k)) e ≤ _
    unfold scheduleUnique
    split
    · exact (distance_insertTask hinv he (hl delay ⟨task, .inr hst⟩) task).le
    · exact le_refl _
  | shutdown => exact absurd hst (h k)
  | run =>
    have hlt := (hinv.runsTo _).distance_lt he hnow fun hlp => hnot ⟨hst, hlp⟩
    exact ⟨hlt.le, fun _ => hlt⟩

variable {n : Nat}

theorem Run.NoShutdown.eventually_submits (h : ρ.NoShutdown) (he : e ∈ pending (ρ.state n))
    (hc : ρ.Passes e.runAt) (hf : ∀ N, ∃ k, N ≤ k ∧ ρ.step k = .run) : ∃ k, n ≤ k ∧ ρ.Submits e k := by
  obtain ⟨N, hN⟩ := hc
  have hkp : ∀ k, e ∈ pending (ρ.state k) → ρ.Submits e k ∨ e ∈ pending (ρ.state (k + 1)) :=
    fun _ => h.pending_succ
  exact eventually_of_measure (fun k => distance _ e) hkp
    (fun k hk hp hq => (h.distance_succ hp (hN k hk).1 (hN k hk).2 hq).1)
    (fun k hk hp hq => (h.distance_succ hp (hN k hk).1 (hN k hk).2 hq).2) hf he

variable {task : τ}

theorem Run.NoShutdown.exists_pending (h : ρ.NoShutdown) (hn : ρ.step n = .scheduleUnique delay task) :
    ∃ e ∈ pending (ρ.state (n + 1)), e.task = some task := by
  have hinv := h.inv n
  rw [Run.state, hn]
  show ∃ e ∈ pending (scheduleUnique (ρ.now n) delay task (ρ.state n)), e.task = some task
  unfold scheduleUnique
  split
  · exact ⟨_, (pending_insertTask hinv _ delay task).mem_iff.mpr List.mem_cons_self, rfl⟩
  rename_i hmem
  obtain ⟨e, he, ht⟩ := hinv.covered task (not_not.mp hmem)
  exact ⟨e, List.mem_append_right _ he, ht⟩

theorem Run.Submits.submitted (h : ρ.Submits e k) (ht : e.task = some task) :
    (ρ.state (k + 1)).submitted = (ρ.state k).submitted ++ [task] := by
  rw [Run.state, h.1]
  show (runStep (ρ.now k) (ρ.state k)).submitted = _
  unfold runStep
  rw [h.2]
  simp [ht]

/-- **No request is lost.** What `schedule_unique` leaves out is submitted all the same. -/
theorem schedule_unique_not_lost {ρ : Run T τ} (h : ρ.NoShutdown) {n : Nat} {delay : T}
    {task : τ} (hn : ρ.step n = .scheduleUnique delay task) :
    (task ∈ (ρ.state n).scheduledTasks → ∃ e : Entry T τ, e.task = some task ∧
      (e ∈ (ρ.state n).queue.items ∨ (ρ.state n).loop = .got e ∨ (ρ.state n).loop = .due e)) ∧
    ∃ e ∈ pending (ρ.state (n + 1)), e.task = some task ∧ (ρ.Passes e.runAt → (∀ N, ∃ k, N ≤ k ∧ ρ.step k = .run) →
        ∃ k, n < k ∧ ρ.Submits e k ∧ (ρ.state (k + 1)).submitted = (ρ.state k).submitted ++ [task]) := by
  constructor
  · intro hmem
    obtain ⟨e, he, ht⟩ := (h.inv n).covered task hmem
    exact ⟨e, ht, mem_waiting.mp he⟩
  obtain ⟨e, he, ht⟩ := h.exists_pending hn
  refine ⟨e, he, ht, fun hc hf => ?_⟩
  obtain ⟨k, hk, hs⟩ := h.eventually_submits he hc hf
  exact ⟨k, hk, hs, hs.submitted ht⟩

def requestedTwice : Run Nat String where
  now n := n
  step n := if n = 0 then .scheduleUnique 5 "refresh" else if n = 3 then .scheduleUnique 1 "refresh" else .run

theorem requestedTwice_submitted : ∃ k, 3 < k ∧
    (requestedTwice.state (k + 1)).submitted = (requestedTwice.state k).submitted ++ ["refresh"] := by
  have ho : requestedTwice.NoShutdown := by
    intro n
    unfold requestedTwice
    simp only
    split_ifs <;> nofun
  have hr : requestedTwice.step 3 = .scheduleUnique 1 "refresh" := rfl
  obtain ⟨-, e, -, -, hs⟩ := schedule_unique_not_lost ho hr
  have hc : requestedTwice.Passes e.runAt :=
    Run.passes_of_nonneg (fun _ delay _ => Nat.zero_le delay) ⟨e.runAt, fun _ hk => hk⟩
  have hf : ∀ N, ∃ k, N ≤ k ∧ requestedTwice.step k = .run := by
    intro N
    refine ⟨N + 4, Nat.le_add_right N 4, ?_⟩
    simp [requestedTwice]
  obtain ⟨k, hk, -, hsb⟩ := hs hc hf
  exact ⟨k, hk, hsb⟩

example : "refresh" ∈ (requestedTwice.state 3).scheduledTasks ∧ (requestedTwice.state 4).queue.items = [] := by
  decide

end CqlDriver.Scheduler
