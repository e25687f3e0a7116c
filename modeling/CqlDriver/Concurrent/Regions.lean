import CqlDriver.Concurrent.Executor
import Mathlib.Data.List.Perm.Basic

/-! # One `_execute_next` -/

namespace CqlDriver.Concurrent

variable {σ ρ : Type}

/-- The result that `_execute` puts itself, with `depth` calls of it around. -/
def Answer.atOnce (depth : Nat) : Answer ρ → Option (ExecutionResult ρ)
  | .raises exc => if depth + 1 < maxErrorRecursion then some ⟨false, exc⟩ else none
  | .immediate result => some result
  | .later _ => none

def Answer.isDone : Answer ρ → Bool
  | .raises _ | .immediate _ => true
  | .later _ => false

/-- The leading statements that are done at once. -/
def doneAhead (env : Env σ ρ) (statements : List (Nat × σ)) : Nat :=
  (statements.takeWhile fun p => (env.executeAsync p.1 p.2).isDone).length

/-- The statements ahead cannot exhaust the stack. -/
def Room (env : Env σ ρ) (e : Executor σ ρ) : Prop := e.execDepth + doneAhead env e.enumStatements < env.maxDepth

section Equations

variable (form : Form) (env : Env σ ρ)

def takeIn (entry : Nat × ExecutionResult ρ) (e : Executor σ ρ) : Executor σ ρ :=
  match form with
  | .list => { e with current := e.current + 1 }
  | .generator => record entry { e with resultsQueue := heappush e.resultsQueue entry }

def putEnd (more : Next) (e : Executor σ ρ) : Executor σ ρ :=
  match form with
  | .list => if more = .exhausted ∧ e.current = e.execCount then notify e else e
  | .generator => notify e

variable {form env}

variable {e : Executor σ ρ}

theorem notify_cases {e : Executor σ ρ} : ∃ consumer, notify e = { e with consumer } := by
  unfold notify
  split
  · exact ⟨_, rfl⟩
  · exact ⟨e.consumer, rfl⟩

theorem putEnd_cases (form : Form) (more : Next) (e : Executor σ ρ) :
    ∃ consumer, putEnd form more e = { e with consumer } := by
  unfold putEnd
  split
  · split
    · exact notify_cases
    · exact ⟨e.consumer, rfl⟩
  · exact notify_cases

variable {next : Executor σ ρ → Executor σ ρ × Next} {entry : Nat × ExecutionResult ρ}

variable (form next entry) in
theorem putLocked_go (hgo : form = .generator ∨ e.failFast = false ∨ entry.2.success)
    (hn : (next (takeIn form entry e)).2 ≠ .overflow) : putLocked form next entry e =
      (putEnd form (next (takeIn form entry e)).2 (next (takeIn form entry e)).1, false) := by
  obtain ⟨e', more, heq⟩ : ∃ e' more, next (takeIn form entry e) = (e', more) := ⟨_, _, rfl⟩
  rw [heq] at hn ⊢
  cases form with
  | generator =>
    simp only [takeIn] at heq
    simp only [putLocked, heq]
    cases more <;> rfl
  | list =>
    have hc : (!entry.2.success && e.failFast) = false := by
      rcases hgo with hg | hs | hsc
      · cases hg
      · simp [hs]
      · simp [hsc]
    simp only [takeIn] at heq
    simp only [putLocked, hc, heq, Bool.false_eq_true, if_false]
    cases more <;> rfl

variable (next entry) in
theorem putLocked_stop (h : e.failFast) (hf : entry.2.success = false) : ∃ exception consumer,
    putLocked .list next entry e = ({ takeIn .list entry e with exception, consumer }, false) := by
  obtain ⟨consumer, hn⟩ := notify_cases (e := { takeIn .list entry e with
    exception := e.exception.or (some entry.2.resultOrExc) })
  have hc : (!entry.2.success && e.failFast) = true := by simp [h, hf]
  exact ⟨e.exception.or (some entry.2.resultOrExc), consumer, (if_pos hc).trans (by rw [← hn]; rfl)⟩

theorem executeNext_nil (h : e.enumStatements = []) : executeNext form env e = (e, .exhausted) := by
  rw [executeNext, h]
  rfl

theorem execute_ne_exhausted {idx : Nat} {stmt : σ} : (execute form env next idx stmt e).2 ≠ .exhausted := by
  have hcaught : ∀ exc (e : Executor σ ρ), (caught form next idx exc e).2 ≠ .exhausted := by
    intro exc e
    unfold caught
    split
    · split <;> simp [leave]
    · simp [leave]
  unfold execute
  dsimp only
  split
  · simp
  split
  · exact hcaught _ _
  · split
    · exact hcaught _ _
    · simp [leave]
  · simp [leave]

theorem executeNext_exhausted (h : (executeNext form env e).2 = .exhausted) : e.enumStatements = [] := by
  cases he : e.enumStatements with
  | nil => rfl
  | cons head rest =>
    rw [executeNext, he] at h
    simp only [List.length_cons, executeUpTo, he] at h
    exact absurd h execute_ne_exhausted

/-! ## Arrivals -/

theorem putUnlocked_cases (form : Form) (entry : Nat × ExecutionResult ρ) (e : Executor σ ρ) :
    ∃ resultsQueue log, putUnlocked form entry e = { e with resultsQueue, log } := by
  cases form
  · exact ⟨_, _, rfl⟩
  · exact ⟨e.resultsQueue, e.log, rfl⟩

theorem arrive_cases (form : Form) (e : Executor σ ρ) (arrival : Arrival) :
    arrive form e arrival = e ∧ ¬ Enabled e (.arrive arrival) ∨
    ∃ entry futures tasks log, (futures ++ tasks ++ [entry]).Perm (e.futures ++ e.tasks) ∧
      (log = e.log ∧ futures = e.futures ∨
        log = e.log ++ [.finished entry.1] ∧ futures.length + 1 = e.futures.length) ∧
      arrive form e arrival = putUnlocked form entry { e with futures, tasks, log, blocked := e.blocked ++ [entry] } := by
  cases arrival with
  | fire i =>
    by_cases hi : i < e.futures.length
    · refine .inr ⟨e.futures[i], e.futures.eraseIdx i, e.tasks, _, ?_, .inr ⟨rfl, ?_⟩, ?_⟩
      · exact (List.perm_append_singleton _ _).trans ((List.getElem_cons_eraseIdx_perm hi).append_right _)
      · rw [List.length_eraseIdx_of_lt hi]
        omega
      · simp only [arrive, List.getElem?_eq_getElem hi]
        rfl
    · exact .inl ⟨by simp [arrive, hi], hi⟩
  | runTask i =>
    by_cases hi : i < e.tasks.length
    · refine .inr ⟨e.tasks[i], e.futures, e.tasks.eraseIdx i, _, ?_, .inl ⟨rfl, rfl⟩, ?_⟩
      · rw [List.append_assoc]
        exact ((List.perm_append_singleton _ _).trans (List.getElem_cons_eraseIdx_perm hi)).append_left _
      · simp only [arrive, List.getElem?_eq_getElem hi]
    · exact .inl ⟨by simp [arrive, hi], hi⟩

theorem arrive_frame (form : Form) (e : Executor σ ρ) (arrival : Arrival) : ∃ futures tasks blocked resultsQueue log,
    arrive form e arrival = { e with futures, tasks, blocked, resultsQueue, log } := by
  rcases arrive_cases form e arrival with ⟨heq, -⟩ | ⟨entry, futures, tasks, log, -, -, heq⟩
  · exact ⟨e.futures, e.tasks, e.blocked, e.resultsQueue, e.log, heq⟩
  · obtain ⟨queue, log, hput⟩ := putUnlocked_cases form entry
      { e with futures, tasks, log, blocked := e.blocked ++ [entry] }
    exact ⟨_, _, _, queue, log, heq.trans hput⟩

/-- What every arrival keeps, a whole list of them keeps. -/
theorem arriveAll_invariant {P : Executor σ ρ → Prop} (h : P { e with arrivals := e.arrivals.tail })
    (hstep : ∀ (e : Executor σ ρ) arrival, P e → P (arrive form e arrival)) : P (arriveAll form e) := by
  unfold arriveAll
  generalize e.arrivals.headD [] = arrivals
  generalize { e with arrivals := e.arrivals.tail } = e at h
  induction arrivals generalizing e with
  | nil => exact h
  | cons arrival arrivals ih => exact ih _ (hstep e arrival h)

variable (form e) in
theorem arriveAll_kept : (arriveAll form e).enumStatements = e.enumStatements ∧
    (arriveAll form e).execDepth = e.execDepth ∧ (arriveAll form e).failFast = e.failFast := by
  refine arriveAll_invariant (P := fun e' => e'.enumStatements = e.enumStatements ∧ e'.execDepth = e.execDepth ∧
    e'.failFast = e.failFast) ⟨rfl, rfl, rfl⟩ fun e' arrival h => ?_
  obtain ⟨futures, tasks, blocked, queue, log, heq⟩ := arrive_frame form e' arrival
  rw [heq]
  exact h

/-! ## The rule -/

/-- A statement that is done when `execute_async` returns, in a call of `_execute` of its own. -/
def nested (e : Executor σ ρ) (idx : Nat) (rest : List (Nat × σ)) : Executor σ ρ :=
  Executor.event { opened e idx rest with execDepth := e.execDepth + 1 } (.finished idx)

/-- A nested `_put_result` up to its `_execute_next`. -/
def delivered (form : Form) (e : Executor σ ρ) (idx : Nat) (rest : List (Nat × σ)) (result : ExecutionResult ρ) :
    Executor σ ρ :=
  takeIn form (idx, result) (putUnlocked form (idx, result) (nested e idx rest))

variable (form e) in
theorem delivered_kept (idx : Nat) (rest : List (Nat × σ)) (result : ExecutionResult ρ) :
    (delivered form e idx rest result).enumStatements = rest ∧
    (delivered form e idx rest result).execDepth = e.execDepth + 1 ∧
    (delivered form e idx rest result).failFast = e.failFast := by
  cases form <;> exact ⟨rfl, rfl, rfl⟩

theorem execute_eq {idx : Nat} {stmt : σ} {rest : List (Nat × σ)} (h : ¬ env.maxDepth < e.execDepth + 1) :
    execute form env next idx stmt (opened e idx rest) =
      match env.executeAsync idx stmt with
      | .raises exc => caught form next idx exc (nested e idx rest)
      | .immediate result =>
        match putResult form next (idx, result) (nested e idx rest) with
        | (e, true) => caught form next idx env.recursionError e
        | (e, false) => leave e
      | .later result =>
        leave { opened e idx rest with execDepth := e.execDepth + 1, futures := e.futures ++ [(idx, result)] } :=
  if_neg h

section Put

variable {P : Executor σ ρ → Executor σ ρ → Next → Prop} {idx : Nat} {stmt : σ} {rest : List (Nat × σ)}

/-- A result that is put at once, where the nested call keeps `P` and the depth. -/
theorem putResult_rule {res : ExecutionResult ρ}
    (hstop : ∀ exception consumer, form = .list → e.failFast → res.success = false →
      P e { delivered .list e idx rest res with exception, consumer, execDepth := e.execDepth } .started)
    (hgo : ∀ e' more, form = .generator ∨ e.failFast = false ∨ res.success →
      P (delivered form e idx rest res) e' more → P e { putEnd form more e' with execDepth := e.execDepth } .started)
    (hnext : (next (delivered form e idx rest res)).2 ≠ .overflow ∧
      (next (delivered form e idx rest res)).1.execDepth = e.execDepth + 1 ∧
      P (delivered form e idx rest res) (next (delivered form e idx rest res)).1
        (next (delivered form e idx rest res)).2) :
    ∃ e', putResult form next (idx, res) (nested e idx rest) = (e', false) ∧
      leave e' = ({ e' with execDepth := e.execDepth }, .started) ∧ P e { e' with execDepth := e.execDepth } .started := by
  have hleave : ∀ e' : Executor σ ρ, e'.execDepth = e.execDepth + 1 →
      leave e' = ({ e' with execDepth := e.execDepth }, .started) := by
    intro e' hd
    rw [leave, hd]
    rfl
  have hfs : ∀ e' : Executor σ ρ, (putUnlocked form (idx, res) e').failFast = e'.failFast := by
    cases form <;> exact fun _ => rfl
  by_cases hst : form = .list ∧ e.failFast ∧ res.success = false
  · obtain ⟨rfl, hf, hs⟩ := hst
    obtain ⟨exception, consumer, heq⟩ := putLocked_stop next (idx, res)
      (e := putUnlocked .list (idx, res) (nested e idx rest)) hf hs
    exact ⟨_, heq, hleave _ rfl, hstop exception consumer rfl hf hs⟩
  have hg : form = .generator ∨ e.failFast = false ∨ res.success := by
    cases form with
    | generator => exact .inl rfl
    | list => simpa [Classical.or_iff_not_imp_left] using hst
  have heq := putLocked_go form next (idx, res)
    (e := putUnlocked form (idx, res) (nested e idx rest)) (by rw [hfs]; exact hg) hnext.1
  refine ⟨_, heq, hleave _ ?_, hgo _ _ hg hnext.2.2⟩
  obtain ⟨consumer, hend⟩ := putEnd_cases form (next (delivered form e idx rest res)).2
    (next (delivered form e idx rest res)).1
  exact (congrArg Executor.execDepth hend).trans hnext.2.1

end Put

/-- **The rule for `_execute_next`**, one case for each way it goes on. -/
theorem executeUpTo_rule {P : Executor σ ρ → Executor σ ρ → Next → Prop}
    (hnil : ∀ e : Executor σ ρ, e.enumStatements = [] → P e e .exhausted)
    (harrive : ∀ (e : Executor σ ρ) e' more, P (arriveAll form e) e' more → P e e' more)
    (hlater : ∀ (e : Executor σ ρ) idx stmt rest res, e.enumStatements = (idx, stmt) :: rest →
      env.executeAsync idx stmt = .later res →
      P e { opened e idx rest with futures := e.futures ++ [(idx, res)] } .started)
    (htask : ∀ (e : Executor σ ρ) idx stmt rest exc, e.enumStatements = (idx, stmt) :: rest →
      env.executeAsync idx stmt = .raises exc →
      P e { (opened e idx rest).event (.finished idx) with
        tasks := e.tasks ++ [(idx, ExecutionResult.mk false exc)] } .started)
    (hstop : ∀ (e : Executor σ ρ) idx stmt rest res exception consumer, form = .list → e.failFast →
      e.enumStatements = (idx, stmt) :: rest → (env.executeAsync idx stmt).atOnce e.execDepth = some res →
      res.success = false →
      P e { delivered .list e idx rest res with exception, consumer, execDepth := e.execDepth } .started)
    (hput : ∀ (e : Executor σ ρ) idx stmt rest res e' more, form = .generator ∨ e.failFast = false ∨ res.success →
      e.enumStatements = (idx, stmt) :: rest → (env.executeAsync idx stmt).atOnce e.execDepth = some res →
      P (delivered form e idx rest res) e' more → P e { putEnd form more e' with execDepth := e.execDepth } .started)
    (fuel : Nat) (e : Executor σ ρ) (hfuel : e.enumStatements.length ≤ fuel) (hroom : Room env e) :
    (executeUpTo form env fuel e).2 ≠ .overflow ∧ (executeUpTo form env fuel e).1.execDepth = e.execDepth ∧
      P e (executeUpTo form env fuel e).1 (executeUpTo form env fuel e).2 := by
  induction fuel generalizing e with
  | zero => exact ⟨nofun, rfl, hnil e (List.length_eq_zero_iff.mp (Nat.le_zero.mp hfuel))⟩
  | succ fuel ih =>
    unfold executeUpTo
    cases he : e.enumStatements with
    | nil => exact ⟨nofun, rfl, hnil e he⟩
    | cons head rest =>
      obtain ⟨idx, stmt⟩ := head
      obtain ⟨hkept, hdepth, -⟩ := arriveAll_kept form e
      rw [← hdepth]
      rw [he] at hkept hfuel
      unfold Room at hroom
      rw [he, ← hdepth] at hroom
      dsimp only
      suffices h : ∀ e : Executor σ ρ, e.enumStatements = (idx, stmt) :: rest →
          e.execDepth + doneAhead env ((idx, stmt) :: rest) < env.maxDepth → ∃ e' : Executor σ ρ,
            execute form env (executeUpTo form env fuel) idx stmt (opened e idx rest) =
              ({ e' with execDepth := e.execDepth }, .started) ∧ P e { e' with execDepth := e.execDepth } .started by
        obtain ⟨e', heq, hp⟩ := h _ hkept hroom
        rw [heq]
        exact ⟨nofun, rfl, harrive e _ _ hp⟩
      intro e he hroom
      have hmax : ¬ env.maxDepth < e.execDepth + 1 := by omega
      -- A result that is put at once.
      have hnow : ∀ res, (env.executeAsync idx stmt).atOnce e.execDepth = some res →
          (env.executeAsync idx stmt).isDone → ∃ e', putResult form (executeUpTo form env fuel) (idx, res) (nested e idx rest) = (e', false) ∧
            leave e' = ({ e' with execDepth := e.execDepth }, .started) ∧
            P e { e' with execDepth := e.execDepth } .started := by
        intro res hres hdone
        refine putResult_rule (fun exception consumer hfr hf hs => hstop e idx stmt rest res exception consumer hfr hf he
          hres hs) (fun e' more hg hp => hput e idx stmt rest res e' more hg he hres hp) ?_
        obtain ⟨hr, hd, -⟩ := delivered_kept form e idx rest res
        rw [← hd]
        refine ih _ (by rw [hr]; exact Nat.le_of_succ_le_succ hfuel) ?_
        unfold Room
        rw [hr, hd]
        simp only [doneAhead, List.takeWhile_cons, hdone, if_true, List.length_cons] at hroom ⊢
        omega
      rw [execute_eq hmax]
      cases hans : env.executeAsync idx stmt with
      | later res => exact ⟨_, rfl, hlater e idx stmt rest res he hans⟩
      | immediate res =>
        obtain ⟨e', heq, hl, hp⟩ := hnow res (by rw [hans]; rfl) (by rw [hans]; rfl)
        refine ⟨e', ?_, hp⟩
        simp only [heq]
        exact hl
      | raises exc =>
        by_cases hd : e.execDepth + 1 < maxErrorRecursion
        · obtain ⟨e', heq, hl, hp⟩ := hnow ⟨false, exc⟩ (by rw [hans]; exact if_pos hd) (by rw [hans]; rfl)
          refine ⟨e', (if_pos hd).trans ?_, hp⟩
          rw [heq]
          exact hl
        · exact ⟨_, if_neg hd, htask e idx stmt rest exc he hans⟩

end Equations

/-! ## The consumer -/

theorem yieldNext_kept {e : Executor σ ρ} (otherwise : Executor σ ρ) :
    yieldNext e otherwise = otherwise ∨ ∃ consumer yielded resultsQueue,
      yieldNext e otherwise = { e with consumer, yielded, resultsQueue } := by
  unfold yieldNext
  split
  · exact .inl rfl
  split
  · split
    · exact .inr ⟨_, e.yielded, _, rfl⟩
    · exact .inr ⟨_, _, _, rfl⟩
  · exact .inl rfl

theorem generatorLoop_kept {e : Executor σ ρ} :
    ∃ consumer yielded resultsQueue, generatorLoop e = { e with consumer, yielded, resultsQueue } := by
  unfold generatorLoop
  split
  · rcases yieldNext_kept { e with consumer := .waiting } with heq | heq
    · exact ⟨.waiting, e.yielded, e.resultsQueue, heq⟩
    · exact heq
  · exact ⟨.finished, e.yielded, e.resultsQueue, rfl⟩

theorem results_cases (form : Form) (e : Executor σ ρ) :
    ∃ consumer yielded current resultsQueue, results form e = { e with consumer, yielded, current, resultsQueue } ∧
      (form = .list → resultsQueue = e.resultsQueue) := by
  cases form with
  | list =>
    have hl : results .list e = listResults e := rfl
    rw [hl]
    unfold listResults listLoop returnList
    repeat' split
    all_goals exact ⟨_, _, _, _, rfl, fun _ => rfl⟩
  | generator =>
    have hg : results .generator e = generatorResults e := rfl
    rw [hg]
    unfold generatorResults
    split
    · obtain ⟨consumer, yielded, queue, heq⟩ := generatorLoop_kept
      exact ⟨consumer, yielded, e.current, queue, heq, nofun⟩
    · rcases yieldNext_kept { e with consumer := .waiting } with heq | ⟨consumer, yielded, queue, heq⟩
      · exact ⟨.waiting, e.yielded, e.current, e.resultsQueue, heq, nofun⟩
      · exact ⟨consumer, yielded, e.current, queue, heq, nofun⟩
    · obtain ⟨consumer, yielded, queue, hlp⟩ := generatorLoop_kept
      rcases yieldNext_kept (generatorLoop { e with current := e.current + 1 })
        with heq | ⟨consumer, yielded, queue, heq⟩
      · exact ⟨consumer, yielded, e.current + 1, queue, heq.trans hlp, nofun⟩
      · exact ⟨consumer, yielded, e.current + 1, queue, heq, nofun⟩
    all_goals exact ⟨e.consumer, e.yielded, e.current, e.resultsQueue, rfl, nofun⟩

end CqlDriver.Concurrent
