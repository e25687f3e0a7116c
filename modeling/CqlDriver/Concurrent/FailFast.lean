import CqlDriver.Concurrent.Order

/-! # `raise_on_first_error` -/

namespace CqlDriver.Concurrent

open Lib List Event

variable {σ ρ : Type}

def Event.failed : Event → Bool
  | .recorded _ success _ => !success
  | .started _ _ | .finished _ => false

/-- No statement is started once a failed result has been recorded. -/
def Stops (log : List Event) : Prop := log.Pairwise fun a b => a.failed = true → b.isStart = false

instance (log : List Event) : Decidable (Stops log) := inferInstanceAs (Decidable (List.Pairwise ..))

/-- List form: a start finds no failed result. Generator form: a failed result finds no statement left. -/
def Event.Ok (form : Form) : Event → Prop
  | .started _ clear => form = .list → clear = true
  | .recorded _ success left => form = .generator → success = false → left = false
  | .finished _ => True

instance (form : Form) : (event : Event) → Decidable (event.Ok form)
  | .started _ _ => inferInstanceAs (Decidable (_ → _))
  | .recorded _ _ _ => inferInstanceAs (Decidable (_ → _ → _))
  | .finished _ => isTrue trivial

/-! ## Logs -/

section Logs

variable {event : Event} {log log' : List Event} {f : Bool}

theorem stops_cons : Stops (event :: log) ↔ (event.failed → ∀ ev ∈ log, ev.isStart = false) ∧ Stops log := by
  unfold Stops
  rw [pairwise_cons]
  exact and_congr_left' ⟨fun h hf ev hev => h ev hev hf, fun h ev hev hf => h hf ev hev⟩

/-- Each start says whether a failed result had been recorded; `f` is for before. -/
def Clear (f : Bool) : List Event → Prop
  | [] => True
  | .started _ clear :: log => clear = !f ∧ Clear f log
  | .finished _ :: log => Clear f log
  | .recorded _ success _ :: log => Clear (f || !success) log

theorem clear_append : Clear f (log ++ log') ↔ Clear f log ∧ Clear (f || log.any failed) log' := by
  induction log generalizing f with
  | nil => simp [Clear]
  | cons event log ih => cases event <;> simp [Clear, ih, failed, and_assoc, Bool.or_assoc]

theorem stops_iff_of_clear (h : Clear f log) : ((f → ∀ ev ∈ log, ev.isStart = false) ∧ Stops log) ↔
    ∀ ev ∈ log, ev.Ok .list := by
  induction log generalizing f with
  | nil => simp [Stops]
  | cons event log ih =>
    rw [stops_cons]
    simp only [forall_mem_cons]
    cases event with
    | started idx clear =>
      rw [← ih h.2, h.1]
      cases f <;> simp [Event.Ok, isStart, failed]
    | finished idx =>
      rw [← ih h]
      simp [Event.Ok, isStart, failed]
    | recorded idx success left =>
      rw [← ih h]
      cases f <;> cases success <;> simp [Event.Ok, isStart, failed]

/-- Each result says whether a statement was started after it. -/
def Answered : List Event → Prop
  | [] => True
  | .recorded _ _ left :: log => left = log.any isStart ∧ Answered log
  | .started _ _ :: log | .finished _ :: log => Answered log

theorem answered_append (h : Answered log) (h' : Answered log')
    (hlast : log'.any isStart → ∀ idx success, .recorded idx success false ∉ log) : Answered (log ++ log') := by
  induction log with
  | nil => exact h'
  | cons event log ih =>
    have hlast' := fun hs idx success hmem => hlast hs idx success (mem_cons_of_mem event hmem)
    cases event with
    | started idx clear => exact ih h hlast'
    | finished idx => exact ih h hlast'
    | recorded idx success left =>
      refine ⟨(?_ : left = (log ++ log').any isStart), ih h.2 hlast'⟩
      rw [any_append, ← h.1]
      cases left with
      | true => rfl
      | false =>
        rw [Bool.false_or, eq_comm, Bool.eq_false_iff]
        exact fun hs => hlast hs idx success mem_cons_self

theorem stops_iff_of_answered (h : Answered log) : Stops log ↔ ∀ ev ∈ log, ev.Ok .generator := by
  induction log with
  | nil => simp [Stops]
  | cons event log ih =>
    rw [stops_cons, forall_mem_cons]
    cases event with
    | started idx clear => simp [Event.Ok, failed, ih h]
    | finished idx => simp [Event.Ok, failed, ih h]
    | recorded idx success left =>
      rw [ih h.2, h.1]
      simp [Event.Ok, failed]

end Logs

/-! ## What a region adds -/

structure Follows (form : Form) (e e' : Executor σ ρ) (tail : List Event) : Prop where
  log : e'.log = e.log ++ tail
  failFast : e'.failFast = e.failFast
  suffix : e'.enumStatements <:+ e.enumStatements
  clear : form = .list → Clear (hasFailure e) tail ∧ hasFailure e' = (hasFailure e || tail.any failed)
  answered : form = .generator → Answered tail ∧ (tail.any isStart → e.enumStatements ≠ []) ∧
    ∀ idx success, .recorded idx success false ∈ tail → e'.enumStatements = []

section Follows

variable {form : Form} {env : Env σ ρ} {e e' e'' : Executor σ ρ} {tail tail' : List Event}

theorem Follows.refl (form : Form) (e : Executor σ ρ) : Follows form e e [] :=
  ⟨(append_nil _).symm, rfl, suffix_rfl, fun _ => ⟨trivial, by simp⟩, fun _ => ⟨trivial, by simp, by simp⟩⟩

theorem Follows.trans (h : Follows form e e' tail) (h' : Follows form e' e'' tail') :
    Follows form e e'' (tail ++ tail') := by
  refine ⟨by rw [h'.log, h.log, append_assoc], h'.failFast.trans h.failFast, h'.suffix.trans h.suffix, ?_, ?_⟩
  · intro hf
    obtain ⟨hc, hq⟩ := h.clear hf
    obtain ⟨hc', hq'⟩ := h'.clear hf
    rw [hq] at hc' hq'
    exact ⟨clear_append.mpr ⟨hc, hc'⟩, by rw [hq', any_append, Bool.or_assoc]⟩
  intro hf
  obtain ⟨ha, hs, hr⟩ := h.answered hf
  obtain ⟨ha', hs', hr'⟩ := h'.answered hf
  have hnil : e'.enumStatements = [] → e''.enumStatements = [] := fun hn => suffix_nil.mp (hn ▸ h'.suffix)
  refine ⟨answered_append ha ha' fun hst idx success hmem => hs' hst (hr idx success hmem), ?_, ?_⟩
  · rw [any_append, Bool.or_eq_true]
    rintro (hst | hst) hn
    · exact hs hst hn
    · exact hs' hst (suffix_nil.mp (hn ▸ h.suffix))
  intro idx success hmem
  rcases mem_append.mp hmem with hmem | hmem
  · exact hnil (hr idx success hmem)
  · exact hr' idx success hmem

theorem follows_opened {idx : Nat} {stmt : σ} {rest : List (Nat × σ)} (he : e.enumStatements = (idx, stmt) :: rest) :
    Follows form e (opened e idx rest) [.started idx !hasFailure e] := by
  refine ⟨rfl, rfl, ?_, fun _ => ⟨⟨rfl, trivial⟩, (Bool.or_false _).symm⟩, fun _ => ⟨trivial, fun _ => ?_, by simp⟩⟩
  · rw [he]
    exact suffix_cons _ _
  · rw [he]
    exact cons_ne_nil _ _

theorem follows_finished (form : Form) (e : Executor σ ρ) (idx : Nat) :
    Follows form e (e.event (.finished idx)) [.finished idx] :=
  ⟨rfl, rfl, suffix_rfl, fun _ => ⟨trivial, (Bool.or_false _).symm⟩, fun _ => ⟨trivial, by simp [isStart], by simp⟩⟩

theorem follows_putUnlocked (form : Form) (entry : Nat × ExecutionResult ρ) (e : Executor σ ρ) :
    ∃ tail, Follows form e (putUnlocked form entry e) tail := by
  cases form with
  | list =>
    refine ⟨[.recorded entry.1 entry.2.success !e.enumStatements.isEmpty], rfl, rfl, suffix_rfl, fun _ => ⟨trivial, ?_⟩,
      nofun⟩
    simp [putUnlocked, record, Executor.event, hasFailure, failed]
  | generator => exact ⟨[], .refl _ e⟩

/-- Nothing that the log is about has changed. -/
theorem Follows.congr (h : Follows form e e' tail) (hl : e''.log = e'.log) (hf : e''.failFast = e'.failFast)
    (hs : e''.enumStatements = e'.enumStatements) (hq : form = .list → e''.resultsQueue = e'.resultsQueue) :
    Follows form e e'' tail := by
  refine ⟨hl.trans h.log, hf.trans h.failFast, hs ▸ h.suffix, fun hfr => ?_, fun hfr => hs ▸ h.answered hfr⟩
  have hsame : hasFailure e'' = hasFailure e' := by rw [hasFailure, hasFailure, hq hfr]
  rw [hsame]
  exact h.clear hfr

theorem follows_arrive (form : Form) (e : Executor σ ρ) (arrival : Arrival) :
    ∃ tail, Follows form e (arrive form e arrival) tail := by
  rcases arrive_cases form e arrival with ⟨heq, -⟩ | ⟨entry, futures, tasks, log, -, hlog, heq⟩ <;> rw [heq]
  · exact ⟨[], .refl form e⟩
  have hmoved : ∃ tail, Follows form e { e with futures, tasks, log, blocked := e.blocked ++ [entry] } tail := by
    rcases hlog with ⟨rfl, -⟩ | ⟨rfl, -⟩
    · exact ⟨_, (Follows.refl form e).congr rfl rfl rfl fun _ => rfl⟩
    · exact ⟨_, (follows_finished form e entry.1).congr rfl rfl rfl fun _ => rfl⟩
  obtain ⟨tail, ht⟩ := hmoved
  obtain ⟨tail', ht'⟩ := follows_putUnlocked form entry _
  exact ⟨_, ht.trans ht'⟩

theorem follows_arriveAll (form : Form) (e : Executor σ ρ) : ∃ tail, Follows form e (arriveAll form e) tail := by
  refine arriveAll_invariant (P := fun e' => ∃ tail, Follows form e e' tail)
    ⟨[], (Follows.refl form e).congr rfl rfl rfl fun _ => rfl⟩ ?_
  rintro e' arrival ⟨tail, ht⟩
  obtain ⟨tail', ht'⟩ := follows_arrive form e' arrival
  exact ⟨_, ht.trans ht'⟩

/-- What `_execute_next` adds: a start, if there is a statement. -/
def Adds (form : Form) (e e' : Executor σ ρ) : Prop :=
  ∃ tail, Follows form e e' tail ∧ (form = .generator → e.enumStatements ≠ [] → tail.any isStart)

/-- The rest of `_put_result` under the lock, with the `_execute_next` in it. -/
theorem follows_takeIn {entry : Nat × ExecutionResult ρ} (h : Adds form (takeIn form entry e) e') :
    ∃ tail, Follows form e e' tail := by
  obtain ⟨tail, ht, hs⟩ := h
  cases form with
  | list =>
    have hin : Follows .list e (takeIn .list entry e) [] := (Follows.refl .list e).congr rfl rfl rfl fun _ => rfl
    exact ⟨_, hin.trans ht⟩
  | generator =>
    obtain ⟨ha, hst, hr⟩ := ht.answered rfl
    have hen : (takeIn .generator entry e).enumStatements = e.enumStatements := rfl
    rw [hen] at hs hst
    have hleft : (!e.enumStatements.isEmpty) = tail.any isStart := by
      rw [Bool.eq_iff_iff]
      refine ⟨fun hn => hs rfl (by simpa using hn), fun hn => ?_⟩
      simpa using hst hn
    refine ⟨recorded entry.1 entry.2.success (!e.enumStatements.isEmpty) :: tail, ?_, ht.failFast, ht.suffix, nofun,
      fun _ => ⟨⟨hleft, ha⟩, fun hn => hst (by simpa [isStart] using hn), ?_⟩⟩
    · rw [ht.log]
      simp [takeIn, record, Executor.event]
    intro idx success hmem
    rcases mem_cons.mp hmem with heq | hmem
    · have hnil : e.enumStatements = [] := by
        have hl := (Event.recorded.inj heq).2.2
        simpa using hl
      exact suffix_nil.mp (hnil ▸ ht.suffix)
    · exact hr idx success hmem

theorem adds_opened {idx : Nat} {stmt : σ} {rest : List (Nat × σ)} (he : e.enumStatements = (idx, stmt) :: rest)
    (h : ∃ tail, Follows form (opened e idx rest) e' tail) : Adds form e e' := by
  obtain ⟨tail, ht⟩ := h
  exact ⟨_, (follows_opened he).trans ht, fun _ _ => by simp [isStart]⟩

theorem follows_nested (form : Form) (e : Executor σ ρ) (idx : Nat) (rest : List (Nat × σ)) :
    Follows form (opened e idx rest) (nested e idx rest) [.finished idx] :=
  (follows_finished form (opened e idx rest) idx).congr rfl rfl rfl fun _ => rfl

theorem executeNext_adds (form : Form) (hroom : Room env e) : (executeNext form env e).2 ≠ .overflow ∧
    (executeNext form env e).1.execDepth = e.execDepth ∧ Adds form e (executeNext form env e).1 := by
  apply executeUpTo_rule (P := fun e e' _ => Adds form e e') _ _ _ _ _ _ _ e le_rfl hroom
  · exact fun e he => ⟨[], .refl form e, fun _ hne => absurd he hne⟩
  · rintro e e' _ ⟨tail, ht, hs⟩
    obtain ⟨tail₀, ht₀⟩ := follows_arriveAll form e
    refine ⟨_, ht₀.trans ht, fun hf hne => ?_⟩
    rw [any_append, hs hf (by rw [(arriveAll_kept form _).1]; exact hne), Bool.or_true]
  · exact fun e idx stmt rest res he _ =>
      adds_opened he ⟨[], (Follows.refl form _).congr rfl rfl rfl fun _ => rfl⟩
  · exact fun e idx stmt rest exc he _ =>
      adds_opened he ⟨_, (follows_finished form _ idx).congr rfl rfl rfl fun _ => rfl⟩
  · rintro e idx stmt rest res exception consumer rfl _ he _ _
    obtain ⟨tail, ht⟩ := follows_putUnlocked .list (idx, res) (nested e idx rest)
    exact adds_opened he ⟨_, ((follows_nested .list e idx rest).trans ht).congr rfl rfl rfl fun _ => rfl⟩
  intro e idx stmt rest res e' more _ he _ hn
  obtain ⟨tail, ht⟩ := follows_putUnlocked form (idx, res) (nested e idx rest)
  obtain ⟨tail', ht'⟩ := follows_takeIn hn
  obtain ⟨consumer, hend⟩ := putEnd_cases form more e'
  rw [hend]
  exact adds_opened he ⟨_, (((follows_nested form e idx rest).trans ht).trans ht').congr rfl rfl rfl fun _ => rfl⟩

theorem putLocked_follows (form : Form) (entry : Nat × ExecutionResult ρ) (hroom : Room env e) :
    (putLocked form (executeNext form env) entry e).1.execDepth = e.execDepth ∧
    ∃ tail, Follows form e (putLocked form (executeNext form env) entry e).1 tail := by
  by_cases hstop : form = .list ∧ e.failFast ∧ entry.2.success = false
  · obtain ⟨rfl, hf, hs⟩ := hstop
    obtain ⟨exception, consumer, heq⟩ := putLocked_stop (executeNext .list env) _ hf hs
    rw [heq]
    exact ⟨rfl, [], (Follows.refl .list e).congr rfl rfl rfl fun _ => rfl⟩
  have hg : form = .generator ∨ e.failFast = false ∨ entry.2.success := by
    cases form with
    | generator => exact .inl rfl
    | list => simpa [Classical.or_iff_not_imp_left] using hstop
  have hroom' : Room env (takeIn form entry e) := by cases form <;> exact hroom
  obtain ⟨hno, hd, hn⟩ := executeNext_adds form hroom'
  obtain ⟨tail, ht⟩ := follows_takeIn hn
  obtain ⟨consumer, hend⟩ := putEnd_cases form (executeNext form env (takeIn form entry e)).2
    (executeNext form env (takeIn form entry e)).1
  rw [putLocked_go form _ _ hg hno, hend]
  exact ⟨hd.trans (by cases form <;> rfl), tail, ht.congr rfl rfl rfl fun _ => rfl⟩

/-! ## Whole runs -/

variable {statements : List σ}

/-- An executor between two regions, at some distance from `e`. -/
structure Reached (form : Form) (statements : List σ) (e e' : Executor σ ρ) : Prop where
  depth : e'.execDepth = 0
  ahead : e'.enumStatements <:+ numbered statements
  follows : ∃ tail, Follows form e e' tail

theorem Reached.next {e₀ : Executor σ ρ} (h : Reached form statements e₀ e) (hd : e'.execDepth = e.execDepth)
    (ht : ∃ tail, Follows form e e' tail) : Reached form statements e₀ e' := by
  obtain ⟨tail, ht⟩ := ht
  obtain ⟨tail₀, ht₀⟩ := h.follows
  exact ⟨hd.trans h.depth, ht.suffix.trans h.ahead, _, ht₀.trans ht⟩

theorem Reached.room {e₀ : Executor σ ρ} (hshallow : Shallow env statements) (h : Reached form statements e₀ e) :
    Room env e := by
  unfold Room
  rw [h.depth, Nat.zero_add]
  exact hshallow _ h.ahead

variable (hshallow : Shallow env statements)
include hshallow

theorem executeLoop_reached {e₀ : Executor σ ρ} (n : Nat) (h : Reached form statements e₀ e) :
    Reached form statements e₀ (executeLoop form env n e) := by
  induction n generalizing e with
  | zero => exact h
  | succ n ih =>
    obtain ⟨hno, hd, tail, ht, -⟩ := executeNext_adds form (h.room hshallow)
    have hr := h.next hd ⟨tail, ht⟩
    unfold executeLoop
    split
    · rename_i heq
      rw [heq] at hr
      exact ih hr
    · rename_i heq
      rw [heq] at hr
      exact hr
    · rename_i heq
      rw [heq] at hno
      exact absurd rfl hno

theorem step_reached {e₀ : Executor σ ρ} (action : Action) (h : Reached form statements e₀ e) :
    Reached form statements e₀ (step form env e action) := by
  cases action with
  | arrive arrival =>
    obtain ⟨futures, tasks, blocked, queue, log, heq⟩ := arrive_frame form e arrival
    have hd : (arrive form e arrival).execDepth = e.execDepth := by rw [heq]
    exact h.next hd (follows_arrive form e arrival)
  | put i arrivals =>
    unfold step
    dsimp only
    split
    · exact h
    rename_i entry _
    have h' : Reached form statements e₀ { e with blocked := e.blocked.eraseIdx i, arrivals } :=
      h.next rfl ⟨[], (Follows.refl form e).congr rfl rfl rfl fun _ => rfl⟩
    obtain ⟨hd, ht⟩ := putLocked_follows form entry (h'.room hshallow)
    exact h'.next hd ht
  | consume =>
    obtain ⟨consumer, yielded, current, queue, heq, hq⟩ := results_cases form e
    rw [step, heq]
    refine h.next rfl ⟨[], ?_⟩
    exact (Follows.refl form e).congr rfl rfl rfl hq

end Follows

def failsFirst : Env Nat Nat := ⟨fun idx _ => .later ⟨idx != 0, idx⟩, 160, 0⟩

def raisesFirst : Env Nat Nat := ⟨fun idx _ => if idx = 0 then .raises 7 else .later ⟨true, idx⟩, 160, 0⟩

end CqlDriver.Concurrent
