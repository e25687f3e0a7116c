import CqlDriver.Concurrent.Regions
import Mathlib.Algebra.Order.Group.Multiset
import Mathlib.Tactic.Abel

/-! # One result for each statement, in order -/

namespace CqlDriver.Concurrent

open Lib List Event

variable {σ ρ : Type}

/-! ## What a region keeps -/

structure Kept (form : Form) (e e' : Executor σ ρ) : Prop where
  yielded : e'.yielded = e.yielded
  current : form = .generator → e'.current = e.current
  execCount : e.execCount ≤ e'.execCount
  consumer : e'.consumer = e.consumer ∨ e.consumer = .waiting ∧ e'.consumer = .notified

variable {form : Form} {env : Env σ ρ}

theorem Kept.trans {e e' e'' : Executor σ ρ} (h : Kept form e e') (h' : Kept form e' e'') : Kept form e e'' := by
  refine ⟨h'.yielded.trans h.yielded, fun hf => (h'.current hf).trans (h.current hf),
    h.execCount.trans h'.execCount, ?_⟩
  rcases h.consumer with heq | ⟨hw, hnot⟩
  · rw [← heq]
    exact h'.consumer
  rcases h'.consumer with heq | ⟨hw', -⟩
  · exact .inr ⟨hw, heq.trans hnot⟩
  rw [hnot] at hw'
  cases hw'

theorem kept_notify {e : Executor σ ρ} : Kept form e (notify e) := by
  unfold notify
  split
  · rename_i hw
    exact ⟨rfl, fun _ => rfl, le_rfl, .inr ⟨hw, rfl⟩⟩
  · exact ⟨rfl, fun _ => rfl, le_rfl, .inl rfl⟩

theorem kept_putEnd (more : Next) (e : Executor σ ρ) : Kept form e (putEnd form more e) := by
  unfold putEnd
  split
  · split
    · exact kept_notify
    · exact ⟨rfl, fun _ => rfl, le_rfl, .inl rfl⟩
  · exact kept_notify

section

variable (entry : Nat × ExecutionResult ρ)

variable (form) in
theorem kept_takeIn (e : Executor σ ρ) : Kept form e (takeIn form entry e) := by
  cases form with
  | list => exact ⟨rfl, fun h => (by cases h), le_rfl, .inl rfl⟩
  | generator => exact ⟨rfl, fun _ => rfl, le_rfl, .inl rfl⟩

theorem kept_putUnlocked {e : Executor σ ρ} : Kept form e (putUnlocked form entry e) := by
  cases form with
  | list | generator => exact ⟨rfl, fun _ => rfl, le_rfl, .inl rfl⟩

end

/-! ## The places of the started statements -/

def numbered (statements : List σ) : List (Nat × σ) := statements.zipIdx.map Prod.swap

/-- Fewer statements in a row are done at once than calls of `_execute` can nest. -/
def Shallow (env : Env σ ρ) (statements : List σ) : Prop :=
  ∀ rest, rest <:+ numbered statements → doneAhead env rest < env.maxDepth

theorem shallow_of_length {env : Env σ ρ} {statements : List σ} (h : statements.length < env.maxDepth) :
    Shallow env statements := by
  intro rest hs
  have hd : doneAhead env rest ≤ rest.length := (takeWhile_sublist _).length_le
  have hl := hs.length_le
  rw [numbered, length_map, length_zipIdx] at hl
  omega

def outcomes (env : Env σ ρ) (statements : List σ) : List (Nat × ExecutionResult ρ) :=
  (numbered statements).map fun p => (p.1, (env.executeAsync p.1 p.2).outcome)

def Event.isStart : Event → Bool
  | .started _ _ => true
  | .finished _ | .recorded _ _ _ => false

def Event.isFinish : Event → Bool
  | .finished _ => true
  | .started _ _ | .recorded _ _ _ => false

/-- The number of statements started and not yet finished is never above `k`. -/
def AtMost (k : Nat) (log : List Event) : Prop :=
  ∀ n, (log.take n).countP isStart ≤ (log.take n).countP isFinish + k

def Running (log : List Event) (n : Nat) : Prop :=
  log.countP isStart = log.countP isFinish + n

def inFlight (e : Executor σ ρ) : Nat := e.futures.length + e.tasks.length + e.blocked.length

/-- The results not yielded, and those of waiting calls. -/
def places (form : Form) (e : Executor σ ρ) : Multiset (Nat × ExecutionResult ρ) :=
  ↑e.resultsQueue + ↑e.futures + ↑e.tasks +
    match form with
    | .list => 0
    | .generator => ↑e.blocked

def taken (form : Form) (env : Env σ ρ) (statements : List σ) (e : Executor σ ρ) :
    Multiset (Nat × ExecutionResult ρ) :=
  match form with
  | .list => 0
  | .generator => ↑((outcomes env statements).take e.yielded.length)

/-- The executor between two regions, with `c` of the `k` slots in use. -/
structure Steady (form : Form) (env : Env σ ρ) (statements : List σ) (k c : Nat)
    (e : Executor σ ρ) : Prop where
  failFast : e.failFast = false
  enumStatements : e.enumStatements = (numbered statements).drop e.execCount
  started : e.execCount ≤ statements.length
  placed : taken form env statements e + places form e = ↑((outcomes env statements).take e.execCount)
  atMost : inFlight e ≤ c
  full : e.enumStatements = [] ∨ inFlight e = c
  log : AtMost k e.log
  running : Running e.log e.futures.length
  counted : form = .list → e.current + e.blocked.length = e.resultsQueue.length
  sorted : form = .generator → e.resultsQueue.Pairwise Precedes

variable {log : List Event} {n : Nat}

theorem atMost_snoc {k : Nat} (h : AtMost k log) (event : Event) (he : event.isStart = false) :
    AtMost k (log ++ [event]) := by
  intro n
  have hn := h n
  rw [take_append, countP_append, countP_append]
  have hs : ([event].take (n - log.length)).countP isStart = 0 := by
    rw [countP_eq_zero]
    intro ev hmem
    rw [mem_singleton.mp (mem_of_mem_take hmem), he]
    simp
  omega

theorem atMost_started {k : Nat} (h : AtMost k log)
    (hr : log.countP isStart + 1 ≤ log.countP isFinish + k) (idx : Nat) (clear : Bool) :
    AtMost k (log ++ [.started idx clear]) := by
  intro n
  by_cases hn : n ≤ log.length
  · rw [take_append_of_le_length hn]
    exact h n
  have hs : [started idx clear].countP isStart = 1 := rfl
  have hf : [started idx clear].countP isFinish = 0 := rfl
  rw [take_of_length_le (by simp; omega), countP_append, countP_append]
  omega

theorem running_started (h : Running log n) (idx : Nat) (clear : Bool) :
    Running (log ++ [.started idx clear]) (n + 1) := by
  have hs : [started idx clear].countP isStart = 1 := rfl
  have hf : [started idx clear].countP isFinish = 0 := rfl
  unfold Running at h ⊢
  rw [countP_append, countP_append]
  omega

theorem running_finished (h : Running log (n + 1)) (idx : Nat) : Running (log ++ [.finished idx]) n := by
  have hs : [finished idx].countP isStart = 0 := rfl
  have hf : [finished idx].countP isFinish = 1 := rfl
  unfold Running at h ⊢
  rw [countP_append, countP_append]
  omega

theorem running_recorded (h : Running log n) (idx : Nat) (success left : Bool) :
    Running (log ++ [.recorded idx success left]) n := by
  unfold Running at h ⊢
  rw [countP_append, countP_append]
  exact h

theorem outcomes_take_succ {env : Env σ ρ} {statements : List σ} {idx : Nat} {st : σ}
    {rest : List (Nat × σ)} (h : (numbered statements).drop n = (idx, st) :: rest) :
    (numbered statements).drop (n + 1) = rest ∧ n < statements.length ∧
    (outcomes env statements).take (n + 1) =
      (outcomes env statements).take n ++ [(idx, (env.executeAsync idx st).outcome)] := by
  have hat : (numbered statements)[n]? = some (idx, st) := by
    rw [← head?_drop, h, head?_cons]
  refine ⟨?_, ?_, ?_⟩
  · rw [← tail_drop, h, tail_cons]
  · have hlt := (List.getElem?_eq_some_iff.mp hat).1
    simpa [numbered] using hlt
  rw [take_add_one, outcomes, getElem?_map, hat]
  rfl

variable {statements : List σ} {k c : Nat}

theorem steady_wider {e : Executor σ ρ} (h : Steady form env statements k c e) (he : e.enumStatements = [])
    {c' : Nat} (hc : c ≤ c') : Steady form env statements k c' e :=
  { h with
    atMost := h.atMost.trans hc
    full := .inl he }

theorem steady_putEnd {e : Executor σ ρ} (h : Steady form env statements k c e) (more : Next) (depth : Nat) :
    Steady form env statements k c { putEnd form more e with execDepth := depth } := by
  obtain ⟨cns, heq⟩ := putEnd_cases form more e
  rw [heq]
  exact { h with }

theorem steady_room {e : Executor σ ρ} (h : Steady form env statements k c e) (hk : c + 1 ≤ k) :
    e.log.countP isStart + 1 ≤ e.log.countP isFinish + k := by
  have hrun := h.running
  have ha := h.atMost
  unfold inFlight at ha
  unfold Running at hrun
  omega

theorem coe_heappush (queue : List (Nat × ExecutionResult ρ)) (entry : Nat × ExecutionResult ρ) :
    (↑(heappush queue entry) : Multiset (Nat × ExecutionResult ρ)) = ↑queue + ↑[entry] := by
  rw [Multiset.coe_add, Multiset.coe_eq_coe]
  exact (perm_orderedInsert _ _ _).trans (perm_append_singleton _ _).symm

section Started

variable {e : Executor σ ρ} {idx : Nat} {stmt : σ} {rest : List (Nat × σ)}

variable (h : Steady form env statements k c e)
include h

variable (he : e.enumStatements = (idx, stmt) :: rest)
include he

theorem steady_inFlight : inFlight e = c := by
  rcases h.full with hnil | hf
  · rw [he] at hnil
    cases hnil
  · exact hf

theorem steady_next {c' : Nat} {e' : Executor σ ρ} {res : ExecutionResult ρ}
    (hres : (env.executeAsync idx stmt).outcome = res) (hf : e'.failFast = e.failFast)
    (hr : e'.enumStatements = rest) (hc : e'.execCount = e.execCount + 1) (hy : e'.yielded = e.yielded)
    (hp : places form e' = places form e + ↑[(idx, res)]) (hfl : inFlight e' = c') (hlog : AtMost k e'.log)
    (hrun : Running e'.log e'.futures.length)
    (hcnt : form = .list → e'.current + e'.blocked.length = e'.resultsQueue.length)
    (hs : form = .generator → e'.resultsQueue.Pairwise Precedes) : Steady form env statements k c' e' := by
  obtain ⟨hd, hlt, ht⟩ := outcomes_take_succ (h.enumStatements ▸ he)
  have htk : taken form env statements e' = taken form env statements e := by
    simp only [taken, hy]
  refine ⟨hf.trans h.failFast, by rw [hr, hc, hd], hc ▸ hlt, ?_, hfl.le, .inr hfl, hlog, hrun, hcnt, hs⟩
  rw [htk, hp, ← add_assoc, h.placed, hc, ht, hres, Multiset.coe_add]

end Started

def Awaits (e : Executor σ ρ) : Prop := e.consumer = .waiting → e.current < e.execCount

theorem steady_card {e : Executor σ ρ} (h : Steady form env statements k c e) :
    (taken form env statements e).card + (places form e).card = min e.execCount statements.length := by
  rw [← Multiset.card_add, h.placed, Multiset.coe_card]
  simp [outcomes, numbered]

theorem steady_current_le {e : Executor σ ρ} (h : Steady .list env statements k c e) :
    e.current ≤ e.execCount := by
  have hc := steady_card h
  have hcnt := h.counted rfl
  simp only [places, Multiset.card_add, Multiset.coe_card] at hc
  omega

theorem notify_not_waiting (e : Executor σ ρ) : (notify e).consumer ≠ .waiting := by
  unfold notify
  split
  · simp
  · assumption

theorem awaits_putEnd {e : Executor σ ρ} (h : Steady .list env statements k c e) {more : Next}
    (hm : more ≠ .exhausted → Awaits e) : Awaits (putEnd .list more e) := by
  unfold putEnd
  dsimp only
  split
  · intro hw
    exact absurd hw (notify_not_waiting e)
  rename_i hne
  by_cases hmore : more = .exhausted
  · have hle := steady_current_le h
    intro _
    simp only [hmore, true_and] at hne
    omega
  · exact hm hmore

/-! ## Work left -/

def load (e : Executor σ ρ) : Nat :=
  5 * e.enumStatements.length + 5 * (e.futures.length + e.tasks.length) + 3 * e.blocked.length + e.resultsQueue.length

def Consumer.work : Consumer ρ → Nat
  | .start | .notified | .yielding => 1
  | .waiting | .finished | .raised _ => 0

def rank (e : Executor σ ρ) : Nat := load e + e.consumer.work

theorem work_le (cns : Consumer ρ) : cns.work ≤ 1 := by
  cases cns <;> simp [Consumer.work]

theorem load_putEnd (form : Form) (more : Next) (e : Executor σ ρ) : load (putEnd form more e) = load e := by
  obtain ⟨cns, heq⟩ := putEnd_cases form more e
  rw [heq]
  rfl

theorem heappush_length (queue : List (Nat × ExecutionResult ρ)) (entry : Nat × ExecutionResult ρ) :
    (heappush queue entry).length = queue.length + 1 := orderedInsert_length ..

theorem atOnce_outcome {ans : Answer ρ} {depth : Nat} {result : ExecutionResult ρ}
    (h : ans.atOnce depth = some result) : ans.outcome = result := by
  cases ans <;> simp_all [Answer.atOnce, Answer.outcome]

/-! ## Arrivals -/

section Arrivals

variable {entry : Nat × ExecutionResult ρ} {i : Nat} {l futures tasks : List (Nat × ExecutionResult ρ)}
  {e : Executor σ ρ} {log : List Event}

theorem coe_eraseIdx (h : l[i]? = some entry) :
    (↑(l.eraseIdx i) + ↑[entry] : Multiset (Nat × ExecutionResult ρ)) = ↑l := by
  obtain ⟨hi, rfl⟩ := List.getElem?_eq_some_iff.mp h
  rw [Multiset.coe_add, Multiset.coe_eq_coe]
  exact (perm_append_singleton _ _).trans (getElem_cons_eraseIdx_perm hi)

theorem length_eraseIdx_succ (h : l[i]? = some entry) : (l.eraseIdx i).length + 1 = l.length := by
  obtain ⟨hi, -⟩ := List.getElem?_eq_some_iff.mp h
  rw [length_eraseIdx_of_lt hi]
  omega

theorem steady_moved (h : Steady form env statements k c e)
    (hm : (futures ++ tasks ++ [entry]).Perm (e.futures ++ e.tasks)) (hlog : AtMost k log) (hrun : Running log futures.length) : Steady form env statements k c
      (putUnlocked form entry { e with futures, tasks, log, blocked := e.blocked ++ [entry] }) := by
  have hc := hm.length_eq
  rw [← Multiset.coe_eq_coe] at hm
  simp only [← Multiset.coe_add] at hm
  simp only [length_append, length_singleton] at hc
  have hf : inFlight { e with futures, tasks, log, blocked := e.blocked ++ [entry] } = inFlight e := by
    simp only [inFlight, length_append, length_singleton]
    omega
  have hq : (↑e.resultsQueue + ↑e.futures + ↑e.tasks : Multiset (Nat × ExecutionResult ρ)) =
      ↑e.resultsQueue + (↑futures + ↑tasks + ↑[entry]) := by rw [hm, add_assoc]
  have hp := h.placed
  have ha := h.atMost
  have hfl := h.full
  rw [← hf] at ha hfl
  cases form with
  | list =>
    refine { h with
      placed := ?_, atMost := ha, full := hfl, log := atMost_snoc hlog _ rfl, running := running_recorded hrun _ _ _,
      counted := ?_, sorted := by simp }
    · simp only [places, putUnlocked, record, Executor.event, ← Multiset.coe_add] at hp ⊢
      rw [← hp, hq]
      abel
    have hcnt := h.counted rfl
    simp only [putUnlocked, record, Executor.event, length_append]
    omega
  | generator =>
    refine { h with
      placed := ?_, atMost := ha, full := hfl, log := hlog, running := hrun,
      counted := by simp }
    simp only [places, taken, putUnlocked, ← Multiset.coe_add] at hp ⊢
    rw [← hp, hq]
    abel

theorem steady_arrive (h : Steady form env statements k c e) (arrival : Arrival) :
    Steady form env statements k c (arrive form e arrival) := by
  rcases arrive_cases form e arrival with ⟨heq, -⟩ | ⟨entry, futures, tasks, log, hm, hlog, heq⟩ <;> rw [heq]
  · exact h
  rcases hlog with ⟨rfl, rfl⟩ | ⟨rfl, hlen⟩
  · exact steady_moved h hm h.log h.running
  · exact steady_moved h hm (atMost_snoc h.log _ rfl) (running_finished (hlen ▸ h.running) entry.1)

theorem load_putUnlocked (form : Form) (e : Executor σ ρ) (entry : Nat × ExecutionResult ρ) :
    load (putUnlocked form entry e) ≤ load e + 1 := by
  cases form with
  | list =>
    simp only [load, putUnlocked, record, Executor.event, length_append, length_singleton]
    omega
  | generator => exact Nat.le_succ _

/-- An arrival is progress, if there is anything to arrive. -/
theorem load_arrive (form : Form) (e : Executor σ ρ) (arrival : Arrival) :
    load (arrive form e arrival) ≤ load e ∧ (Enabled e (.arrive arrival) → load (arrive form e arrival) < load e) := by
  rcases arrive_cases form e arrival with ⟨heq, hen⟩ | ⟨entry, futures, tasks, log, hm, -, heq⟩ <;> rw [heq]
  · exact ⟨le_rfl, fun h => absurd h hen⟩
  have hlen := hm.length_eq
  have hl := load_putUnlocked form { e with futures, tasks, log, blocked := e.blocked ++ [entry] } entry
  simp only [load, length_append, length_singleton] at hl hlen ⊢
  omega

theorem kept_arrive (e : Executor σ ρ) (arrival : Arrival) : Kept form e (arrive form e arrival) := by
  obtain ⟨futures, tasks, blocked, queue, log, heq⟩ := arrive_frame form e arrival
  rw [heq]
  exact ⟨rfl, fun _ => rfl, le_rfl, .inl rfl⟩

variable (form env) in
theorem arriveAll_keeps (e : Executor σ ρ) : Kept form e (arriveAll form e) ∧ load (arriveAll form e) ≤ load e ∧
    ∀ statements k c, Steady form env statements k c e → Steady form env statements k c (arriveAll form e) := by
  refine arriveAll_invariant (P := fun e' => Kept form e e' ∧ load e' ≤ load e ∧ ∀ statements k c,
    Steady form env statements k c e → Steady form env statements k c e') ?_ fun e' arrival h => ?_
  · exact ⟨⟨rfl, fun _ => rfl, le_rfl, .inl rfl⟩, le_rfl, fun _ _ _ hs => { hs with }⟩
  · exact ⟨h.1.trans (kept_arrive e' arrival), (load_arrive form e' arrival).1.trans h.2.1,
      fun statements k c hs => steady_arrive (h.2.2 statements k c hs) arrival⟩

end Arrivals

/-! ## `_execute_next` -/

/-- What `_execute_next` does without `fail_fast`. -/
def Keeps (form : Form) (env : Env σ ρ) (e e' : Executor σ ρ) (more : Next) : Prop :=
  Kept form e e' ∧ load e' ≤ load e ∧ ∀ statements k c, Steady form env statements k c e → c + 1 ≤ k →
    Steady form env statements k (c + 1) e' ∧ (form = .list → more ≠ .exhausted → Awaits e')

variable (form) in
theorem executeNext_keeps {e : Executor σ ρ} (h : e.failFast = false) (hroom : Room env e) :
    (executeNext form env e).2 ≠ .overflow ∧ (executeNext form env e).1.execDepth = e.execDepth ∧
    Keeps form env e (executeNext form env e).1 (executeNext form env e).2 := by
  have hsr : ∀ {statements k c} {e : Executor σ ρ} idx rest, Steady form env statements k c e →
      form = .list → e.current < (opened e idx rest).execCount := by
    rintro statements k c e idx rest hst rfl
    exact Nat.lt_succ_of_le (steady_current_le hst)
  suffices hrule : (executeNext form env e).2 ≠ .overflow ∧ (executeNext form env e).1.execDepth = e.execDepth ∧
      (e.failFast = false → Keeps form env e (executeNext form env e).1 (executeNext form env e).2) from
    ⟨hrule.1, hrule.2.1, hrule.2.2 h⟩
  apply executeUpTo_rule (P := fun e e' more => e.failFast = false → Keeps form env e e' more) _ _ _ _ _ _ _ e le_rfl
    hroom
  · intro e he _
    refine ⟨⟨rfl, fun _ => rfl, le_rfl, .inl rfl⟩, le_rfl, fun statements k c hst _ => ?_⟩
    exact ⟨steady_wider hst he (Nat.le_succ c), fun _ hne => absurd rfl hne⟩
  · intro e e' more hn hf
    obtain ⟨hkp, hl, hst⟩ := arriveAll_keeps form env e
    obtain ⟨hkp', hl', hst'⟩ := hn ((arriveAll_kept form e).2.2.trans hf)
    exact ⟨hkp.trans hkp', hl'.trans hl, fun statements k c hs => hst' statements k c (hst statements k c hs)⟩
  · intro e idx st rest res he hans _
    refine ⟨⟨rfl, fun _ => rfl, Nat.le_succ _, .inl rfl⟩, ?_, fun statements k c hst hk => ?_⟩
    · simp only [load, opened, he, length_cons, length_append, length_nil]
      omega
    have hfl := steady_inFlight hst he
    refine ⟨steady_next hst he (show _ = res by rw [hans]; rfl) rfl rfl rfl rfl ?_ ?_
      (atMost_started hst.log (steady_room hst hk) idx _) ?_ hst.counted hst.sorted, fun hfr _ _ => hsr idx rest hst hfr⟩
    · simp only [places, opened, ← Multiset.coe_add]
      abel
    · simp only [inFlight, opened, length_append, length_singleton] at hfl ⊢
      omega
    rw [length_append]
    exact running_started hst.running idx _
  · intro e idx st rest exc he hans _
    refine ⟨⟨rfl, fun _ => rfl, Nat.le_succ _, .inl rfl⟩, ?_, fun statements k c hst hk => ?_⟩
    · simp only [load, opened, Executor.event, he, length_cons, length_append, length_nil]
      omega
    have hfl := steady_inFlight hst he
    refine ⟨steady_next hst he (show _ = ⟨false, exc⟩ by rw [hans]; rfl) rfl rfl rfl rfl ?_ ?_
      (atMost_snoc (atMost_started hst.log (steady_room hst hk) idx _) _ rfl)
      (running_finished (running_started hst.running idx _) idx) hst.counted hst.sorted,
      fun hfr _ _ => hsr idx rest hst hfr⟩
    · simp only [places, opened, Executor.event, ← Multiset.coe_add]
      abel
    simp only [inFlight, opened, Executor.event, length_append, length_singleton] at hfl ⊢
    omega
  · intro e idx st rest res exn cns _ hf _ _ _ hs
    rw [hf] at hs
    cases hs
  intro e idx st rest res e' more _ he hres hn hs
  obtain ⟨hkp, hl, hstea⟩ := hn ((delivered_kept form e idx rest res).2.2.trans hs)
  refine ⟨?_, ?_, fun statements k c hst hk => ?_⟩
  · have ho : Kept form e (nested e idx rest) := ⟨rfl, fun _ => rfl, Nat.le_succ _, .inl rfl⟩
    have hend : Kept form (putEnd form more e') { putEnd form more e' with execDepth := e.execDepth } :=
      ⟨rfl, fun _ => rfl, le_rfl, .inl rfl⟩
    have hd := ho.trans ((kept_putUnlocked (idx, res)).trans (kept_takeIn form (idx, res) _))
    exact hd.trans (hkp.trans ((kept_putEnd more e').trans hend))
  · have hend := load_putEnd form more e'
    have hd : load (delivered form e idx rest res) + 4 = load e := by
      cases form <;> simp only [load, delivered, takeIn, putUnlocked, record, nested, opened, Executor.event, he,
        length_cons, length_append, length_nil, heappush_length] <;> omega
    simp only [load] at hend hd hl ⊢
    omega
  have hd : Steady form env statements k c (delivered form e idx rest res) := by
    have hlog := atMost_snoc (atMost_snoc (atMost_started hst.log (steady_room hst hk) idx !hasFailure e) (.finished idx) rfl)
      (.recorded idx res.success !rest.isEmpty) rfl
    have hrun := running_recorded (running_finished (running_started hst.running idx !hasFailure e) idx) idx
      res.success !rest.isEmpty
    have hfl := steady_inFlight hst he
    cases form with
    | list =>
      refine steady_next hst he (atOnce_outcome hres) rfl rfl rfl rfl ?_ hfl hlog hrun ?_ (by simp)
      · simp only [places, delivered, takeIn, putUnlocked, record, nested, opened, Executor.event, ← Multiset.coe_add]
        abel
      have hcnt := hst.counted rfl
      simp only [delivered, takeIn, putUnlocked, record, nested, opened, Executor.event, length_append, length_singleton]
      omega
    | generator =>
      refine steady_next hst he (atOnce_outcome hres) rfl rfl rfl rfl ?_ hfl hlog hrun (by simp)
        fun _ => (hst.sorted rfl).orderedInsert _ _
      simp only [places, delivered, takeIn, putUnlocked, record, nested, opened, Executor.event, coe_heappush]
      abel
  obtain ⟨hnx, ha⟩ := hstea statements k c hd hk
  refine ⟨steady_putEnd hnx more e.execDepth, ?_⟩
  rintro rfl _
  exact awaits_putEnd hnx (ha rfl)

end CqlDriver.Concurrent
