import CqlDriver.Concurrent.Order

/-! # What the consumer gets -/

namespace CqlDriver.Concurrent

open Lib List
open Multiset (card_add coe_add coe_card)

variable {σ ρ : Type} {form : Form} {env : Env σ ρ} {statements : List σ} {k c : Nat}

def Consumer.ahead : Consumer ρ → Nat
  | .yielding => 1
  | .start | .waiting | .notified | .finished | .raised _ => 0

/-- The consumer has had the first results in order. -/
structure Reads (form : Form) (env : Env σ ρ) (statements : List σ) (e : Executor σ ρ) :
    Prop where
  yielded : e.yielded = ((outcomes env statements).take e.yielded.length).map Prod.snd
  position : form = .generator → e.yielded.length = e.current + e.consumer.ahead
  listForm : form = .list → e.consumer ≠ .yielding
  calm : ∀ exc, e.consumer ≠ .raised exc
  awaits : Awaits e
  woken : form = .generator → e.consumer = .notified → e.current < e.execCount
  next : form = .generator → e.consumer = .waiting → ∀ x ∈ e.resultsQueue.head?, x.1 ≠ e.current
  finished : e.consumer = .finished → e.yielded = (outcomes env statements).map Prod.snd

structure InOrder (form : Form) (env : Env σ ρ) (statements : List σ) (k : Nat)
    (e : Executor σ ρ) : Prop where
  steady : Steady form env statements k k e
  reads : Reads form env statements e

/-! ## Steps of the other threads -/

variable {entry x : Nat × ExecutionResult ρ} {i : Nat} {e : Executor σ ρ}

theorem steady_takeIn (h : Steady form env statements k (c + 1) e) (hi : e.blocked[i]? = some entry) :
    Steady form env statements k c (takeIn form entry { e with blocked := e.blocked.eraseIdx i }) := by
  have hlen := length_eraseIdx_succ hi
  have hf : inFlight { e with blocked := e.blocked.eraseIdx i } + 1 = inFlight e := by
    simp only [inFlight]
    omega
  have hp := h.placed
  have ha : inFlight { e with blocked := e.blocked.eraseIdx i } ≤ c := by
    have hle := h.atMost
    omega
  have hfl : e.enumStatements = [] ∨ inFlight { e with blocked := e.blocked.eraseIdx i } = c :=
    h.full.imp_right fun heq => by omega
  cases form with
  | list =>
    refine { h with placed := hp, atMost := ha, full := hfl, counted := ?_ }
    have hcnt := h.counted rfl
    simp only [takeIn]
    omega
  | generator =>
    refine { h with
      placed := ?_, atMost := ha, full := hfl, log := atMost_snoc h.log _ rfl, running := running_recorded h.running _ _ _,
      counted := by simp, sorted := ?_ }
    · simp only [places, taken, takeIn, record, Executor.event, coe_heappush, ← coe_eraseIdx hi] at hp ⊢
      rw [← hp]
      abel
    intro _
    exact (h.sorted rfl).orderedInsert _ _

theorem reads_arrive (h : Reads form env statements e) (arrival : Arrival) :
    Reads form env statements (arrive form e arrival) := by
  cases arrival with
  | fire i | runTask i =>
    unfold arrive
    dsimp only
    split
    · exact h
    cases form with
    | list => exact { h with position := nofun, woken := nofun, next := nofun }
    | generator => exact { h with }

theorem room_of_steady {c : Nat} (hshallow : Shallow env statements) (h : Steady form env statements k c e)
    (hd : e.execDepth = 0) : Room env e := by
  unfold Room
  rw [hd, Nat.zero_add, h.enumStatements]
  exact hshallow _ (drop_suffix _ _)

theorem reads_kept {e' : Executor σ ρ} (h : Reads form env statements e) (hk : Kept form e e')
    (haw : Awaits e') (hnx : form = .generator → e'.consumer ≠ .waiting) : Reads form env statements e' := by
  have hs : ∀ consumer, consumer ≠ .notified → e'.consumer = consumer → e.consumer = consumer := by
    rintro _ hne rfl
    exact (hk.consumer.resolve_right fun hwk => hne hwk.2).symm
  refine ⟨?_, ?_, fun hf => mt (hs _ nofun) (h.listForm hf), fun exc => mt (hs _ nofun) (h.calm exc), haw, ?_,
    fun hf hw => absurd hw (hnx hf), ?_⟩
  · rw [hk.yielded]
    exact h.yielded
  · intro hf
    have ha : e'.consumer.ahead = e.consumer.ahead := by
      rcases hk.consumer with heq | ⟨hw, hn⟩
      · rw [heq]
      rw [hw, hn]
      rfl
    rw [hk.yielded, hk.current hf, ha]
    exact h.position hf
  · intro hf heq'
    rw [hk.current hf]
    apply lt_of_lt_of_le _ hk.execCount
    rcases hk.consumer with heq | ⟨hw, -⟩
    · exact h.woken hf (heq ▸ heq')
    · exact h.awaits hw
  intro heq'
  rw [hk.yielded]
  exact h.finished (hs _ nofun heq')

theorem load_takeIn (form : Form) (hi : e.blocked[i]? = some entry) :
    load (takeIn form entry { e with blocked := e.blocked.eraseIdx i }) + 2 ≤ load e := by
  have hlen := length_eraseIdx_succ hi
  cases form with
  | list =>
    simp only [load, takeIn]
    omega
  | generator =>
    simp only [load, takeIn, record, Executor.event, heappush_length]
    omega

theorem put_invariant (hshallow : Shallow env statements) (h : InOrder form env statements k e) (hd : e.execDepth = 0)
    (hk : 1 ≤ k) (hi : e.blocked[i]? = some entry) (arrivals : List (List Arrival)) :
    let e' := (putLocked form (executeNext form env) entry { e with blocked := e.blocked.eraseIdx i, arrivals }).1
    InOrder form env statements k e' ∧ e'.execDepth = 0 ∧ load e' + 2 ≤ load e := by
  obtain ⟨hst, hr⟩ := h
  obtain _ | c := k
  · omega
  have hlt := load_takeIn form (e := { e with arrivals }) hi
  have ht : Steady form env statements (c + 1) c
      (takeIn form entry { e with blocked := e.blocked.eraseIdx i, arrivals }) :=
    steady_takeIn (e := { e with arrivals }) { hst with } hi
  have hbef : Reads form env statements { e with blocked := e.blocked.eraseIdx i, arrivals } := { hr with }
  have hff := hst.failFast
  -- From here on only the executor without the blocked entry matters.
  generalize hpk : { e with blocked := e.blocked.eraseIdx i, arrivals } = p at ht hbef ⊢
  have hd' : (takeIn form entry p).execDepth = 0 := by
    subst hpk
    cases form <;> exact hd
  obtain ⟨hno, hdep, hkp, hload, hsteady⟩ := executeNext_keeps form ht.failFast
    (room_of_steady hshallow ht hd')
  obtain ⟨hnx, ha⟩ := hsteady _ _ _ ht le_rfl
  have hgo := putLocked_go form (executeNext form env) entry (.inr (.inl (hpk ▸ hff))) hno
  obtain ⟨consumer, hend⟩ := putEnd_cases form (executeNext form env (takeIn form entry p)).2
    (executeNext form env (takeIn form entry p)).1
  have hk' := ((kept_takeIn form entry p).trans hkp).trans
    (kept_putEnd (executeNext form env (takeIn form entry p)).2 _)
  rw [hgo]
  refine ⟨⟨steady_putEnd hnx _ _, ?_⟩, ?_, ?_⟩
  · cases form with
    | list => exact reads_kept hbef hk' (awaits_putEnd hnx (ha rfl)) nofun
    | generator =>
      refine reads_kept hbef hk' ?_ fun _ => notify_not_waiting _
      intro hw
      exact absurd hw (notify_not_waiting _)
  · exact (congrArg Executor.execDepth hend).trans (hdep.trans hd')
  · rw [load_putEnd]
    exact (Nat.add_le_add_right hload 2).trans (hpk ▸ hlt)

/-! ## The consumer's own steps -/

theorem outcomes_length {env : Env σ ρ} {statements : List σ} :
    (outcomes env statements).length = statements.length := by
  simp [outcomes, numbered]

theorem outcomes_index (h : (outcomes env statements)[i]? = some x) : x.1 = i := by
  simp only [outcomes, numbered, getElem?_map, Option.map_eq_some_iff] at h
  obtain ⟨p, ⟨q, hq, rfl⟩, rfl⟩ := h
  obtain ⟨hi, hat⟩ := List.getElem?_eq_some_iff.mp hq
  rw [← hat]
  simp

theorem outcomes_mem (h : x ∈ outcomes env statements) :
    (outcomes env statements)[x.1]? = some x := by
  obtain ⟨i, hi⟩ := mem_iff_getElem?.mp h
  rw [outcomes_index hi]
  exact hi

theorem outcomes_sorted {env : Env σ ρ} {statements : List σ} :
    (outcomes env statements).Pairwise fun a b => a.1 < b.1 := by
  rw [pairwise_iff_getElem]
  intro i j hi hj hij
  rw [outcomes_index (getElem?_eq_getElem hi), outcomes_index (getElem?_eq_getElem hj)]
  exact hij

/-- Two outcomes with one index are the same, so there is one way to sort them. -/
theorem sorted_unique {l l' : List (Nat × ExecutionResult ρ)} (hs : l.Pairwise Precedes) (hp : l.Perm l')
    (hl : l'.Sublist (outcomes env statements)) : l = l' := by
  apply Perm.eq_of_pairwise _ hs ((outcomes_sorted.sublist hl).imp fun hlt => Nat.le_of_lt hlt) hp
  intro a b ha hb hab hba
  have ha' := outcomes_mem (hl.subset (hp.mem_iff.mp ha))
  have hb' := outcomes_mem (hl.subset hb)
  rw [Nat.le_antisymm hab hba, hb'] at ha'
  exact (Option.some.inj ha').symm

theorem steady_all (h : Steady form env statements k c e) (hc : 1 ≤ c) (hn : inFlight e = 0) :
    statements.length ≤ e.execCount := by
  have he : e.enumStatements = [] := h.full.resolve_right (by omega)
  rw [h.enumStatements] at he
  simpa [numbered] using he

theorem list_complete (h : Steady .list env statements k c e) (hc : 1 ≤ c) (hend : e.execCount ≤ e.current) :
    e.resultsQueue.insertionSort Precedes = outcomes env statements := by
  have hcr := steady_card h
  have hcnt := h.counted rfl
  simp only [places, card_add, coe_card] at hcr
  have hall := steady_all h hc (by unfold inFlight; omega)
  have hf : e.futures = [] := length_eq_zero_iff.mp (by omega)
  have ht : e.tasks = [] := length_eq_zero_iff.mp (by omega)
  have hplc := h.placed
  rw [take_of_length_le (by rw [outcomes_length]; exact hall)] at hplc
  have hp : e.resultsQueue.Perm (outcomes env statements) := by
    simpa [taken, places, hf, ht] using hplc
  exact sorted_unique (pairwise_insertionSort Precedes _) ((perm_insertionSort _ _).trans hp) (.refl _)

section

variable (h : Steady .list env statements k k e)
include h

variable (hr : Reads .list env statements e)
include hr

theorem listLoop_invariant (hk : 1 ≤ k) : InOrder .list env statements k (listLoop e) := by
  unfold listLoop
  split
  · rename_i hlt
    refine ⟨{ h with }, ?_⟩
    exact ⟨hr.yielded, nofun, fun _ => by simp, fun _ => by simp, fun _ => hlt, nofun, nofun, nofun⟩
  have hrt : returnList e = { e with
      consumer := .finished, yielded := (e.resultsQueue.insertionSort Precedes).map Prod.snd } := by
    simp [returnList, h.failFast]
  rw [hrt, list_complete h hk (by omega)]
  refine ⟨{ h with }, ?_⟩
  refine ⟨?_, nofun, fun _ => by simp, fun _ => by simp, nofun, nofun, nofun, fun _ => rfl⟩
  simp

theorem listResults_invariant (hk : 1 ≤ k) : InOrder .list env statements k (listResults e) := by
  have hl := listLoop_invariant h hr hk
  unfold listResults
  split
  · exact hl
  · rw [h.failFast]
    exact hl
  all_goals exact ⟨h, hr⟩

end

structure Looks (env : Env σ ρ) (statements : List σ) (k : Nat) (e : Executor σ ρ) : Prop where
  steady : Steady .generator env statements k k e
  yielded : e.yielded = ((outcomes env statements).take e.yielded.length).map Prod.snd
  position : e.yielded.length = e.current

theorem yieldNext_cases (h : e.failFast = false) {otherwise : Executor σ ρ} :
    (∃ res rest, e.resultsQueue = (e.current, res) :: rest ∧ yieldNext e otherwise =
      { e with resultsQueue := rest, consumer := .yielding, yielded := e.yielded ++ [res] }) ∨
    (∀ x ∈ e.resultsQueue.head?, x.1 ≠ e.current) ∧ yieldNext e otherwise = otherwise := by
  unfold yieldNext
  cases hq : e.resultsQueue with
  | nil => exact .inr ⟨by simp, rfl⟩
  | cons entry rest =>
    obtain ⟨idx, res⟩ := entry
    by_cases hidx : idx = e.current
    · simp [hidx, h]
    · simp [hidx]

section

variable (h : Looks env statements k e)
include h

theorem looked_yield {res : ExecutionResult ρ}
    {rest : List (Nat × ExecutionResult ρ)} (hq : e.resultsQueue = (e.current, res) :: rest) :
    InOrder .generator env statements k
      { e with resultsQueue := rest, consumer := .yielding, yielded := e.yielded ++ [res] } := by
  have hst := h.steady
  have hpos := h.position
  have hplc := hst.placed
  simp only [taken, places, hq] at hplc
  -- The entry is the outcome of the statement that is next in order.
  have hat : (outcomes env statements)[e.current]? = some (e.current, res) := by
    apply outcomes_mem (x := (e.current, res))
    apply mem_of_mem_take (i := e.execCount)
    rw [← Multiset.mem_coe, ← hplc]
    simp
  have ht : (outcomes env statements).take (e.yielded.length + 1) =
      (outcomes env statements).take e.yielded.length ++ [(e.current, res)] := by
    rw [take_add_one, hpos, hat]
    rfl
  refine ⟨{ hst with placed := ?_, counted := by simp, sorted := ?_ }, ?_⟩
  · have hc : (↑((e.current, res) :: rest) : Multiset (Nat × ExecutionResult ρ)) = ↑[(e.current, res)] + ↑rest :=
      (coe_add [(e.current, res)] rest).symm
    simp only [taken, places, length_append, length_singleton, ht, ← coe_add]
    rw [← hplc, hc]
    abel
  · intro _
    have hs := hst.sorted rfl
    rw [hq] at hs
    exact hs.of_cons
  refine ⟨?_, ?_, by simp, fun _ => by simp, by rintro ⟨⟩, by simp, by simp, by simp⟩
  · simp only [length_append, length_singleton, ht, map_append]
    rw [← h.yielded]
    rfl
  · simp [Consumer.ahead, hpos]

theorem looked_wait (hlt : e.current < e.execCount) (hn : ∀ x ∈ e.resultsQueue.head?, x.1 ≠ e.current) :
    InOrder .generator env statements k { e with consumer := .waiting } := by
  refine ⟨{ h.steady with }, ?_⟩
  exact ⟨h.yielded, fun _ => h.position, nofun, fun _ => by simp, fun _ => hlt, nofun, fun _ _ => hn, nofun⟩

theorem looked_finished (hk : 1 ≤ k) (hge : e.execCount ≤ e.current) :
    InOrder .generator env statements k { e with consumer := .finished } := by
  have hs := h.steady
  have hpos := h.position
  have hc := steady_card hs
  simp only [taken, places, card_add, coe_card, length_take, outcomes_length] at hc
  have hall := steady_all hs hk (by unfold inFlight; omega)
  have hy : e.yielded = (outcomes env statements).map Prod.snd := by
    rw [h.yielded, take_of_length_le (by rw [outcomes_length]; omega)]
  refine ⟨{ hs with }, ?_⟩
  exact ⟨h.yielded, fun _ => h.position, by simp, fun _ => by simp, by rintro ⟨⟩, by simp, by simp, fun _ => hy⟩

end

variable {otherwise : Executor σ ρ}

theorem looked_yieldNext (h : Looks env statements k e)
    (ho : (∀ x ∈ e.resultsQueue.head?, x.1 ≠ e.current) → InOrder .generator env statements k otherwise) :
    InOrder .generator env statements k (yieldNext e otherwise) := by
  rcases yieldNext_cases h.steady.failFast with ⟨res, rest, hq, heq⟩ | ⟨hn, heq⟩
  · rw [heq]
    exact looked_yield h hq
  rw [heq]
  exact ho hn

theorem looked_loop (h : Looks env statements k e) (hk : 1 ≤ k) :
    InOrder .generator env statements k (generatorLoop e) := by
  unfold generatorLoop
  split
  · rename_i hlt
    exact looked_yieldNext h (looked_wait h hlt)
  · exact looked_finished h hk (by omega)

theorem generatorResults_invariant (h : Steady .generator env statements k k e)
    (hr : Reads .generator env statements e) (hk : 1 ≤ k) :
    InOrder .generator env statements k (generatorResults e) := by
  have hpos := hr.position rfl
  unfold generatorResults
  split
  · rename_i hs
    rw [hs] at hpos
    exact looked_loop ⟨h, hr.yielded, hpos⟩ hk
  · rename_i hnot
    rw [hnot] at hpos
    have hl : Looks env statements k e := ⟨h, hr.yielded, hpos⟩
    exact looked_yieldNext hl (looked_wait hl (hr.woken rfl hnot))
  · rename_i hy
    rw [hy] at hpos
    have hl : Looks env statements k { e with current := e.current + 1 } :=
      ⟨{ h with counted := nofun }, hr.yielded, hpos⟩
    exact looked_yieldNext hl fun _ => looked_loop hl hk
  all_goals exact ⟨h, hr⟩

/-! ## Every step -/

theorem step_inOrder (hshallow : Shallow env statements) (hk : 1 ≤ k) (h : InOrder form env statements k e)
    (hd : e.execDepth = 0) (action : Action) :
    InOrder form env statements k (step form env e action) ∧ (step form env e action).execDepth = 0 := by
  have hs := h.steady
  cases action with
  | arrive arrival =>
    obtain ⟨futures, tasks, blocked, queue, log, heq⟩ := arrive_frame form e arrival
    exact ⟨⟨steady_arrive hs arrival, reads_arrive h.reads arrival⟩, (congrArg Executor.execDepth heq).trans hd⟩
  | put i arrivals =>
    cases hi : e.blocked[i]? with
    | none =>
      simp only [step, hi]
      exact ⟨h, hd⟩
    | some entry =>
      simp only [step, hi]
      obtain ⟨hinv, hd', -⟩ := put_invariant hshallow h hd hk hi arrivals
      exact ⟨hinv, hd'⟩
  | consume =>
    obtain ⟨consumer, yielded, current, queue, heq, -⟩ := results_cases form e
    refine ⟨?_, (congrArg Executor.execDepth heq).trans hd⟩
    cases form with
    | list => exact listResults_invariant hs h.reads hk
    | generator => exact generatorResults_invariant hs h.reads hk

section

variable (hf : e.failFast = false)
include hf

theorem rank_listResults (hr : e.consumer.Runs) (hfr : e.consumer ≠ .yielding) : rank (listResults e) < rank e := by
  have hlp : load (listLoop e) = load e ∧ (listLoop e).consumer.work = 0 := by
    unfold listLoop
    split
    · exact ⟨rfl, rfl⟩
    · simp [returnList, hf, load, Consumer.work]
  have hl : listResults e = listLoop e ∧ e.consumer.work = 1 := by
    unfold listResults
    cases hcsm : e.consumer with
    | start => exact ⟨rfl, rfl⟩
    | notified => exact ⟨by simp [hf], rfl⟩
    | yielding => exact absurd hcsm hfr
    | waiting | finished | raised exc =>
      rw [hcsm] at hr
      exact hr.elim
  unfold rank
  rw [hl.1]
  omega

theorem rank_yieldNext (ho : rank otherwise < load e + 1) : rank (yieldNext e otherwise) < load e + 1 := by
  rcases yieldNext_cases hf with ⟨res, rest, hq, heq⟩ | ⟨-, heq⟩
  · rw [heq]
    simp only [rank, load, hq, length_cons, Consumer.work]
    omega
  rw [heq]
  exact ho

theorem rank_generatorLoop : rank (generatorLoop e) < load e + 1 := by
  unfold generatorLoop
  split
  · exact rank_yieldNext hf (Nat.lt_succ_self _)
  · exact Nat.lt_succ_self _

theorem rank_generatorResults (hrn : e.consumer.Runs) : rank (generatorResults e) < rank e := by
  unfold generatorResults
  have hr : rank e = load e + e.consumer.work := rfl
  cases hcsm : e.consumer with
  | start =>
    rw [hr, hcsm]
    exact rank_generatorLoop hf
  | notified =>
    rw [hr, hcsm]
    exact rank_yieldNext hf (Nat.lt_succ_self _)
  | yielding =>
    rw [hr, hcsm]
    exact rank_yieldNext (e := { e with current := e.current + 1 }) hf (rank_generatorLoop hf)
  | waiting | finished | raised exc =>
    rw [hcsm] at hrn
    exact hrn.elim

end

theorem rank_step (hshallow : Shallow env statements) (hk : 1 ≤ k) (h : InOrder form env statements k e)
    (hd : e.execDepth = 0) (action : Action) (hen : Enabled e action) : rank (step form env e action) < rank e := by
  have hf := h.steady.failFast
  cases action with
  | arrive arrival =>
    obtain ⟨futures, tasks, blocked, queue, log, heq⟩ := arrive_frame form e arrival
    have hl := (load_arrive form e arrival).2 hen
    have hc : (arrive form e arrival).consumer = e.consumer := by rw [heq]
    simp only [rank, step, hc]
    omega
  | put i arrivals =>
    obtain ⟨entry, hi⟩ : ∃ entry, e.blocked[i]? = some entry := ⟨_, getElem?_eq_getElem hen⟩
    obtain ⟨-, -, hl⟩ := put_invariant hshallow h hd hk hi arrivals
    have hw := work_le (step form env e (.put i arrivals)).consumer
    simp only [step, hi] at hw ⊢
    unfold rank
    omega
  | consume =>
    cases form with
    | list => exact rank_listResults hf hen (h.reads.listForm rfl)
    | generator => exact rank_generatorResults hf hen

theorem stuck_finished (h : InOrder form env statements k e) (hk : 1 ≤ k)
    (hsc : ∀ action, ¬Enabled e action) : e.consumer = .finished := by
  have hs := h.steady
  have hft : e.futures = [] := length_eq_zero_iff.mp (Nat.not_lt.mp (hsc (.arrive (.fire 0))) |> Nat.le_zero.mp)
  have ht : e.tasks = [] := length_eq_zero_iff.mp (Nat.not_lt.mp (hsc (.arrive (.runTask 0))) |> Nat.le_zero.mp)
  have hb : e.blocked = [] := length_eq_zero_iff.mp (Nat.not_lt.mp (hsc (.put 0 [])) |> Nat.le_zero.mp)
  have hcsm := hsc .consume
  have hall := steady_all hs hk (by simp [inFlight, hft, ht, hb])
  have hplc := hs.placed
  rw [take_of_length_le (by rw [outcomes_length]; exact hall)] at hplc
  cases hc : e.consumer with
  | finished => rfl
  | raised exc => exact absurd hc (h.reads.calm exc)
  | start | notified | yielding =>
    simp only [Enabled, hc] at hcsm
    exact absurd trivial hcsm
  | waiting =>
    exfalso
    have hlt := h.reads.awaits hc
    have hst := hs.started
    have hcr := steady_card hs
    cases form with
    | list =>
      have hcnt := hs.counted rfl
      simp only [taken, places, hft, ht, Multiset.card_zero, card_add, coe_card, length_nil] at hcr
      simp only [hb, length_nil] at hcnt
      omega
    | generator =>
      have hpos : e.yielded.length = e.current := by
        have ha := h.reads.position rfl
        rw [hc] at ha
        exact ha
      -- What is left in the queue are the outcomes from `_current` on, the least of them in front.
      have hp : e.resultsQueue.Perm ((outcomes env statements).drop e.current) := by
        rw [← perm_append_left_iff ((outcomes env statements).take e.current)]
        simpa [taken, places, hft, ht, hb, hpos] using hplc
      have hlen : e.current < (outcomes env statements).length := by
        rw [outcomes_length]
        omega
      have hq := sorted_unique (hs.sorted rfl) hp (drop_sublist ..)
      rw [drop_eq_getElem_cons hlen] at hq
      exact h.reads.next rfl hc _ (by rw [hq]; rfl) (outcomes_index (getElem?_eq_getElem hlen))

/-! ## Runs -/

theorem executeLoop_steady (hshallow : Shallow env statements) (n : Nat) (h : Steady form env statements k c e)
    (hd : e.execDepth = 0) (hk : c + n ≤ k) :
    Steady form env statements k (c + n) (executeLoop form env n e) ∧ (executeLoop form env n e).execDepth = 0 ∧
    Kept form e (executeLoop form env n e) ∧ load (executeLoop form env n e) ≤ load e := by
  induction n generalizing c e with
  | zero => exact ⟨h, hd, ⟨rfl, fun _ => rfl, le_rfl, .inl rfl⟩, le_rfl⟩
  | succ n ih =>
    obtain ⟨hno, hdep, hkp, hl, hs⟩ := executeNext_keeps form h.failFast (room_of_steady hshallow h hd)
    have hst := (hs statements k c h (by omega)).1
    unfold executeLoop
    obtain ⟨e', more, heq⟩ : ∃ e' more, executeNext form env e = (e', more) := ⟨_, _, rfl⟩
    rw [heq] at hno hdep hkp hl hst ⊢
    cases more with
    | started =>
      obtain ⟨hr, hd', hk', hl'⟩ := ih hst (hdep.trans hd) (by omega)
      refine ⟨?_, hd', hkp.trans hk', hl'.trans hl⟩
      rw [show c + (n + 1) = c + 1 + n by omega]
      exact hr
    | exhausted =>
      have he := executeNext_exhausted (congrArg Prod.snd heq)
      rw [executeNext_nil he] at heq
      cases heq
      exact ⟨steady_wider h he (by omega), hd, hkp, hl⟩
    | overflow => exact absurd rfl hno

theorem executeConcurrent_inOrder (hshallow : Shallow env statements) {conc : Int} (hc : 1 ≤ conc)
    (arrivals : List (List Arrival)) : ∃ e, executeConcurrent form env statements conc false arrivals = some e ∧
      InOrder form env statements conc.toNat e ∧ e.execDepth = 0 ∧ rank e ≤ 5 * statements.length + 1 := by
  unfold executeConcurrent
  rw [if_neg (by omega)]
  cases hsm : statements with
  | nil =>
    refine ⟨_, rfl, ⟨⟨rfl, rfl, le_rfl, ?_, Nat.zero_le _, .inl rfl, fun n => ?_, rfl, fun _ => rfl, fun _ => .nil⟩, ?_⟩,
      rfl, Nat.zero_le _⟩
    · cases form <;> rfl
    · simp
    · exact ⟨rfl, fun _ => rfl, fun _ => by simp, fun _ => by simp, nofun, nofun, nofun, fun _ => rfl⟩
  | cons stmt rest =>
    rw [← hsm]
    have he : statements.isEmpty = false := by rw [hsm]; rfl
    rw [he]
    let e : Executor σ ρ := { enumStatements := statements.zipIdx.map Prod.swap, failFast := false, arrivals }
    have hs : Steady form env statements conc.toNat 0 e := by
      refine ⟨rfl, rfl, Nat.zero_le _, ?_, le_rfl, .inr rfl, fun n => ?_, rfl, fun _ => rfl, fun _ => .nil⟩
      · cases form <;> rfl
      · simp [e]
    obtain ⟨hst, hd, hk, hl⟩ := executeLoop_steady hshallow conc.toNat hs rfl (by omega)
    have hcsm : (executeLoop form env conc.toNat e).consumer = .start := by
      rcases hk.consumer with heq | ⟨hw, -⟩
      · exact heq
      · cases hw
    rw [Nat.zero_add] at hst
    refine ⟨_, rfl, ⟨hst, ?_⟩, hd, ?_⟩
    · have hr : Reads form env statements e :=
        ⟨rfl, fun _ => rfl, fun _ => by simp, fun _ => by simp, nofun, nofun, nofun, nofun⟩
      apply reads_kept hr hk
      · intro hwt
        rw [hcsm] at hwt
        cases hwt
      intro _ hwt
      rw [hcsm] at hwt
      cases hwt
    have hwr := work_le (executeLoop form env conc.toNat e).consumer
    have hi : load e = 5 * statements.length := by simp [load, e]
    exact Nat.add_le_add (hl.trans_eq hi) hwr

theorem run_inOrder (hshallow : Shallow env statements) (hk : 1 ≤ k) (acts : List Action)
    (h : InOrder form env statements k e) (hd : e.execDepth = 0) (hok : RunOk (step form env) Enabled e acts) :
    InOrder form env statements k (run (step form env) e acts) ∧
    acts.length + rank (run (step form env) e acts) ≤ rank e := by
  induction acts generalizing e with
  | nil => exact ⟨h, by simp⟩
  | cons action acts ih =>
    obtain ⟨hen, hrs⟩ := hok
    obtain ⟨hs, hd'⟩ := step_inOrder hshallow hk h hd action
    obtain ⟨hinv, hlen⟩ := ih hs hd' hrs
    have hr := rank_step hshallow hk h hd action hen
    refine ⟨hinv, ?_⟩
    rw [length_cons, run_cons]
    omega

/-- A session whose second `execute_async` raises. -/
def secondRaises : Env Nat Nat :=
  ⟨fun idx _ => if idx = 1 then .raises 8 else .later ⟨true, 10 * idx⟩, 160, 1⟩

/-- Every pool is down: each future has its exception before its callbacks are added. -/
def allDown : Env Nat Nat := ⟨fun _ _ => .immediate ⟨false, 0⟩, 160, 1⟩

end CqlDriver.Concurrent
