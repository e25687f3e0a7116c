import CqlDriver.Lib.Run
import Mathlib.Data.List.Perm.Basic

/-!
# Marking a host up

`Cluster.on_add` and `Cluster.on_up` open a pool in each session and wait for all of them with one
callback on each future. A callback reads the results without the lock after its part under the
lock.
-/

namespace CqlDriver.Cluster

open Lib List

inductive Handler
  | onAdd
  | onUp
  deriving DecidableEq

inductive Result
  | ok
  | failed
  | exception
  deriving DecidableEq

/-- Between two sessions, or with one's future in hand. -/
inductive Stage
  | between
  | submitted (future : Nat) (result : Option Result)
  /-- One of `futures.add` and `add_done_callback` has been called. -/
  | half (future : Nat) (result : Option Result)
  deriving DecidableEq

/-- A call of `_finalize_add`, or of `host.set_up` in `on_up`. -/
structure Marked where
  setUp : Bool
  listeners : Bool
  /-- By then all futures had completed with `True`. -/
  allOk : Bool
  deriving DecidableEq

/-- A callback that found `futures` empty and has given the lock back. -/
structure Check where
  byLoop : Bool
  noException : Bool := false
  deriving DecidableEq

structure Marking where
  /-- The sessions to come; whether their `add_or_renew_pool` gives a future. -/
  sessions : List Bool
  next : Nat := 0
  stage : Stage := .between
  haveFuture : Bool := false
  ended : Bool := false
  futures : List Nat := []
  registered : List Nat := []
  /-- Callbacks to be called; whether by the thread of the loop. -/
  calls : List (Nat × Result × Bool) := []
  results : List Result := []
  checks : List Check := []
  completed : List Result := []
  marked : List Marked := []

section Steps

variable (handler : Handler) (total : Nat)

def mark (s : Marking) (setUp listeners : Bool) : Marking :=
  { s with marked := s.marked ++
      [⟨setUp, listeners, s.completed.length = total ∧ ∀ r ∈ s.completed, r = .ok⟩] }

def addDoneCallback (s : Marking) (future : Nat) : Option Result → Marking
  | none => { s with registered := s.registered ++ [future] }
  | some result => { s with calls := s.calls ++ [(future, result, true)] }

def loop (s : Marking) : Marking :=
  match s.stage with
  | .submitted future result =>
    match handler with
    | .onAdd => { s with futures := s.futures ++ [future], stage := .half future result }
    | .onUp => addDoneCallback { s with stage := .half future none } future result
  | .half future result =>
    match handler with
    | .onAdd => addDoneCallback { s with stage := .between } future result
    | .onUp => { s with futures := s.futures ++ [future], stage := .between }
  | .between =>
    match s.sessions with
    | false :: rest => { s with sessions := rest }
    | true :: rest =>
      { s with sessions := rest, next := s.next + 1, stage := .submitted s.next none, haveFuture := true }
    | [] =>
      if s.ended || s.haveFuture then { s with ended := true }
      else
        -- `on_up` does not tell the listeners here
        mark total { s with ended := true } true (handler = .onAdd)

/-- A future completes. One without the callback is the one in hand. -/
def complete (s : Marking) (future : Nat) (result : Result) : Marking :=
  if future ∈ s.registered then
    { s with
      registered := s.registered.erase future
      completed := s.completed ++ [result]
      calls := s.calls ++ [(future, result, false)] }
  else
    match s.stage with
    | .submitted f none =>
      if f = future then
        { s with stage := .submitted f (some result), completed := s.completed ++ [result] }
      else s
    | .half f none =>
      if f = future ∧ handler = .onAdd then
        { s with stage := .half f (some result), completed := s.completed ++ [result] }
      else s
    | _ => s

/-- `future_completed` and `_on_up_future_completed` under the lock. -/
def callback (s : Marking) (i : Nat) : Marking :=
  match s.calls[i]? with
  | none => s
  | some (future, result, byLoop) =>
    let s := { s with
      calls := s.calls.eraseIdx i
      futures := s.futures.erase future
      results := s.results ++ [result] }
    if s.futures ≠ [] then s else { s with checks := s.checks ++ [⟨byLoop, false⟩] }

/-- What follows the lock: the search for an exception, then `all(results)`. -/
def check (s : Marking) (i : Nat) : Marking :=
  match s.checks[i]? with
  | none => s
  | some ⟨byLoop, false⟩ =>
    if .exception ∈ s.results then { s with checks := s.checks.eraseIdx i }
    else { s with checks := s.checks.set i ⟨byLoop, true⟩ }
  | some ⟨_, true⟩ =>
    -- an exception is true for `all`
    if .failed ∈ s.results then { s with checks := s.checks.eraseIdx i }
    else mark total { s with checks := s.checks.eraseIdx i } true true

inductive Act
  | loop
  | complete (future : Nat) (result : Result)
  | callback (i : Nat)
  | check (i : Nat)

/-- The loop waits while its own thread is in a callback. -/
def loopFree (s : Marking) : Bool := s.calls.all (!·.2.2) && s.checks.all (!·.byLoop)

def step (s : Marking) : Act → Marking
  | .loop => if loopFree s then loop handler total s else s
  | .complete future result => complete handler s future result
  | .callback i => callback s i
  | .check i => check total s i

/-- Only the last callback finds `futures` empty, unless a future failed. -/
def Friendly (s : Marking) : Act → Prop
  | .callback i =>
    ∀ call ∈ s.calls[i]?, s.futures.erase call.1 ≠ [] ∨ s.results.length + 1 = total ∨
      ∃ r ∈ s.results ++ [call.2.1], r ≠ .ok
  | .loop | .complete .. | .check .. => True

instance (s : Marking) : (act : Act) → Decidable (Friendly total s act)
  | .callback i => inferInstanceAs (Decidable (∀ call ∈ s.calls[i]?, s.futures.erase call.1 ≠ [] ∨
      s.results.length + 1 = total ∨ ∃ r ∈ s.results ++ [call.2.1], r ≠ .ok))
  | .loop | .complete .. | .check .. => isTrue trivial

end Steps

/-- At the loop, which `on_add` skips for an ignored host. -/
def start (handler : Handler) (ignored : Bool) (sessions : List Bool) : Marking :=
  if handler = .onAdd ∧ ignored then mark 0 { sessions := [], ended := true } false true
  else { sessions }

def total (handler : Handler) (ignored : Bool) (sessions : List Bool) : Nat :=
  (start handler ignored sessions).sessions.count true

/-! ## Futures that have completed -/

def Stage.early : Stage → List Result
  | .between => []
  | .submitted _ result | .half _ result => result.toList

def Stage.waits (handler : Handler) : Stage → Nat
  | .between => 0
  | .submitted _ none => 1
  | .half _ none => if handler = .onAdd then 1 else 0
  | .submitted _ (some _) | .half _ (some _) => 0

/-- Each future is counted once and each result is somewhere. -/
structure Counted (handler : Handler) (total : Nat) (s : Marking) : Prop where
  sum : s.sessions.count true + s.stage.waits handler + s.registered.length + s.completed.length = total
  perm : (s.results ++ s.calls.map (·.2.1) ++ s.stage.early).Perm s.completed
  half : handler = .onUp → ∀ future result, s.stage ≠ .half future (some result)
  empty : s.haveFuture = false → s.stage = .between ∧ s.registered = [] ∧ s.completed = []

variable {handler : Handler} {total : Nat} {s : Marking}

section

variable (h : Counted handler total s)
include h

theorem counted_results : s.results.length + s.calls.length ≤ total := by
  have hlen := h.perm.length_eq
  have hsum := h.sum
  simp only [length_append, length_map] at hlen
  omega

theorem counted_all (hall : s.results.length = total) : s.results.Perm s.completed := by
  have hlen := h.perm.length_eq
  have hsum := h.sum
  simp only [length_append, length_map] at hlen
  have hc : s.calls = [] := length_eq_zero_iff.mp (by omega)
  have he : s.stage.early = [] := length_eq_zero_iff.mp (by omega)
  simpa [hc, he] using h.perm

theorem counted_loop : Counted handler total (loop handler total s) := by
  obtain ⟨hsum, hp, hh, he⟩ := h
  unfold loop
  cases hst : s.stage with
  | submitted future res | half future res =>
    cases handler <;> cases res <;> constructor <;> simp_all [Stage.waits, Stage.early, addDoneCallback]
    all_goals omega
  | between =>
    rw [hst] at hsum hp
    rcases hs : s.sessions with _ | ⟨_ | _, rest⟩
    · split_ifs <;> exact ⟨by simpa [hs, mark] using hsum, by simpa [mark] using hp,
          by simp [mark], by simpa [hst, mark] using he⟩
    · exact ⟨by simpa [hs] using hsum, by simpa using hp, by simp, by simpa [hst] using he⟩
    refine ⟨?_, by simpa [Stage.early] using hp, by simp, by simp⟩
    simp only [hs, count_cons_self, Stage.waits] at hsum ⊢
    omega

end

variable {res : Result} {future i : Nat} {ignored : Bool} {ss : List Bool}

theorem perm_early {xs ys : List Result} {stage stage' : Stage} (h : (xs ++ stage.early).Perm ys)
    (hn : stage.early = []) (hs : stage'.early = [res]) : (xs ++ stage'.early).Perm (ys ++ [res]) := by
  rw [hn, append_nil] at h
  rw [hs]
  exact h.append_right [res]

section

variable (h : Counted handler total s)
include h

theorem counted_complete : Counted handler total (complete handler s future res) := by
  have ⟨hsum, hp, hh, he⟩ := h
  unfold complete
  by_cases hreg : future ∈ s.registered
  · rw [if_pos hreg]
    have hlen := length_erase_add_one hreg
    refine ⟨?_, ?_, hh, ?_⟩
    · simp only [length_append, length_singleton]
      omega
    · have hm : (s.results ++ (s.calls ++ [(future, res, false)]).map (·.2.1) ++ s.stage.early).Perm
          (s.results ++ s.calls.map (·.2.1) ++ s.stage.early ++ [res]) := by
        simp only [map_append, append_assoc]
        exact ((perm_append_comm).append_left _).append_left _
      exact hm.trans (hp.append_right [res])
    intro hf
    simp [(he hf).2.1] at hreg
  rw [if_neg hreg]
  cases hs : s.stage with
  | between => simpa using h
  | submitted f early =>
    rw [hs] at hsum hp he
    cases early with
    | some _ => simpa using h
    | none =>
      by_cases hf : f = future
      · simp only [hf, if_true]
        refine ⟨?_, perm_early hp rfl rfl, by simp, by simpa using he⟩
        simp only [Stage.waits, length_append, length_singleton] at hsum ⊢
        omega
      · simpa [hf] using h
  | half f early =>
    rw [hs] at hsum hp he
    cases early with
    | some _ => simpa using h
    | none =>
      by_cases hf : f = future ∧ handler = .onAdd
      · simp only [hf, and_self]
        refine ⟨?_, perm_early hp rfl rfl, by simp, by simpa using he⟩
        simp only [Stage.waits, hf.2, if_true, length_append, length_singleton] at hsum ⊢
        omega
      · simpa [hf] using h

theorem counted_callback : Counted handler total (callback s i) := by
  cases hi : s.calls[i]? with
  | none => simpa [callback, hi] using h
  | some call =>
    obtain ⟨hlt, hc⟩ := List.getElem?_eq_some_iff.mp hi
    have hm : (s.results ++ [call.2.1] ++ (s.calls.eraseIdx i).map (·.2.1) ++ s.stage.early).Perm
        (s.results ++ s.calls.map (·.2.1) ++ s.stage.early) := by
      have hcn := (getElem_cons_eraseIdx_perm hlt).map (·.2.1)
      rw [hc] at hcn
      rw [append_assoc s.results]
      exact (hcn.append_left _).append_right _
    simp only [callback, hi]
    split_ifs <;> exact ⟨h.sum, hm.trans h.perm, h.half, h.empty⟩

theorem counted_check : Counted handler total (check total s i) := by
  obtain ⟨hsum, hp, hh, he⟩ := h
  unfold check
  rcases s.checks[i]? with _ | ⟨byLoop, _ | _⟩ <;> dsimp only
  · exact ⟨hsum, hp, hh, he⟩
  · split_ifs <;> exact ⟨hsum, hp, hh, he⟩
  · split_ifs <;> exact ⟨hsum, hp, hh, he⟩

theorem counted_step (act : Act) : Counted handler total (step handler total s act) := by
  cases act with
  | loop =>
    by_cases hf : loopFree s
    · simpa only [step, hf, if_true] using counted_loop h
    · simpa [step, hf] using h
  | complete future res => exact counted_complete h
  | callback i => exact counted_callback h
  | check i => exact counted_check h

end

/-! ## One mark -/

/-- Only the last callback, or a loop without futures, marks. -/
structure MarkedOnce (total : Nat) (s : Marking) : Prop where
  ok : ∀ m ∈ s.marked, m.allOk = true
  once : (∀ r ∈ s.results, r = .ok) →
    s.checks.length + s.marked.length ≤ if s.results.length = total then 1 else 0
  failed : (∃ r ∈ s.results, r ≠ .ok) → s.marked = []
  clear : ∀ c ∈ s.checks, c.noException = true → .exception ∉ s.results ∨ .failed ∈ s.results
  fresh : s.haveFuture = false → s.ended = false → s.checks = [] ∧ s.marked = []

theorem all_ok_iff {rs : List Result} : (∀ r ∈ rs, r = .ok) ↔ .exception ∉ rs ∧ .failed ∉ rs := by
  constructor
  · intro h
    exact ⟨fun hmem => by simpa using h _ hmem, fun hmem => by simpa using h _ hmem⟩
  rintro ⟨hexc, hf⟩ r hr
  cases r with
  | ok => rfl
  | failed => exact absurd hr hf
  | exception => exact absurd hr hexc

theorem markedOnce_loop (hc : Counted handler total s) (h : MarkedOnce total s) :
    MarkedOnce total (loop handler total s) := by
  unfold loop
  cases hst : s.stage with
  | submitted future res | half future res =>
    cases handler <;> cases res <;> exact ⟨h.ok, h.once, h.failed, h.clear, h.fresh⟩
  | between =>
    rcases hs : s.sessions with _ | ⟨_ | _, rest⟩ <;> dsimp only
    · split_ifs with hend
      · exact ⟨h.ok, h.once, h.failed, h.clear, by simp⟩
      -- no session gave a future: there is nothing to wait for
      simp only [Bool.or_eq_true, not_or, Bool.not_eq_true] at hend
      obtain ⟨-, hreg, hcm⟩ := hc.empty hend.2
      obtain ⟨hchk, hmk⟩ := h.fresh hend.2 hend.1
      have ht : total = 0 := by
        have hsum := hc.sum
        simpa [hst, hs, hreg, hcm, Stage.waits] using hsum.symm
      have hr : s.results = [] := by
        have hlen := counted_results hc
        exact length_eq_zero_iff.mp (by omega)
      refine ⟨?_, ?_, ?_, ?_, by simp [mark]⟩
      · simp [mark, hmk, hcm, ht]
      · simp [mark, hmk, hchk, hr, ht]
      · simp [mark, hr]
      · simp [mark, hchk]
    · exact ⟨h.ok, h.once, h.failed, h.clear, h.fresh⟩
    · exact ⟨h.ok, h.once, h.failed, h.clear, by simp⟩

theorem markedOnce_complete (h : MarkedOnce total s) : MarkedOnce total (complete handler s future res) := by
  unfold complete
  split
  · exact ⟨h.ok, h.once, h.failed, h.clear, h.fresh⟩
  split
  · split
    · exact ⟨h.ok, h.once, h.failed, h.clear, h.fresh⟩
    · exact h
  · split
    · exact ⟨h.ok, h.once, h.failed, h.clear, h.fresh⟩
    · exact h
  · exact h

theorem markedOnce_waiting (h : MarkedOnce total s) (hlt : s.results.length < total) :
    s.marked = [] ∧ ((∀ r ∈ s.results, r = .ok) → s.checks = []) := by
  by_cases hok : ∀ r ∈ s.results, r = .ok
  · have ho := h.once hok
    rw [if_neg (Nat.ne_of_lt hlt)] at ho
    exact ⟨length_eq_zero_iff.mp (by omega), fun _ => length_eq_zero_iff.mp (by omega)⟩
  push Not at hok
  exact ⟨h.failed hok, fun hall => absurd hok (by simpa using hall)⟩

section

variable (hc : Counted handler total s)
include hc

variable (h : MarkedOnce total s)
include h

theorem markedOnce_callback (hf : Friendly total s (.callback i)) : MarkedOnce total (callback s i) := by
  cases hi : s.calls[i]? with
  | none => simpa [callback, hi] using h
  | some call =>
    obtain ⟨future, res, byLoop⟩ := call
    obtain ⟨hlt, -⟩ := List.getElem?_eq_some_iff.mp hi
    have hrm : s.results.length < total := by
      have hlen := counted_results hc
      omega
    obtain ⟨hmk, hchk⟩ := markedOnce_waiting h hrm
    have hfr : ¬ s.haveFuture = false := by
      intro hn
      have hlen := hc.perm.length_eq
      simp only [(hc.empty hn).2.2, length_append, length_map, length_nil] at hlen
      omega
    -- a check that found no exception has seen a `False`
    have hcl : ∀ c ∈ s.checks, c.noException → .failed ∈ s.results := by
      intro c hc hno
      rcases h.clear c hc hno with hexc | hfl
      · by_contra hfl
        have hnil := hchk (all_ok_iff.mpr ⟨hexc, hfl⟩)
        simp [hnil] at hc
      · exact hfl
    have hlf : ∀ r ∈ s.results, r ∈ s.results ++ [res] := fun r hr => mem_append_left _ hr
    simp only [callback, hi]
    split_ifs with he
    · refine ⟨by simp [hmk], ?_, fun _ => hmk, ?_, fun hn => absurd hn hfr⟩
      · intro hok
        simp [hmk, hchk fun r hr => hok r (hlf r hr)]
      intro c hc hno
      exact .inr (hlf _ (hcl c hc hno))
    refine ⟨by simp [hmk], ?_, fun _ => hmk, ?_, fun hn => absurd hn hfr⟩
    · intro hok
      have hl : s.results.length + 1 = total := by
        rcases hf _ hi with hne | hl | ⟨r, hr, hbad⟩
        · exact absurd hne he
        · exact hl
        · exact absurd (hok r hr) hbad
      simp [hmk, hchk fun r hr => hok r (hlf r hr), hl]
    intro c hc hno
    rcases mem_append.mp hc with hold | hnew
    · exact .inr (hlf _ (hcl c hold hno))
    simp only [mem_singleton] at hnew
    simp [hnew] at hno

theorem markedOnce_check : MarkedOnce total (check total s i) := by
  cases hi : s.checks[i]? with
  | none => simpa [check, hi] using h
  | some c =>
    obtain ⟨hlt, hget⟩ := List.getElem?_eq_some_iff.mp hi
    have hmem : c ∈ s.checks := mem_of_getElem? hi
    have hlen := length_eraseIdx_of_lt hlt
    have hsub : ∀ c' ∈ s.checks.eraseIdx i, c' ∈ s.checks := fun c' => mem_of_mem_eraseIdx
    have hd : MarkedOnce total { s with checks := s.checks.eraseIdx i } := by
      refine ⟨h.ok, ?_, h.failed, fun c' hc' => h.clear c' (hsub c' hc'), ?_⟩
      · intro hok
        have ho := h.once hok
        dsimp only
        omega
      intro hn hend
      obtain ⟨hchk, hmk⟩ := h.fresh hn hend
      exact ⟨by simp [hchk], hmk⟩
    obtain ⟨byLoop, _ | _⟩ := c
    · simp only [check, hi]
      split_ifs with hexc
      · exact hd
      refine ⟨h.ok, ?_, h.failed, ?_, ?_⟩
      · simpa using h.once
      · intro c' hc' hno
        exact .inl hexc
      intro hn hend
      obtain ⟨hchk, hmk⟩ := h.fresh hn hend
      exact ⟨by simp [hchk], hmk⟩
    simp only [check, hi]
    split_ifs with hf
    · exact hd
    have hexc : .exception ∉ s.results := by
      rcases h.clear _ hmem rfl with hexc | hmem'
      · exact hexc
      · exact absurd hmem' hf
    have hok := all_ok_iff.mpr ⟨hexc, hf⟩
    have ho := h.once hok
    have hl : s.results.length = total := by
      by_contra hne
      rw [if_neg hne] at ho
      omega
    have hp := counted_all hc hl
    have hall : ∀ r ∈ s.completed, r = .ok := fun r hr => hok r (hp.mem_iff.mpr hr)
    have hln : s.completed.length = total := hp.length_eq.symm.trans hl
    refine ⟨?_, ?_, ?_, fun c' hc' => h.clear c' (hsub c' hc'), ?_⟩
    · intro m hm
      rcases mem_append.mp hm with hold | hnew
      · exact h.ok m hold
      simp only [mem_singleton] at hnew
      simpa [hnew, hln] using hall
    · intro _
      change (s.checks.eraseIdx i).length + (s.marked ++ [_]).length ≤ if s.results.length = total then 1 else 0
      rw [length_append, length_singleton]
      omega
    · rintro ⟨r, hr, hbad⟩
      exact absurd (hok r hr) hbad
    intro hn hend
    have hnil := (h.fresh hn hend).1
    simp [hnil] at hmem

theorem markedOnce_step {act : Act} (hf : Friendly total s act) : MarkedOnce total (step handler total s act) := by
  cases act with
  | loop =>
    by_cases hfr : loopFree s
    · simpa only [step, hfr, if_true] using markedOnce_loop hc h
    · simpa [step, hfr] using h
  | complete future res => exact markedOnce_complete h
  | callback i => exact markedOnce_callback hc h hf
  | check i => exact markedOnce_check hc h

end

theorem markedOnce_length (h : MarkedOnce total s) : s.marked.length ≤ 1 := by
  by_cases hok : ∀ r ∈ s.results, r = .ok
  · have ho := h.once hok
    split at ho <;> omega
  push Not at hok
  simp [h.failed hok]

theorem markedOnce_run (hc : Counted handler total s) (hm : MarkedOnce total s) {acts : List Act}
    (h : RunOk (step handler total) (Friendly total) s acts) : MarkedOnce total (run (step handler total) s acts) := by
  have hs : ∀ s act, Counted handler total s ∧ MarkedOnce total s → Friendly total s act →
      Counted handler total (step handler total s act) ∧ MarkedOnce total (step handler total s act) := by
    rintro s act ⟨hc, hm⟩ hf
    exact ⟨counted_step hc act, markedOnce_step hc hm hf⟩
  exact (run_invariant hs ⟨hc, hm⟩ h).2

theorem counted_start {handler : Handler} :
    Counted handler (Cluster.total handler ignored ss) (start handler ignored ss) := by
  unfold Cluster.total start
  split_ifs <;> constructor <;> simp [mark, Stage.waits, Stage.early]

theorem markedOnce_start {handler : Handler} :
    MarkedOnce (Cluster.total handler ignored ss) (start handler ignored ss) := by
  unfold Cluster.total start
  split_ifs <;> constructor <;> simp [mark]

/-- **A host is marked once**, when no callback finds `futures` empty too early. -/
theorem host_marked_once (handler : Handler) (ignored : Bool) (sessions : List Bool) (acts : List Act)
    (h : RunOk (step handler (Cluster.total handler ignored sessions))
      (Friendly (Cluster.total handler ignored sessions)) (start handler ignored sessions) acts) :
    let s := run (step handler (Cluster.total handler ignored sessions)) (start handler ignored sessions) acts
    s.marked.length ≤ 1 ∧ ∀ m ∈ s.marked, m.allOk = true := by
  have hm := markedOnce_run counted_start markedOnce_start h
  exact ⟨markedOnce_length hm, hm.ok⟩

def loopFirst : List Act :=
  List.replicate 7 .loop ++
    [.complete 1 .ok, .complete 0 .ok, .callback 1, .callback 0, .check 0, .check 0]

theorem host_marked_once_loop_first :
    (run (step .onAdd 2) (start .onAdd false [true, true]) loopFirst).marked = [⟨true, true, true⟩] ∧
    (run (step .onAdd 2) (start .onAdd false [true, true]) loopFirst).marked.length ≤ 1 ∧
    (run (step .onUp 2) (start .onUp false [true, true]) loopFirst).marked = [⟨true, true, true⟩] ∧
    (run (step .onUp 2) (start .onUp false [true, true]) loopFirst).marked.length ≤ 1 :=
  ⟨by decide, (host_marked_once .onAdd false [true, true] loopFirst (by decide)).1,
    by decide, (host_marked_once .onUp false [true, true] loopFirst (by decide)).1⟩

def futureFirst : List Act :=
  [.loop, .loop, .loop, .complete 0 .ok, .callback 0, .check 0, .check 0,
    .loop, .loop, .loop, .complete 1 .ok, .callback 0, .check 0, .check 0]

/-- The host is marked before the second pool is asked for. -/
theorem host_marked_twice : (run (step .onAdd 2) (start .onAdd false [true, true]) futureFirst).marked =
      [⟨true, true, false⟩, ⟨true, true, true⟩] ∧
    (run (step .onUp 2) (start .onUp false [true, true]) futureFirst).marked =
      [⟨true, true, false⟩, ⟨true, true, true⟩] := by
  decide

end CqlDriver.Cluster
