import CqlDriver.Connection.WaiterBooks
import CqlDriver.Lib.Fair

/-! # A waiting call returns what was answered -/

namespace CqlDriver.Wait

open Lib Conn List

variable {M ρ ε : Type} {call : Call M ρ ε} {conn : Connection Caller} {s s' : State M ρ ε}

/-! ## What is left to do -/

def Main.rank : Main ρ ε → Nat
  | .returned _ => 0
  | _ => 1

def Reader.rank : Reader ρ ε → Nat
  | .idle => 0
  | .counted _ _ => 1
  | .released _ _ => 2
  | .popped _ _ _ => 3

def work (call : Call M ρ ε) (s : State M ρ ε) : Nat :=
  6 * (call.msgs.length - messagesSent call.msgs.length s.main - (handed s.main).length) +
    5 * (handed s.main).length + 4 * s.wire.length + s.reader.rank + s.main.rank

theorem rank_continueWith (call : Call M ρ ε) (next : Nat) (ids : List Int) :
    (continueWith call next ids).rank = 1 := by
  rcases continueWith_cases call next ids with ⟨-, -, hc⟩ | ⟨-, -, hc⟩ | ⟨-, hc⟩ <;> rw [hc] <;> rfl

theorem Moves.work_lt (hmv : Moves call s s') (h : Inv call s) : work call s' < work call s := by
  have hf := h.sent.fits
  have hf' := (hmv.inv h).sent.fits
  cases hmv with
  | @reserve sent ids conn hm hr hids =>
    have hpos := length_pos_iff.mpr hids
    simp only [messagesSent, handed] at hf'
    simp only [work, messagesSent, handed, hm, Main.rank, length_nil]
    omega
  | @send next id ids msg hm hmsg =>
    simp only [work, messagesSent_continueWith, handed_continueWith, rank_continueWith, length_append]
    simp only [hm, messagesSent, handed, Main.rank, length_cons, length_nil]
    omega
  | deliver hm =>
    simp only [work, messagesSent, handed, hm, Main.rank]
    omega
  | @answer pos stream caller hr hw =>
    have hlen := (wire_perm hw).length_eq
    simp only [length_cons] at hlen
    simp only [work, Reader.rank]
    omega
  | release hr | store hr =>
    simp only [work, hr, Reader.rank]
    omega
  | @count cb answer hr =>
    cases cb <;> simp only [work, hr, Reader.rank, afterCount] <;> omega

/-! ## Every interleaving -/

/-- A connection on which other users have requests in flight. -/
structure Ready (conn : Connection Caller) : Prop where
  isOpen : conn.isClosed = false ∧ conn.isDefunct = false
  pool : Pool conn []
  others : ∀ p ∈ conn.requests.entries, p.2 = .other
  inFlight : conn.inFlight = conn.requests.entries.length

theorem Ready.start (h : Ready conn) (hms : call.msgs ≠ []) (hf : call.failOnError = false) :
    Inv call (State.start call conn) := by
  have hm : (State.start call conn).main = .reserving 0 := by simp [State.start, h.isOpen]
  have hpos := length_pos_iff.mpr hms
  have hout : outstanding (State.start call conn) = [] := by
    have ho : conn.requests.entries.filterMap (fun p => p.2.index?) = [] := by
      rw [filterMap_eq_nil_iff]
      intro p hp
      rw [h.others p hp]
      rfl
    simpa [outstanding, State.start, answering] using ho
  refine ⟨⟨h.isOpen, ?_, .refl _, ?_, ?_⟩, ⟨?_, ?_, ?_, ?_, ?_, ?_⟩, ⟨trivial, ?_, ?_, hf, rfl, ?_, ?_, ?_, ?_⟩⟩
  · rw [hm]
    exact h.pool
  · rw [hm]
    simpa [State.start, handed, uncounted] using h.inFlight
  · have hall := h.pool.all
    have hh := h.pool.highest
    have hin := h.inFlight
    show conn.inFlight ≤ conn.maxRequestId + 1
    omega
  · rw [hm]
    exact Nat.zero_le _
  · rw [hm]
    rfl
  · intro sent heq
    rw [hm] at heq
    obtain rfl := Main.reserving.inj heq
    exact hpos
  · intro next ids heq
    rw [hm] at heq
    cases heq
  · rw [hm]
    rintro ⟨⟩
  · intro resps heq
    rw [hm] at heq
    cases heq
  · rw [hout]
    exact nodup_nil
  · simp [hout]
  · exact length_replicate
  · intro i hi
    rw [hm]
    have hget : (replicate call.msgs.length (none : Option (Stored ρ ε)))[i]? = some none := by
      rw [getElem?_replicate, if_pos hi]
    simpa [messagesSent, State.start, ResponseWaiter.init] using hget
  · rw [hm, hout]
    simp [State.start, ResponseWaiter.init, messagesSent]
  · simp [State.start, ResponseWaiter.init, hms]

theorem stateAt_inv (hc : Ready conn) (hms : call.msgs ≠ []) (hf : call.failOnError = false)
    (steps : Nat → Step) (n : Nat) : Inv call (stateAt call conn steps n) := by
  induction n with
  | zero => exact hc.start hms hf
  | succ n ih =>
    rcases ih.step _ with hs | hm
    · rw [stateAt, hs]
      exact ih
    · exact hm.inv ih

theorem Moves.maxRequestId (hmv : Moves call s s') (h : Inv call s) : s'.conn.maxRequestId = s.conn.maxRequestId := by
  cases hmv with
  | @reserve sent ids conn hm hr =>
    obtain ⟨ids', conn', hr', -, -, -, -, hmax, -⟩ := h.linked.reserve h.sent hm
    obtain ⟨rfl, rfl⟩ := Prod.mk.inj (Option.some.inj (hr.symm.trans hr'))
    exact hmax
  | _ => rfl

theorem stateAt_maxRequestId (hc : Ready conn) (hms : call.msgs ≠ []) (hf : call.failOnError = false)
    (steps : Nat → Step) (n : Nat) : (stateAt call conn steps n).conn.maxRequestId = conn.maxRequestId := by
  induction n with
  | zero => rfl
  | succ n ih =>
    have hinv := stateAt_inv hc hms hf steps n
    rcases hinv.step _ with hs | hm
    · rw [stateAt, hs]
      exact ih
    · exact (hm.maxRequestId hinv).trans ih

def unansweredOthers (s : State M ρ ε) : Nat :=
  (s.wire.map Prod.snd ++ uncounted s.reader).countP fun caller => caller = .other

theorem mem_answering {r : Reader ρ ε} {idx : Nat} (h : .own idx ∈ uncounted r) : idx ∈ answering r := by
  cases r with
  | popped | released =>
    obtain rfl := mem_singleton.mp h
    exact mem_singleton.mpr rfl
  | idle | counted => cases h

theorem unansweredOthers_eq (h : outstanding s = []) :
    unansweredOthers s = s.wire.length + (uncounted s.reader).length := by
  obtain ⟨hw, hrd⟩ := append_eq_nil_iff.mp h
  have ho : ∀ clr ∈ s.wire.map Prod.snd ++ uncounted s.reader, clr = .other := by
    intro clr hcl
    rcases mem_append.mp hcl with hmem | hmem
    · obtain ⟨p, hp, rfl⟩ := mem_map.mp hmem
      have hn := filterMap_eq_nil_iff.mp hw p hp
      cases hc : p.2 with
      | own idx => rw [hc] at hn; cases hn
      | other => rfl
    cases clr with
    | own idx =>
      have ha := mem_answering hmem
      rw [hrd] at ha
      cases ha
    | other => rfl
  have hall : unansweredOthers s = (s.wire.map Prod.snd ++ uncounted s.reader).length := by
    unfold unansweredOthers
    rw [countP_eq_length]
    simpa using ho
  rw [hall, length_append, length_map]

theorem Inv.returned (h : Inv call s) {resps : List (Option (Stored ρ ε))} (hm : s.main = .returned resps) :
    s.pushed = call.msgs ∧ resps = (range call.msgs.length).map (fun i => some (call.pair i)) ∧
      s.conn.inFlight = unansweredOthers s := by
  obtain ⟨rfl, he⟩ := h.sent.returned resps hm
  have hps := h.sent.pushed
  have hp := h.answered.pending
  have hf := h.linked.inFlight
  have hsto := h.answered.stored
  rw [h.answered.event.mp he] at hp
  simp only [hm, messagesSent, handed, take_length] at hps hp hf hsto
  have hout : outstanding s = [] := length_eq_zero_iff.mp (by omega)
  refine ⟨hps, ?_, ?_⟩
  · apply ext_getElem?
    intro i
    by_cases hi : i < call.msgs.length
    · rw [hsto i hi, hout]
      simp [hi]
    have hlen := h.answered.length
    rw [getElem?_eq_none (by omega), getElem?_eq_none (by simpa using hi)]
  rw [unansweredOthers_eq hout, hf]
  simp

/-! ## The call returns -/

/-- The two threads keep running, and every request is answered at some time. -/
structure Fair (call : Call M ρ ε) (conn : Connection Caller) (steps : Nat → Step) : Prop where
  main : ∀ n, ∃ k, n ≤ k ∧ steps k = .main
  reader : ∀ n, ∃ k, n ≤ k ∧ steps k = .reader
  answers : ∀ n, ∀ p ∈ (stateAt call conn steps n).wire, ∃ k, n ≤ k ∧ p ∉ (stateAt call conn steps k).wire

theorem Inv.not_waits (h : Inv call s) (hr : s.reader = .idle) (hw : s.wire = [])
    (hnot : ∀ resps, s.main ≠ .returned resps) : ¬ Waits s := by
  have hf := h.linked.inFlight
  have hp := h.answered.pending
  have hout : outstanding s = [] := by simp [outstanding, hr, hw, answering]
  rintro (⟨sent, hm, hfl⟩ | ⟨hm, he⟩ | ⟨resps, hm⟩)
  · have hmin := h.linked.pool.ids.highest
    have hmax := h.linked.pool.highest
    simp only [hm, hr, hw, handed, uncounted, length_nil] at hf hmin
    omega
  · simp only [hm, hout, messagesSent, length_nil] at hp
    have hset := h.answered.event.mpr (by omega)
    rw [he] at hset
    cases hset
  · exact hnot resps hm

variable {n : Nat} {steps : Nat → Step}

theorem Fair.moves (hf : Fair call conn steps) (hinv : ∀ n, Inv call (stateAt call conn steps n))
    (hnot : ∀ resps, (stateAt call conn steps n).main ≠ .returned resps) :
    ∃ k, n ≤ k ∧ stateAt call conn steps k ≠ stateAt call conn steps n := by
  by_contra hcon
  have hs : ∀ k, n ≤ k → stateAt call conn steps k = stateAt call conn steps n := by
    intro k hk
    by_contra hne
    exact hcon ⟨k, hk, hne⟩
  have hst : ∀ k, n ≤ k → ¬ Moves call (stateAt call conn steps n)
      (step call (stateAt call conn steps n) (steps k)) := by
    intro k hk hmv
    have hn := hs _ (Nat.le_succ_of_le hk)
    rw [stateAt, hs k hk] at hn
    have hlt := hmv.work_lt (hinv n)
    rw [hn] at hlt
    exact Nat.lt_irrefl _ hlt
  have hwr : (stateAt call conn steps n).wire = [] := by
    rw [eq_nil_iff_forall_not_mem]
    intro p hp
    obtain ⟨k, hk, hg⟩ := hf.answers n p hp
    rw [hs k hk] at hg
    exact hg hp
  have hrd : (stateAt call conn steps n).reader = .idle := by
    obtain ⟨k, hk, hsp⟩ := hf.reader n
    have hnm := hst k hk
    rw [hsp] at hnm
    cases hr : (stateAt call conn steps n).reader with
    | idle => rfl
    | popped | released | counted => exact absurd (readerStep_moves call _ (by rw [hr]; nofun)) hnm
  obtain ⟨k, hk, hm⟩ := hf.main n
  have hnm := hst k hk
  rw [hm] at hnm
  rcases (hinv n).mainStep with ⟨-, hw⟩ | hmv
  · exact (hinv n).not_waits hrd hwr hnot hw
  · exact hnm hmv

def State.AtRest (s : State M ρ ε) : Prop :=
  (∃ responses, s.main = .returned responses) ∧ s.wire = [] ∧ s.reader = .idle

theorem State.AtRest.step (h : s.AtRest) (a : Step) : step call s a = s := by
  obtain ⟨⟨resps, hm⟩, hw, hr⟩ := h
  cases a with
  | main => simp only [Wait.step, mainStep, hm]
  | answer pos => simp [Wait.step, answerStep, hw, hr]
  | reader => simp only [Wait.step, readerStep, hr]

theorem stateAt_of_atRest (h : (stateAt call conn steps n).AtRest) :
    ∀ k, n ≤ k → stateAt call conn steps k = stateAt call conn steps n := by
  intro k hk
  induction k, hk using Nat.le_induction with
  | base => rfl
  | succ k hk ih => rw [stateAt, ih, h.step]

def sharedConn : Connection Caller :=
  { (Connection.init 2 1 : Connection Caller) with
    requestIds := [1], requests := Dict.empty.set 0 .other, inFlight := 1 }

def threeMessages : Call String String String where
  msgs := ["a", "b", "c"]
  failOnError := false
  answer := fun
    | .own 0 => .result "ra"
    | .own 1 => .error "overloaded"
    | .own _ => .result "rc"
    | .other => .result ""
  toException exc := exc

def roundRobin (n : Nat) : Step :=
  match n % 5 with
  | 0 => .main
  | 1 => .answer 0
  | _ => .reader

theorem sharedConn_ready : Ready sharedConn := by
  have hi : IdsOk (Ids.init 2 1 : Ids Caller) := ids_init_ok 2 1 (by decide)
  have hget : IdsOk (⟨{ (Connection.init 2 1 : Connection Caller) with requestIds := [1] }, [0]⟩ : Ids Caller) :=
    getRequestId_ok hi rfl
  have hs := sendMsg_ok hget 0 Caller.other (by decide)
  exact ⟨⟨rfl, rfl⟩, ⟨⟨hs.once, hs.range, hs.highest⟩, by decide, by decide⟩, by decide, by decide⟩

theorem roundRobin_fair : Fair threeMessages sharedConn roundRobin := by
  have hr : (stateAt threeMessages sharedConn roundRobin 26).AtRest := ⟨⟨_, rfl⟩, rfl, rfl⟩
  refine ⟨fun n => ⟨5 * n, by omega, ?_⟩, fun n => ⟨5 * n + 2, by omega, ?_⟩, fun n p hp => ?_⟩
  · simp [roundRobin]
  · simp [roundRobin]
  rcases Nat.le_total n 26 with hle | hle
  · exact ⟨26, hle, by rw [hr.2.1]; exact not_mem_nil⟩
  rw [stateAt_of_atRest hr n hle] at hp
  cases hp

end CqlDriver.Wait
