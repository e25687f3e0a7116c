import CqlDriver.Connection.Waiter
import Mathlib.Data.List.Perm.Basic

/-! # The books of a waiting call -/

namespace CqlDriver.Wait

open Lib Conn List Option

variable {M ρ ε κ : Type}

/-! ## Stream ids -/

/-- Each id is free, registered or in `used`. -/
structure Pool (conn : Connection κ) (used : List Int) : Prop where
  ids : IdsOk ⟨conn, used⟩
  all : (conn.requestIds.length + conn.requests.entries.length + used.length : Int) =
    conn.highestRequestId + 1
  highest : conn.highestRequestId ≤ conn.maxRequestId

variable {conn : Connection κ} {used : List Int} {n : Nat}

theorem Pool.perm {used' : List Int} (h : Pool conn used) (hp : used'.Perm used) : Pool conn used' := by
  refine ⟨idsOk_of_places_le h.ids (fun i => ?_) rfl, ?_, h.highest⟩
  · simp only [places, hp.count_eq]
    exact Nat.le_refl _
  rw [hp.length_eq]
  exact h.all

structure SameTable (conn conn' : Connection κ) : Prop where
  requests : conn'.requests = conn.requests
  inFlight : conn'.inFlight = conn.inFlight
  maxRequestId : conn'.maxRequestId = conn.maxRequestId
  isClosed : conn'.isClosed = conn.isClosed
  isDefunct : conn'.isDefunct = conn.isDefunct

theorem Pool.getRequestId (h : Pool conn used)
    (hrm : (conn.requests.entries.length + used.length : Int) ≤ conn.maxRequestId) :
    ∃ id conn', Conn.getRequestId conn = some (id, conn') ∧ Pool conn' (id :: used) ∧ SameTable conn conn' := by
  have hall := h.all
  have hh := h.highest
  cases hids : conn.requestIds with
  | cons id rest =>
    have hget : Conn.getRequestId conn = some (id, { conn with requestIds := rest }) := by
      unfold Conn.getRequestId
      rw [hids]
    refine ⟨id, _, hget, ⟨getRequestId_ok h.ids hget, ?_, hh⟩, rfl, rfl, rfl, rfl, rfl⟩
    rw [hids] at hall
    simp only [length_cons] at hall ⊢
    omega
  | nil =>
    have hle : conn.highestRequestId + 1 ≤ conn.maxRequestId := by
      rw [hids] at hall
      simp only [length_nil] at hall
      omega
    have hget : Conn.getRequestId conn =
        some (conn.highestRequestId + 1, { conn with highestRequestId := conn.highestRequestId + 1 }) := by
      unfold Conn.getRequestId
      rw [hids]
      exact if_pos hle
    refine ⟨_, _, hget, ⟨getRequestId_ok h.ids hget, ?_, hle⟩, rfl, rfl, rfl, rfl, rfl⟩
    simp only [length_cons]
    omega

theorem Pool.getRequestIds : ∀ {conn : Connection κ} {used : List Int}, Pool conn used →
    (conn.requests.entries.length + used.length + n : Int) ≤ conn.maxRequestId + 1 →
    ∃ ids conn', Wait.getRequestIds n conn = some (ids, conn') ∧ ids.length = n ∧
      Pool conn' (ids ++ used) ∧ SameTable conn conn' := by
  induction n with
  | zero => intro conn used h _; exact ⟨[], conn, rfl, rfl, h, rfl, rfl, rfl, rfl, rfl⟩
  | succ n ih =>
    intro conn used h hrm
    obtain ⟨id, conn₁, hget, hp, hs⟩ := h.getRequestId (by omega)
    have hr' : (conn₁.requests.entries.length + (id :: used).length + n : Int) ≤ conn₁.maxRequestId + 1 := by
      rw [hs.requests, hs.maxRequestId, length_cons]
      omega
    obtain ⟨ids, conn₂, hrs, hlen, hp', hs'⟩ := ih hp hr'
    refine ⟨id :: ids, conn₂, ?_, by rw [length_cons, hlen], ?_, ?_⟩
    · rw [Wait.getRequestIds, hget]
      simp only [hrs, map_some]
    · exact hp'.perm perm_middle.symm
    exact ⟨hs'.requests.trans hs.requests, hs'.inFlight.trans hs.inFlight,
      hs'.maxRequestId.trans hs.maxRequestId, hs'.isClosed.trans hs.isClosed, hs'.isDefunct.trans hs.isDefunct⟩

/-! ## Where everything is -/

def handed : Main ρ ε → List Int
  | .sending _ ids => ids
  | _ => []

def inHand : Reader ρ ε → List Int
  | .popped stream _ _ => [stream]
  | _ => []

def uncounted : Reader ρ ε → List Caller
  | .popped _ cb _ => [cb]
  | .released cb _ => [cb]
  | _ => []

def messagesSent (n : Nat) : Main ρ ε → Nat
  | .reserving sent => sent
  | .sending next _ => next
  | _ => n

def Caller.index? : Caller → Option Nat
  | .own index => some index
  | .other => none

def answering : Reader ρ ε → List Nat
  | .popped _ cb _ => cb.index?.toList
  | .released cb _ => cb.index?.toList
  | .counted index _ => [index]
  | .idle => []

def outstanding (s : State M ρ ε) : List Nat :=
  s.wire.filterMap (fun p => p.2.index?) ++ answering s.reader

def Call.pair (call : Call M ρ ε) (index : Nat) : Stored ρ ε :=
  match call.answer (.own index) with
  | .result response => .pair true (.inl response)
  | .error exc => .pair false (.inr (call.toException exc))

structure Linked (s : State M ρ ε) : Prop where
  isOpen : s.conn.isClosed = false ∧ s.conn.isDefunct = false
  pool : Pool s.conn (handed s.main ++ inHand s.reader)
  table : s.wire.Perm s.conn.requests.entries
  inFlight : s.conn.inFlight = s.wire.length + (handed s.main).length + (uncounted s.reader).length
  room : s.conn.inFlight ≤ s.conn.maxRequestId + 1

structure Sent (call : Call M ρ ε) (s : State M ρ ε) : Prop where
  fits : messagesSent call.msgs.length s.main + (handed s.main).length ≤ call.msgs.length
  pushed : s.pushed = call.msgs.take (messagesSent call.msgs.length s.main)
  reserving : ∀ sent, s.main = .reserving sent → sent < call.msgs.length
  sending : ∀ next ids, s.main = .sending next ids → ids ≠ []
  notRaised : s.main ≠ .raised
  returned : ∀ responses, s.main = .returned responses →
    responses = s.waiter.responses ∧ s.waiter.event = true

def Paired (call : Call M ρ ε) : Reader ρ ε → Prop
  | .popped _ cb answer => answer = call.answer cb
  | .released cb answer => answer = call.answer cb
  | .counted index answer => answer = call.answer (.own index)
  | .idle => True

structure Answered (call : Call M ρ ε) (s : State M ρ ε) : Prop where
  paired : Paired call s.reader
  nodup : (outstanding s).Nodup
  lt : ∀ i ∈ outstanding s, i < messagesSent call.msgs.length s.main
  failOnError : s.waiter.failOnError = false
  error : s.waiter.error = none
  length : s.waiter.responses.length = call.msgs.length
  stored : ∀ i, i < call.msgs.length → s.waiter.responses[i]? =
    some (if i < messagesSent call.msgs.length s.main ∧ i ∉ outstanding s then some (call.pair i) else none)
  pending : s.waiter.pending =
    (call.msgs.length - messagesSent call.msgs.length s.main : Int) + (outstanding s).length
  event : s.waiter.event = true ↔ s.waiter.pending = 0

structure Inv (call : Call M ρ ε) (s : State M ρ ε) : Prop where
  linked : Linked s
  sent : Sent call s
  answered : Answered call s

/-! ## What a step does -/

inductive Moves (call : Call M ρ ε) (s : State M ρ ε) : State M ρ ε → Prop where
  | reserve {sent : Nat} {ids : List Int} {conn : Connection Caller} (hm : s.main = .reserving sent)
      (hr : reserve (call.msgs.length - sent) s.conn = some (ids, conn)) (hids : ids ≠ []) :
      Moves call s { s with conn, main := .sending sent ids }
  | send {next : Nat} {id : Int} {ids : List Int} {msg : M} (hm : s.main = .sending next (id :: ids))
      (hmsg : call.msgs[next]? = some msg) :
      Moves call s { s with
        conn := { s.conn with requests := s.conn.requests.set id (.own next) }
        wire := s.wire ++ [(id, .own next)]
        pushed := s.pushed ++ [msg]
        main := continueWith call (next + 1) ids }
  | deliver (hm : s.main = .delivering) (he : s.waiter.event = true) :
      Moves call s { s with main := .returned s.waiter.responses }
  | answer {pos : Nat} {stream : Int} {caller : Caller} (hr : s.reader = .idle)
      (hw : s.wire[pos]? = some (stream, caller)) :
      Moves call s { s with
        conn := { s.conn with requests := s.conn.requests.erase stream }
        wire := s.wire.eraseIdx pos
        reader := .popped stream caller (call.answer caller) }
  | release {stream : Int} {cb : Caller} {answer : Answer ρ ε} (hr : s.reader = .popped stream cb answer) :
      Moves call s { s with
        conn := { s.conn with requestIds := s.conn.requestIds ++ [stream] }
        reader := .released cb answer }
  | count {cb : Caller} {answer : Answer ρ ε} (hr : s.reader = .released cb answer) :
      Moves call s { s with
        conn := { s.conn with inFlight := s.conn.inFlight - 1 }
        reader := afterCount cb answer }
  | store {index : Nat} {answer : Answer ρ ε} (hr : s.reader = .counted index answer) :
      Moves call s { s with
        waiter := s.waiter.gotResponse call.toException index answer
        reader := .idle }

variable {call : Call M ρ ε} {s s' : State M ρ ε}

theorem inHand_le (r : Reader ρ ε) : (inHand r).length ≤ (uncounted r).length := by
  cases r <;> simp [inHand, uncounted]

theorem Linked.reserve (h : Linked s) (hsn : Sent call s) {sent : Nat} (hm : s.main = .reserving sent) :
    ∃ ids conn, reserve (call.msgs.length - sent) s.conn = some (ids, conn) ∧
      (ids.length : Int) = min (call.msgs.length - sent : Int) (s.conn.maxRequestId - s.conn.inFlight + 1) ∧
      Pool conn (ids ++ inHand s.reader) ∧ conn.requests = s.conn.requests ∧
      conn.inFlight = s.conn.inFlight + ids.length ∧ conn.maxRequestId = s.conn.maxRequestId ∧
      conn.isClosed = s.conn.isClosed ∧ conn.isDefunct = s.conn.isDefunct := by
  have hlt := hsn.reserving sent hm
  have hp := h.pool
  have hrm := h.room
  have hf := h.inFlight
  have hh := inHand_le s.reader
  rw [h.table.length_eq] at hf
  simp only [hm, handed, nil_append, length_nil] at hp hf
  obtain ⟨available, ha⟩ : ∃ n : Nat,
      min (call.msgs.length - sent : Int) (s.conn.maxRequestId - s.conn.inFlight + 1) = n :=
    Int.eq_ofNat_of_zero_le (by omega)
  obtain ⟨ids, conn, hget, hlen, hp', hs⟩ := hp.getRequestIds (n := available) (by omega)
  have hrsv : Wait.reserve (call.msgs.length - sent) s.conn =
      some (ids, { conn with inFlight := conn.inFlight + available }) := by
    simp only [Wait.reserve, ha, Int.toNat_natCast, hget, map_some]
  refine ⟨ids, _, hrsv, ?_, ⟨?_, hp'.all, hp'.highest⟩, hs.requests, ?_, hs.maxRequestId, hs.isClosed, hs.isDefunct⟩
  · rw [ha, hlen]
  · exact idsOk_of_places_le hp'.ids (fun i => Nat.le_refl _) rfl
  · simp only [hs.inFlight, hlen]

variable {pos : Nat} {strm : Int}

theorem Linked.get?_of_wire (h : Linked s) {caller : Caller} (hw : s.wire[pos]? = some (strm, caller)) :
    s.conn.requests.get? strm = some caller := by
  rw [Dict.get?_eq_some, ← h.table.mem_iff]
  exact mem_of_getElem? hw

theorem getRequestIds_length : ∀ {conn conn' : Connection κ} {ids : List Int},
    getRequestIds n conn = some (ids, conn') → ids.length = n := by
  induction n with
  | zero =>
    intro conn conn' ids h
    cases h
    rfl
  | succ n ih =>
    intro conn conn' ids h
    unfold getRequestIds at h
    split at h
    · cases h
    obtain ⟨⟨rest, conn₂⟩, hrs, heq⟩ := map_eq_some_iff.mp h
    cases heq
    rw [length_cons, ih hrs]

variable {conn' : Connection κ} {needed : Int}

theorem reserve_nil (h : reserve needed conn = some ([], conn'))
    (hrm : 0 ≤ min needed (conn.maxRequestId - conn.inFlight + 1)) : conn' = conn := by
  obtain ⟨⟨ids, conn₁⟩, hget, heq⟩ := map_eq_some_iff.mp h
  cases heq
  have hz : min needed (conn.maxRequestId - conn.inFlight + 1) = 0 := by
    have hlen := getRequestIds_length hget
    simp only [length_nil] at hlen
    omega
  rw [hz] at hget ⊢
  cases hget
  simp

def Waits (s : State M ρ ε) : Prop :=
  (∃ sent, s.main = .reserving sent ∧ s.conn.maxRequestId + 1 ≤ s.conn.inFlight) ∨
    (s.main = .delivering ∧ s.waiter.event = false) ∨ ∃ responses, s.main = .returned responses

theorem Inv.mainStep (h : Inv call s) : (mainStep call s = s ∧ Waits s) ∨ Moves call s (mainStep call s) := by
  unfold Wait.mainStep
  cases hm : s.main with
  | reserving sent =>
    have hlt := h.sent.reserving sent hm
    obtain ⟨ids, conn, hrsv, hlen, -⟩ := h.linked.reserve h.sent hm
    simp only [hrsv]
    cases ids with
    | nil =>
      have hs := reserve_nil hrsv (by rw [← hlen]; exact Int.natCast_nonneg _)
      have hmn : continueWith call sent [] = s.main := by
        rw [hm]
        exact if_neg (Nat.ne_of_lt hlt)
      rw [hs, hmn]
      simp only [length_nil] at hlen
      exact .inl ⟨rfl, .inl ⟨sent, hm, by omega⟩⟩
    | cons id ids => exact .inr (.reserve hm hrsv (by simp))
  | sending next ids =>
    cases ids with
    | nil => exact absurd rfl (h.sent.sending next [] hm)
    | cons id ids =>
      have hf := h.sent.fits
      simp only [hm, messagesSent, handed, length_cons] at hf
      have hmsg : call.msgs[next]? = some call.msgs[next] := getElem?_eq_getElem (by omega)
      have hsn : sendMsg s.conn id (.own next) false =
          ({ s.conn with requests := s.conn.requests.set id (.own next) }, .sent) := by
        simp [sendMsg, h.linked.isOpen]
      simp only [hmsg, hsn]
      exact .inr (.send hm hmsg)
  | delivering =>
    simp only [ResponseWaiter.deliver, h.answered.error]
    cases he : s.waiter.event with
    | true => exact .inr (.deliver hm he)
    | false => exact .inl ⟨rfl, .inr (.inl ⟨hm, he⟩)⟩
  | returned resps => exact .inl ⟨rfl, .inr (.inr ⟨resps, hm⟩)⟩
  | raised => exact absurd hm h.sent.notRaised

theorem Inv.answerStep (h : Inv call s) (pos : Nat) :
    answerStep call s pos = s ∨ Moves call s (answerStep call s pos) := by
  unfold Wait.answerStep
  cases hr : s.reader with
  | idle =>
    cases hw : s.wire[pos]? with
    | none => exact .inl rfl
    | some p =>
      obtain ⟨strm, clr⟩ := p
      have hpop : s.conn.requests.pop strm = some (clr, s.conn.requests.erase strm) :=
        (Dict.pop_eq_some ..).mpr ⟨h.linked.get?_of_wire hw, rfl⟩
      simp only [hpop]
      exact .inr (.answer hr hw)
  | popped | released | counted => exact .inl rfl

theorem readerStep_moves (call : Call M ρ ε) (s : State M ρ ε) (hr : s.reader ≠ .idle) :
    Moves call s (readerStep call s) := by
  unfold readerStep
  cases hrd : s.reader with
  | idle => exact absurd hrd hr
  | popped strm cb ans => exact .release hrd
  | released cb ans => exact .count hrd
  | counted idx ans => exact .store hrd

theorem Inv.step (h : Inv call s) (a : Step) : step call s a = s ∨ Moves call s (step call s a) := by
  cases a with
  | main => exact h.mainStep.imp_left And.left
  | answer pos => exact h.answerStep pos
  | reader =>
    by_cases hr : s.reader = .idle
    · exact .inl (by simp only [Wait.step, readerStep, hr])
    · exact .inr (readerStep_moves call s hr)

section

variable (call : Call M ρ ε)

variable (next : Nat)

theorem continueWith_cases (ids : List Int) :
    (ids = [] ∧ next = call.msgs.length ∧ continueWith call next ids = .delivering) ∨
      (ids = [] ∧ next ≠ call.msgs.length ∧ continueWith call next ids = .reserving next) ∨
      (ids ≠ [] ∧ continueWith call next ids = .sending next ids) := by
  cases ids with
  | nil =>
    by_cases hall : next = call.msgs.length
    · exact .inl ⟨rfl, hall, if_pos hall⟩
    · exact .inr (.inl ⟨rfl, hall, if_neg hall⟩)
  | cons => exact .inr (.inr ⟨by simp, rfl⟩)

@[simp] theorem handed_continueWith (ids : List Int) :
    handed (continueWith call next ids) = ids := by
  rcases continueWith_cases call next ids with ⟨rfl, -, hc⟩ | ⟨rfl, -, hc⟩ | ⟨-, hc⟩ <;> rw [hc] <;> rfl

@[simp] theorem messagesSent_continueWith (ids : List Int) :
    messagesSent call.msgs.length (continueWith call next ids) = next := by
  rcases continueWith_cases call next ids with ⟨-, hall, hc⟩ | ⟨-, -, hc⟩ | ⟨-, hc⟩ <;> rw [hc]
  · exact hall.symm
  all_goals rfl

end

/-! ## The connection -/

theorem wire_perm {wire : List (Int × Caller)} {p : Int × Caller} (hw : wire[pos]? = some p) :
    wire.Perm (p :: wire.eraseIdx pos) := by
  obtain ⟨hpos, rfl⟩ := List.getElem?_eq_some_iff.mp hw
  exact (getElem_cons_eraseIdx_perm hpos).symm

theorem popRequest_ok (h : IdsOk ⟨conn, used⟩) (hmem : strm ∈ conn.requests.keys) :
    IdsOk ⟨{ conn with requests := conn.requests.erase strm }, used ++ [strm]⟩ := by
  refine idsOk_of_places_le h (fun i => ?_) rfl
  have hc := count_erase_key conn.requests i strm hmem
  simp only [places, count_append, count_singleton]
  omega

theorem releaseId_ok (h : IdsOk ⟨conn, used ++ [strm]⟩) :
    IdsOk ⟨{ conn with requestIds := conn.requestIds ++ [strm] }, used⟩ := by
  refine idsOk_of_places_le h (fun i => ?_) rfl
  simp only [places, count_append]
  omega

theorem Moves.linked (hmv : Moves call s s') (hs : Sent call s) (h : Linked s) : Linked s' := by
  have hp := h.pool
  have hf := h.inFlight
  have hall := h.pool.all
  cases hmv with
  | @reserve sent ids conn hm hr hids =>
    obtain ⟨ids', conn', hr', hlen, hp', hreq, hin, hmax, hcls, hdef⟩ := h.reserve hs hm
    obtain ⟨rfl, rfl⟩ := Prod.mk.inj (some.inj (hr.symm.trans hr'))
    refine ⟨⟨hcls.trans h.isOpen.1, hdef.trans h.isOpen.2⟩, hp', ?_, ?_, ?_⟩
    · rw [hreq]
      exact h.table
    · simp only [hm, handed, length_nil] at hf
      simp only [handed]
      omega
    · simp only [hin]
      omega
  | @send next id ids msg hm hmsg =>
    simp only [hm, handed] at hp hf hall
    have hid : id ∈ id :: ids ++ inHand s.reader := mem_cons_self
    have hfr : id ∉ s.conn.requests.keys := hp.ids.not_registered hid
    have hen := Dict.entries_set_of_not_mem hfr (Caller.own next)
    have hids := sendMsg_ok hp.ids id (Caller.own next) hid
    simp only [cons_append, erase_cons_head] at hids
    refine ⟨h.isOpen, ⟨?_, ?_, hp.highest⟩, ?_, ?_, h.room⟩
    · simpa only [handed_continueWith] using hids
    · simp only [handed_continueWith, hen, length_append, length_cons, length_nil] at hall ⊢
      omega
    · rw [hen]
      exact h.table.append_right _
    · simp only [handed_continueWith, hf, length_append, length_cons, length_nil]
      omega
  | deliver hm =>
    simp only [hm] at hp hf
    exact ⟨h.isOpen, hp, h.table, hf, h.room⟩
  | @answer pos strm caller hr hw =>
    have hget := h.get?_of_wire hw
    have hen := Dict.entries_of_get? hget
    have hwr := wire_perm hw
    have hlen := hwr.length_eq
    have hlen' := hen.length_eq
    simp only [hr, inHand, append_nil, length_cons] at hp hf hall hlen hlen'
    refine ⟨h.isOpen, ⟨?_, ?_, hp.highest⟩, ?_, ?_, h.room⟩
    · exact popRequest_ok hp.ids (Dict.mem_keys_of_get? hget)
    · simp only [inHand, length_append, length_cons, length_nil]
      omega
    · exact Perm.cons_inv ((hwr.symm.trans h.table).trans hen)
    · simp only [hf, uncounted, length_cons]
      omega
  | @release strm cb answer hr =>
    simp only [hr, inHand, length_append, length_cons, length_nil] at hp hf hall
    refine ⟨h.isOpen, ⟨?_, ?_, hp.highest⟩, h.table, ?_, h.room⟩
    · simpa only [inHand, append_nil] using releaseId_ok hp.ids
    · simp only [inHand, length_append, length_cons, length_nil]
      omega
    · simp only [hf, uncounted]
  | @count cb answer hr =>
    simp only [hr, inHand, uncounted, length_cons] at hp hf hall
    have hrm := h.room
    have hn : inHand (afterCount cb answer) = [] ∧ uncounted (afterCount cb answer) = [] := by
      cases cb <;> exact ⟨rfl, rfl⟩
    refine ⟨h.isOpen, ⟨?_, ?_, hp.highest⟩, h.table, ?_, ?_⟩
    · simp only [hn.1]
      exact idsOk_of_places_le hp.ids (fun i => Nat.le_refl _) rfl
    · simpa only [hn.1] using hall
    · simp only [hf, hn.2]
      omega
    · simp only
      omega
  | store hr =>
    simp only [hr] at hp hf
    exact ⟨h.isOpen, hp, h.table, hf, h.room⟩

/-! ## The messages -/

theorem reserve_length_le {ids : List Int} (hn : 0 ≤ needed) (h : reserve needed conn = some (ids, conn')) :
    (ids.length : Int) ≤ needed := by
  obtain ⟨⟨ids', conn₁⟩, hget, heq⟩ := map_eq_some_iff.mp h
  cases heq
  rw [getRequestIds_length hget]
  omega

theorem Sent.of_same (h : Sent call s) (hmn : s'.main = s.main) (hp : s'.pushed = s.pushed)
    (hwt : s'.waiter = s.waiter) : Sent call s' := by
  obtain ⟨hf, ht, hrs, hs, hrsd, hret⟩ := h
  rw [← hmn] at hf ht hrs hs hrsd hret
  rw [← hwt] at hret
  exact ⟨hf, hp.trans ht, hrs, hs, hrsd, hret⟩

theorem Answered.waiting (h : Answered call s) (hf : messagesSent call.msgs.length s.main ≤ call.msgs.length)
    (hout : outstanding s ≠ []) : 0 < s.waiter.pending ∧ s.waiter.event = false := by
  have hlen := length_pos_iff.mpr hout
  have hp := h.pending
  have hpos : 0 < s.waiter.pending := by omega
  rw [← Bool.not_eq_true, h.event]
  omega

theorem Moves.sent (hmv : Moves call s s') (h : Sent call s) (ha : Answered call s) : Sent call s' := by
  have hf := h.fits
  have hp := h.pushed
  cases hmv with
  | @reserve sent ids conn hm hr hids =>
    have hlt := h.reserving sent hm
    have hle := reserve_length_le (by omega) hr
    simp only [hm] at hp
    refine ⟨?_, hp, nofun, ?_, nofun, nofun⟩
    · simp only [messagesSent, handed]
      omega
    · rintro _ _ heq
      obtain ⟨-, rfl⟩ := Main.sending.inj heq
      exact hids
  | @send next id ids msg hm hmsg =>
    simp only [hm, messagesSent, handed, length_cons] at hf hp
    have hn := continueWith_cases call (next + 1) ids
    refine ⟨?_, ?_, fun sent heq => ?_, fun _ _ heq => ?_, fun heq => ?_, fun _ heq => ?_⟩
    · simp only [messagesSent_continueWith, handed_continueWith]
      omega
    · simp only [messagesSent_continueWith, hp, take_add_one, hmsg, toList_some]
    all_goals rcases hn with ⟨-, hall, hc⟩ | ⟨-, hmr, hc⟩ | ⟨hids, hc⟩ <;> rw [hc] at heq <;> cases heq
    · omega
    · exact hids
  | deliver hm he =>
    simp only [hm] at hf hp
    refine ⟨hf, hp, nofun, nofun, nofun, ?_⟩
    rintro _ heq
    obtain rfl := Main.returned.inj heq
    exact ⟨rfl, he⟩
  | answer | release | count => exact h.of_same rfl rfl rfl
  | @store index answer hr =>
    -- the call has not returned while an answer is not stored
    have hwt := (ha.waiting (by omega) (by simp [outstanding, hr, answering])).2
    refine ⟨hf, hp, h.reserving, h.sending, h.notRaised, fun responses hm => ?_⟩
    have hev := (h.returned responses hm).2
    rw [hwt] at hev
    cases hev

/-! ## The waiter -/

theorem Answered.of_perm (h : Answered call s) (hp : Paired call s'.reader)
    (hs : messagesSent call.msgs.length s'.main = messagesSent call.msgs.length s.main)
    (hout : (outstanding s').Perm (outstanding s)) (hwt : s'.waiter = s.waiter) : Answered call s' := by
  refine ⟨hp, hout.nodup_iff.mpr h.nodup, ?_, ?_, ?_, ?_, ?_, ?_, ?_⟩
  · intro i hi
    rw [hs]
    exact h.lt i (hout.mem_iff.mp hi)
  · rw [hwt]
    exact h.failOnError
  · rw [hwt]
    exact h.error
  · rw [hwt]
    exact h.length
  · intro i hi
    rw [hwt, hs, h.stored i hi]
    simp only [hout.mem_iff]
  · rw [hwt, hs, hout.length_eq]
    exact h.pending
  rw [hwt]
  exact h.event

theorem gotResponse_eq {w : ResponseWaiter ρ ε} (hw : w.failOnError = false) (idx : Nat) :
    w.gotResponse call.toException idx (call.answer (.own idx)) =
      { w with
        responses := w.responses.set idx (some (call.pair idx))
        pending := w.pending - 1
        event := if w.pending - 1 = 0 then true else w.event } := by
  unfold ResponseWaiter.gotResponse ResponseWaiter.store Call.pair
  cases call.answer (.own idx) <;> simp only [hw, Bool.false_eq_true, if_false] <;> split <;> rfl

theorem Moves.answered (hmv : Moves call s s') (hs : Sent call s) (h : Answered call s) : Answered call s' := by
  have hf := hs.fits
  cases hmv with
  | reserve hm | deliver hm =>
    exact h.of_perm h.paired (by simp only [hm, messagesSent]) (.refl _) rfl
  | @send next id ids msg hm hmsg =>
    have hlt : ∀ i ∈ outstanding s, i < next := by
      have := h.lt
      rwa [hm] at this
    have hsto := h.stored
    have hpn := h.pending
    simp only [hm, messagesSent] at hsto hpn
    have hout : (s.wire ++ [(id, Caller.own next)]).filterMap (fun p => p.2.index?) ++ answering s.reader =
        s.wire.filterMap (fun p => p.2.index?) ++ next :: answering s.reader := by
      simp [Caller.index?]
    have hpr : ((s.wire ++ [(id, Caller.own next)]).filterMap (fun p => p.2.index?) ++ answering s.reader).Perm
        (next :: outstanding s) := by
      rw [hout]
      exact perm_middle
    refine ⟨h.paired, ?_, ?_, h.failOnError, h.error, h.length, ?_, ?_, h.event⟩
    · refine hpr.nodup_iff.mpr (nodup_cons.mpr ⟨fun hmem => ?_, h.nodup⟩)
      exact absurd (hlt next hmem) (Nat.lt_irrefl next)
    · intro i hi
      simp only [messagesSent_continueWith]
      rcases mem_cons.mp (hpr.mem_iff.mp hi) with rfl | hi
      · exact Nat.lt_succ_self _
      · exact Nat.lt_succ_of_lt (hlt i hi)
    · intro i hi
      rw [hsto i hi]
      simp only [messagesSent_continueWith, outstanding, hpr.mem_iff, mem_cons]
      congr 1
      refine if_congr ⟨fun hdn => ?_, fun hdn => ?_⟩ rfl rfl
      · exact ⟨Nat.lt_succ_of_lt hdn.1, not_or.mpr ⟨Nat.ne_of_lt hdn.1, hdn.2⟩⟩
      · obtain ⟨hne, hnot⟩ := not_or.mp hdn.2
        exact ⟨by omega, hnot⟩
    · simp only [messagesSent_continueWith, outstanding, hpr.length_eq, length_cons, hpn]
      omega
  | @answer pos strm caller hr hw =>
    refine h.of_perm rfl rfl ?_ rfl
    have hpr := ((wire_perm hw).filterMap (fun p => p.2.index?)).symm
    simp only [outstanding, hr, answering, append_nil]
    cases caller with
    | own index => exact (perm_append_singleton _ _).trans hpr
    | other =>
      simp only [Caller.index?, toList_none, append_nil]
      exact hpr
  | release hr =>
    have hp := h.paired
    rw [hr] at hp
    refine h.of_perm hp rfl ?_ rfl
    simp only [outstanding, hr]
    exact .refl _
  | @count cb answer hr =>
    have hp := h.paired
    rw [hr] at hp
    cases cb with
    | own index =>
      refine h.of_perm hp rfl ?_ rfl
      simp only [outstanding, hr]
      exact .refl _
    | other =>
      refine h.of_perm trivial rfl ?_ rfl
      simp only [outstanding, hr]
      exact .refl _
  | @store index answer hr =>
    have hp := h.paired
    rw [hr] at hp
    obtain rfl : answer = call.answer (.own index) := hp
    have hbef : outstanding s = s.wire.filterMap (fun p => p.2.index?) ++ [index] := by
      simp only [outstanding, hr, answering]
    obtain ⟨hpos, hev⟩ := h.waiting (by omega) (by rw [hbef]; simp)
    have hn := h.nodup
    have hlt := h.lt
    have hsto := h.stored
    have hpn := h.pending
    rw [hbef] at hn hlt hsto hpn
    obtain ⟨hwr, -, hd⟩ := nodup_append.mp hn
    have hin : index ∉ s.wire.filterMap (fun p => p.2.index?) :=
      fun hmem => hd index hmem index (mem_singleton.mpr rfl) rfl
    rw [gotResponse_eq h.failOnError]
    refine ⟨trivial, ?_, ?_, h.failOnError, h.error, ?_, ?_, ?_, ?_⟩
    · simpa only [outstanding, answering, append_nil] using hwr
    · intro i hi
      simp only [outstanding, answering, append_nil] at hi
      exact hlt i (mem_append_left _ hi)
    · simpa only [length_set] using h.length
    · intro i hi
      simp only [outstanding, answering, append_nil, getElem?_set]
      by_cases heq : index = i
      · subst heq
        have hs : index < messagesSent call.msgs.length s.main := hlt index (by simp)
        rw [if_pos rfl, if_pos (by rw [h.length]; exact hi), if_pos ⟨hs, hin⟩]
      · rw [if_neg heq, hsto i hi]
        simp only [mem_append, mem_singleton, Ne.symm heq, or_false]
    · simp only [outstanding, answering, append_nil, hpn, length_append, length_singleton]
      omega
    · simp [hev]

theorem Moves.inv (hmv : Moves call s s') (h : Inv call s) : Inv call s' :=
  ⟨hmv.linked h.sent h.linked, hmv.sent h.sent h.answered, hmv.answered h.sent h.answered⟩

end CqlDriver.Wait
