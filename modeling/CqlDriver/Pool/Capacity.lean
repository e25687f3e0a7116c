import CqlDriver.Pool.Basic
import CqlDriver.Connection.Streams
import Mathlib.Data.List.Perm.Basic

/-! # How many stream ids are in use -/

namespace CqlDriver.Conn

open Lib List

variable {κ ε ρ : Type}

structure Lent (κ : Type) where
  conn : Connection κ
  returning : Nat

inductive LentAct (κ : Type)
  | query (cb : κ) (fault : Bool)
  | processMsg (frame : Frame)
  | returnConnection
  | onTimeout (reqId : Int) (poolOpen : Bool)
  | defunct
  | close

def Lent.init (protocolVersion maxInFlight : Nat) : Lent κ := ⟨Connection.init protocolVersion maxInFlight, 0⟩

def Handled.calls : Handled κ ε ρ → Nat
  | .callback _ _ | .protocolError _ _ | .undecodable _ _ => 1
  | .ignored | .pushed _ | .pushFailed _ => 0

def lentStep (d : Decoding κ ε ρ) (s : Lent κ) : LentAct κ → Lent κ
  | .query cb fault =>
    match queryOn .hostConnection s.conn cb fault with
    | (conn, .failed _) => { s with conn := giveBack conn }
    | (conn, _) => { s with conn }
  | .processMsg frame =>
    let (conn, handled) := processMsg d s.conn frame
    if handled.defuncts then
      let (conn, cbs) := Conn.defunct conn
      ⟨conn, s.returning + handled.calls + cbs.length⟩
    else ⟨conn, s.returning + handled.calls⟩
  | .returnConnection =>
    match s.returning with
    | 0 => s
    | n + 1 => ⟨giveBack s.conn, n⟩
  | .onTimeout reqId poolOpen =>
    match timeoutRequest s.conn reqId poolOpen with
    | none => s
    | some conn => { s with conn := if poolOpen then giveBack conn else conn }
  | .defunct =>
    let (conn, cbs) := Conn.defunct s.conn
    ⟨conn, s.returning + cbs.length⟩
  | .close =>
    let (conn, cbs) := Conn.close s.conn
    ⟨conn, s.returning + cbs.length⟩

def isOpen (c : Connection κ) : Bool := !c.isDefunct && !c.isClosed

def usedIds (c : Connection κ) : List Int :=
  (idRange (c.maxRequestId + 1).toNat).filter fun i => i ∉ c.requestIds ∧ i ≤ c.highestRequestId

/-- `send_msg` does not raise once the request is registered. -/
def NoFault (_ : Lent κ) : LentAct κ → Prop
  | .query _ fault => fault = false
  | _ => True

instance (s : Lent κ) : (a : LentAct κ) → Decidable (NoFault s a)
  | .query _ fault => inferInstanceAs (Decidable (fault = false))
  | .processMsg _ | .returnConnection | .onTimeout .. | .defunct | .close => isTrue trivial

/-! ## Counting -/

structure CapacityOk (s : Lent κ) : Prop where
  ids : IdsOk ⟨s.conn, []⟩
  highest : s.conn.highestRequestId ≤ s.conn.maxRequestId
  covered : isOpen s.conn = true →
    s.conn.highestRequestId + 1 + s.returning ≤ s.conn.inFlight + s.conn.requestIds.length

variable {c conn : Connection κ} {s : Lent κ}

theorem usedIds_length (h : IdsOk ⟨c, []⟩) (hmax : c.highestRequestId ≤ c.maxRequestId) :
    ((usedIds c).length : Int) + c.requestIds.length = c.highestRequestId + 1 := by
  have hf : c.requestIds.Nodup := by
    rw [nodup_iff_count_le_one]
    intro i
    have := h.once i
    unfold places at this
    simp only at this
    omega
  have hr : ∀ i ∈ c.requestIds, 0 ≤ i ∧ i ≤ c.highestRequestId := by
    intro i hi
    apply h.range
    have := count_pos_iff.mpr hi
    unfold places
    simp only
    omega
  have hh := h.highest
  simp only at hh
  have hu : ∀ i, i ∈ usedIds c ↔ (0 ≤ i ∧ i ≤ c.highestRequestId) ∧ i ∉ c.requestIds := by
    intro i
    simp only [usedIds, mem_filter, mem_idRange, decide_eq_true_eq]
    constructor
    · rintro ⟨⟨h0, -⟩, hni, hle⟩
      exact ⟨⟨h0, hle⟩, hni⟩
    rintro ⟨⟨h0, hle⟩, hni⟩
    exact ⟨⟨h0, by omega⟩, hni, hle⟩
  have hp : (usedIds c ++ c.requestIds).Perm (idRange (c.highestRequestId + 1).toNat) := by
    rw [perm_ext_iff_of_nodup]
    · intro i
      rw [mem_append, hu, mem_idRange]
      constructor
      · rintro (⟨⟨h0, hle⟩, -⟩ | hi)
        · omega
        have := hr i hi
        omega
      intro hi
      by_cases hmem : i ∈ c.requestIds
      · exact .inr hmem
      · exact .inl ⟨by omega, hmem⟩
    · rw [nodup_append]
      refine ⟨(idRange_nodup _).filter _, hf, ?_⟩
      rintro i hi j hj rfl
      exact ((hu i).mp hi).2 hj
    · exact idRange_nodup _
  have hlen := hp.length_eq
  rw [length_append, idRange, length_map, length_range] at hlen
  omega

theorem lent_init_ok (pv mif : Nat) (h : 1 ≤ mif) : CapacityOk (Lent.init pv mif : Lent κ) := by
  refine ⟨ids_init_ok _ _ h, ?_, ?_⟩
  · unfold Lent.init Connection.init
    split <;> simp only <;> omega
  unfold Lent.init Connection.init
  split <;> simp [idRange]

/-! ## Each step keeps it -/

variable {n : Nat} {cb : κ} {d : Decoding κ ε ρ}

theorem capacityOk_of_closed (h : CapacityOk s) (hids : IdsOk ⟨conn, []⟩)
    (hh : conn.highestRequestId = s.conn.highestRequestId) (hmax : conn.maxRequestId = s.conn.maxRequestId)
    (hcls : isOpen conn = false) : CapacityOk ⟨conn, n⟩ := by
  refine ⟨hids, ?_, ?_⟩
  · have := h.highest
    simp only [hh]
    omega
  intro ho
  rw [hcls] at ho
  cases ho

theorem defunct_capacity (h : CapacityOk s) : CapacityOk ⟨(defunct s.conn).1, n⟩ := by
  have hids : IdsOk ⟨(defunct s.conn).1, []⟩ := defunct_ok h.ids
  unfold defunct at hids ⊢
  split at hids
  · rename_i hdd
    rw [if_pos hdd]
    exact capacityOk_of_closed h hids rfl rfl (by cases hd : s.conn.isDefunct <;> simp_all [isOpen])
  rename_i hdd
  rw [if_neg hdd]
  simp only [Bool.or_eq_true, not_or] at hdd
  simp only [hdd.2] at hids ⊢
  exact capacityOk_of_closed h hids rfl rfl rfl

theorem close_capacity (h : CapacityOk s) : CapacityOk ⟨(close s.conn).1, n⟩ := by
  have hids : IdsOk ⟨(close s.conn).1, []⟩ := close_ok h.ids
  unfold close at hids ⊢
  split at hids
  · rename_i hcls
    rw [if_pos hcls]
    exact capacityOk_of_closed h hids rfl rfl (by simp [isOpen, hcls])
  rename_i hcls
  rw [if_neg hcls]
  simp only at hids
  split at hids
  · rename_i hdef
    rw [if_pos hdef]
    exact capacityOk_of_closed h hids rfl rfl (by simp [isOpen])
  rename_i hdef
  rw [if_neg hdef]
  exact capacityOk_of_closed h hids rfl rfl (by simp [isOpen, errorAllRequests])

theorem getRequestId_capacity {c' : Connection κ} {id : Int} (h : getRequestId c = some (id, c'))
    (hmax : c.highestRequestId ≤ c.maxRequestId) :
    c'.highestRequestId ≤ c'.maxRequestId ∧ isOpen c' = isOpen c ∧ c'.inFlight = c.inFlight ∧
      c'.highestRequestId - c'.requestIds.length = c.highestRequestId - c.requestIds.length + 1 := by
  rcases getRequestId_cases h with ⟨rest, hids, rfl⟩ | ⟨hids, hid, hle, rfl⟩
  · refine ⟨hmax, rfl, rfl, ?_⟩
    simp only [hids, length_cons]
    omega
  refine ⟨hle, rfl, rfl, ?_⟩
  simp only [hids]
  omega

theorem query_capacity (h : CapacityOk s) : CapacityOk (lentStep d s (.query cb false)) := by
  simp only [lentStep]
  rcases queryOn_cases .hostConnection s.conn cb false with
    ⟨hq, -⟩ | ⟨hq, -, -⟩ | ⟨requestId, c', -, hid, ⟨hq, hdd⟩ | ⟨hq, -⟩⟩ <;> rw [hq]
  · exact h
  · refine ⟨⟨h.ids.once, h.ids.range, h.ids.highest⟩, h.highest, fun ho => ?_⟩
    have := h.covered ho
    simp only
    omega
  · -- A send on a dead connection loses its id, but nothing is claimed any more.
    obtain ⟨hmax, ho, -, -⟩ := getRequestId_capacity hid h.highest
    have hids : IdsOk ⟨c', []⟩ := idsOk_of_places_le (getRequestId_ok h.ids hid)
      (fun i => by simp only [places, count_nil]; omega) rfl
    refine ⟨⟨hids.once, hids.range, hids.highest⟩, hmax, fun hc => ?_⟩
    have hcls : isOpen c' = false := by
      rw [ho]
      rcases hdd with hd | hd <;> simp [isOpen, hd]
    have : isOpen c' := hc
    rw [hcls] at this
    cases this
  obtain ⟨hmax, ho, hf, hcn⟩ := getRequestId_capacity hid h.highest
  have hids := sendMsg_ok (getRequestId_ok h.ids hid) requestId cb mem_cons_self
  simp only [erase_cons_head] at hids
  refine ⟨⟨hids.once, hids.range, hids.highest⟩, hmax, fun hc => ?_⟩
  have hc : isOpen c' := hc
  rw [ho] at hc
  have := h.covered hc
  change c'.highestRequestId + 1 + s.returning ≤ s.conn.inFlight + 1 + c'.requestIds.length
  omega

theorem takeRequest_capacity {sid : Int} (h : CapacityOk s) (ht : takeRequest s.conn sid = some (cb, conn)) :
    CapacityOk ⟨conn, s.returning + 1⟩ := by
  have hids : IdsOk ⟨conn, []⟩ := takeRequest_ok h.ids ht
  obtain ⟨-, rfl⟩ := takeRequest_eq_some ht
  refine ⟨hids, h.highest, fun ho => ?_⟩
  have := h.covered ho
  simp only [length_append, length_singleton]
  omega

theorem processMsg_capacity (fr : Frame) (h : CapacityOk s) : CapacityOk (lentStep d s (.processMsg fr)) := by
  have hh : CapacityOk ⟨(processMsg d s.conn fr).1, s.returning + (processMsg d s.conn fr).2.calls⟩ := by
    unfold processMsg
    split
    · split <;> exact h
    split
    · exact h
    rename_i cb conn ht
    have := takeRequest_capacity h ht
    split
    · exact this
    · split <;> exact this
  simp only [lentStep]
  split
  · exact defunct_capacity hh
  · exact hh

theorem returnConnection_capacity (h : CapacityOk s) : CapacityOk (lentStep d s .returnConnection) := by
  simp only [lentStep]
  split
  · exact h
  refine ⟨⟨h.ids.once, h.ids.range, h.ids.highest⟩, h.highest, fun ho => ?_⟩
  have := h.covered ho
  simp only [giveBack]
  omega

theorem onTimeout_capacity (reqId : Int) (po : Bool) (h : CapacityOk s) :
    CapacityOk (lentStep d s (.onTimeout reqId po)) := by
  have hids := idStep_ok d ⟨s.conn, []⟩ (.onTimeout reqId po) h.ids
  simp only [lentStep]
  simp only [idStep] at hids
  split
  · exact h
  rename_i conn ht
  simp only [ht] at hids
  obtain ⟨-, rfl⟩ := timeoutRequest_eq_some ht
  cases po with
  | true =>
    refine ⟨⟨hids.once, hids.range, hids.highest⟩, h.highest, fun ho => ?_⟩
    have := h.covered ho
    simp only [if_true, giveBack, length_append, length_singleton]
    omega
  | false => exact ⟨hids, h.highest, h.covered⟩

theorem lentStep_capacity (s : Lent κ) (a : LentAct κ) (h : CapacityOk s) (ha : NoFault s a) :
    CapacityOk (lentStep d s a) := by
  cases a with
  | query cb fault =>
    cases (show fault = false from ha)
    exact query_capacity h
  | processMsg fr => exact processMsg_capacity fr h
  | returnConnection => exact returnConnection_capacity h
  | onTimeout reqId po => exact onTimeout_capacity reqId po h
  | defunct => exact defunct_capacity h
  | close => exact close_capacity h

/-- **Stream-id capacity.** A borrow that passes its check finds an id. -/
theorem used_ids_at_most_in_flight (d : Decoding κ ε ρ) (protocolVersion maxInFlight : Nat)
    (hmax : 1 ≤ maxInFlight) (acts : List (LentAct κ))
    (h : RunOk (lentStep d) NoFault (Lent.init protocolVersion maxInFlight) acts) :
    let s := run (lentStep d) (Lent.init protocolVersion maxInFlight) acts
    isOpen s.conn = true →
      ((usedIds s.conn).length : Int) ≤ s.conn.inFlight ∧
        (s.conn.inFlight ≤ s.conn.maxRequestId → (getRequestId s.conn).isSome) := by
  intro s ho
  have hok : CapacityOk s := run_invariant lentStep_capacity (lent_init_ok _ _ hmax) h
  have hu := usedIds_length hok.ids hok.highest
  have hc := hok.covered ho
  refine ⟨by omega, fun hr => ?_⟩
  unfold getRequestId
  cases hids : s.conn.requestIds with
  | cons id rest => rfl
  | nil =>
    rw [hids, length_nil] at hc
    rw [if_pos (by omega)]
    rfl

theorem used_ids_at_most_in_flight_three :
    let s := run (lentStep bodyDecoding) (Lent.init 4 3 : Lent Nat)
      [.query 0 false, .query 1 false, .query 2 false, .processMsg ⟨4, 0, 1, 8, []⟩, .returnConnection,
        .onTimeout 0 true]
    isOpen s.conn = true ∧ ((usedIds s.conn).length : Int) ≤ s.conn.inFlight :=
  ⟨by decide, (used_ids_at_most_in_flight bodyDecoding 4 3 (by decide) _ (by decide) (by decide)).1⟩

/-- A send that raises keeps its id: a later borrow fails the assertion. -/
theorem raised_send_loses_id : let s := run (lentStep bodyDecoding) (Lent.init 4 1 : Lent Nat) [.query 0 true]
    isOpen s.conn = true ∧ ¬ ((usedIds s.conn).length : Int) ≤ s.conn.inFlight ∧
      s.conn.inFlight ≤ s.conn.maxRequestId ∧ getRequestId s.conn = none := by
  decide

end CqlDriver.Conn
