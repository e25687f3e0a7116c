import CqlDriver.Connection.Basic
import Mathlib.Data.List.Count

/-!
# Stream ids are never shared

Every id is in at most one of three places: the free ids, the request table, the ids that were
handed out and not sent yet.
-/

namespace CqlDriver.Conn

open Lib List Dict

variable {κ ε ρ : Type}

structure Ids (κ : Type) where
  conn : Connection κ
  /-- Handed out by `get_request_id` and not yet given to `send_msg`. -/
  handed : List Int

inductive IdAct (κ : Type)
  | getRequestId
  | sendMsg (id : Int) (cb : κ) (fault : Bool)
  | processMsg (frame : Frame)
  | onTimeout (id : Int) (poolOpen : Bool)
  | errorAllRequests
  | close
  | defunct

def Ids.init (protocolVersion maxInFlight : Nat) : Ids κ := ⟨Connection.init protocolVersion maxInFlight, []⟩

def idStep (d : Decoding κ ε ρ) (s : Ids κ) : IdAct κ → Ids κ
  | .getRequestId =>
    match getRequestId s.conn with
    | none => s
    | some (id, conn) => ⟨conn, id :: s.handed⟩
  | .sendMsg id cb fault =>
    if id ∈ s.handed then
      match Conn.sendMsg s.conn id cb fault with
      | (conn, .shutdown) => ⟨conn, s.handed⟩
      | (conn, .sent) | (conn, .raised) => ⟨conn, s.handed.erase id⟩
    else s
  | .processMsg frame =>
    -- `defunct` runs right after; other steps of the callback come as steps of their own.
    let (conn, handled) := processMsg d s.conn frame
    ⟨if handled.defuncts then (defunct conn).1 else conn, s.handed⟩
  | .onTimeout id poolOpen =>
    match timeoutRequest s.conn id poolOpen with
    | none => s
    | some conn => ⟨conn, s.handed⟩
  | .errorAllRequests => ⟨(errorAllRequests s.conn).1, s.handed⟩
  | .close => ⟨(close s.conn).1, s.handed⟩
  | .defunct => ⟨(defunct s.conn).1, s.handed⟩

/-! ## Counting an id -/

def places (s : Ids κ) (i : Int) : Nat :=
  s.conn.requestIds.count i + s.conn.requests.keys.count i + s.handed.count i

structure IdsOk (s : Ids κ) : Prop where
  once : ∀ i, places s i ≤ 1
  range : ∀ i, 0 < places s i → 0 ≤ i ∧ i ≤ s.conn.highestRequestId
  highest : 0 ≤ s.conn.highestRequestId

theorem idRange_nodup (n : Nat) : (idRange n).Nodup :=
  nodup_range.map fun _ _ h => Int.ofNat.inj h

theorem mem_idRange (n : Nat) (i : Int) : i ∈ idRange n ↔ 0 ≤ i ∧ i < n := by
  simp only [idRange, mem_map, mem_range]
  constructor
  · simp; omega
  rintro ⟨h0, hn⟩
  exact ⟨i.toNat, by omega, by simp; omega⟩

theorem count_idRange (n : Nat) (i : Int) : (idRange n).count i = if 0 ≤ i ∧ i < n then 1 else 0 := by
  rw [(idRange_nodup n).count]
  simp only [mem_idRange]

theorem ids_init_ok (pv mif : Nat) (h : 1 ≤ mif) : IdsOk (Ids.init pv mif : Ids κ) := by
  unfold Ids.init Connection.init
  split
  all_goals
    refine ⟨fun i => ?_, fun i => ?_, ?_⟩
    · simp only [places, count_idRange]
      split <;> simp
    · simp only [places, count_idRange]
      split <;> simp; omega
    · simp only; omega

variable {s : Ids κ} {conn : Connection κ} {id : Int}

theorem idsOk_of_places_le {s' : Ids κ} (h : IdsOk s) (hle : ∀ i, places s' i ≤ places s i)
    (hh : s'.conn.highestRequestId = s.conn.highestRequestId) : IdsOk s'  where
  once i := Nat.le_trans (hle i) (h.once i)
  range i hi := by
    rw [hh]
    exact h.range i (Nat.lt_of_lt_of_le hi (hle i))
  highest := by rw [hh]; exact h.highest

theorem count_erase_key (r : Dict Int κ) (i j : Int) (hj : j ∈ r.keys) :
    (r.erase j).keys.count i + (if i = j then 1 else 0) = r.keys.count i := by
  rw [(r.erase j).keys_nodup.count, r.keys_nodup.count]
  simp only [mem_keys_erase]
  by_cases hi : i = j
  · simp [hi, hj]
  · simp [hi]

theorem count_singleton (i j : Int) : [j].count i = if i = j then 1 else 0 := by
  by_cases h : i = j
  · simp [h]
  · simp [h, Ne.symm h]

/-! ## Each step keeps the invariant -/

section

variable (h : IdsOk s)
include h

theorem getRequestId_ok (hg : getRequestId s.conn = some (id, conn)) : IdsOk ⟨conn, id :: s.handed⟩ := by
  rcases getRequestId_cases hg with ⟨rest, hids, rfl⟩ | ⟨hids, hid, -, rfl⟩
  · -- A recycled id moves from the free ids to the handed-out ones.
    apply idsOk_of_places_le h
    · simp only [places, hids, count_cons]
      omega
    · rfl
  -- A new id is above every id so far.
  have hnew : places s id = 0 := by
    by_contra hp
    have := (h.range id (by omega)).2
    omega
  have hpl : ∀ i, places (κ := κ) ⟨{ s.conn with highestRequestId := id }, id :: s.handed⟩ i =
      places s i + if i = id then 1 else 0 := by
    intro i
    have hc : (id :: s.handed).count i = s.handed.count i + if i = id then 1 else 0 := by
      rw [← singleton_append, count_append, count_singleton, Nat.add_comm]
    simp only [places]
    omega
  refine ⟨?_, ?_, ?_⟩
  · intro i
    have := h.once i
    rw [hpl]
    split
    · rename_i hi
      rw [hi]; omega
    · omega
  · intro i hi
    rw [hpl] at hi
    have hh := h.highest
    by_cases hii : i = id
    · simp only; omega
    have := h.range i (by simpa [hii] using hi)
    simp only; omega
  have := h.highest
  simp only; omega

theorem takeRequest_ok {sid : Int} {cb : κ} (ht : takeRequest s.conn sid = some (cb, conn)) :
    IdsOk ⟨conn, s.handed⟩ := by
  obtain ⟨hget, rfl⟩ := takeRequest_eq_some ht
  apply idsOk_of_places_le h
  · intro i
    have := count_erase_key s.conn.requests i sid (mem_keys_of_get? hget)
    simp only [places, count_append, count_singleton]
    omega
  · rfl

theorem timeoutRequest_ok {reqId : Int} {po : Bool}
    (ht : timeoutRequest s.conn reqId po = some conn) : IdsOk ⟨conn, s.handed⟩ := by
  obtain ⟨hk, rfl⟩ := timeoutRequest_eq_some ht
  apply idsOk_of_places_le h
  · intro i
    have := count_erase_key s.conn.requests i reqId hk
    cases po <;> simp [places, count_singleton] <;> omega
  · rfl

theorem defunct_ok : IdsOk ⟨(defunct s.conn).1, s.handed⟩ := by
  rcases defunct_cases s.conn with hd | hd <;> rw [hd]
  · exact h
  apply idsOk_of_places_le h
  · simp only [places, keys_empty, count_nil]
    omega
  · rfl

theorem errorAllRequests_ok : IdsOk ⟨(errorAllRequests s.conn).1, s.handed⟩ := by
  apply idsOk_of_places_le h
  · simp only [places, errorAllRequests, keys_empty, count_nil]
    omega
  · rfl

theorem close_ok : IdsOk ⟨(close s.conn).1, s.handed⟩ := by
  have hc : IdsOk (κ := κ) ⟨{ s.conn with isClosed := true }, s.handed⟩ := ⟨h.once, h.range, h.highest⟩
  unfold close
  split
  · exact h
  simp only
  split
  · exact hc
  · exact errorAllRequests_ok hc

theorem IdsOk.not_registered (hid : id ∈ s.handed) : id ∉ s.conn.requests.keys := by
  intro hk
  have h1 := h.once id
  have h2 := count_pos_iff.mpr hk
  have h3 := count_pos_iff.mpr hid
  simp only [places] at h1
  omega

theorem sendMsg_ok (id : Int) (cb : κ) (hid : id ∈ s.handed) :
    IdsOk ⟨{ s.conn with requests := s.conn.requests.set id cb }, s.handed.erase id⟩ := by
  have hf := h.not_registered hid
  apply idsOk_of_places_le h
  · intro i
    have he : (s.handed.erase id).count i + (if i = id then 1 else 0) = s.handed.count i := by
      rw [count_erase]
      by_cases hi : i = id
      · have := count_pos_iff.mpr hid
        simp only [hi, beq_self_eq_true, if_true]
        omega
      · simp [hi, Ne.symm hi]
    simp only [places, keys_set_of_not_mem _ _ _ hf, count_append, count_singleton]
    omega
  · rfl

end

theorem idStep_ok (d : Decoding κ ε ρ) (s : Ids κ) (a : IdAct κ) (h : IdsOk s) : IdsOk (idStep d s a) := by
  cases a with
  | getRequestId =>
    simp only [idStep]
    split
    · exact h
    rename_i hg
    exact getRequestId_ok h hg
  | sendMsg id cb fault =>
    simp only [idStep]
    split
    · rename_i hid
      rcases sendMsg_cases s.conn id cb fault with ⟨hs, -⟩ | ⟨hs, -⟩
      · rw [hs]; exact h
      rw [hs]
      cases fault <;> exact sendMsg_ok h id cb hid
    · exact h
  | processMsg fr =>
    have hp : IdsOk ⟨(processMsg d s.conn fr).1, s.handed⟩ := by
      rcases processMsg_cases d s.conn fr with he | ⟨cb, ht⟩
      · rw [he]; exact h
      · exact takeRequest_ok h ht
    simp only [idStep]
    split
    · exact defunct_ok hp
    · exact hp
  | onTimeout id po =>
    simp only [idStep]
    split
    · exact h
    rename_i conn ht
    exact timeoutRequest_ok h ht
  | errorAllRequests => exact errorAllRequests_ok h
  | close => exact close_ok h
  | defunct => exact defunct_ok h

/-- **Stream-id uniqueness.** No id is in two places, and all are in range. -/
theorem stream_ids_unique (d : Decoding κ ε ρ) (protocolVersion maxInFlight : Nat)
    (h : 1 ≤ maxInFlight) (acts : List (IdAct κ)) : let s := run (idStep d) (Ids.init protocolVersion maxInFlight) acts
    s.conn.requestIds.Nodup ∧ (∀ i ∈ s.conn.requestIds, i ∉ s.conn.requests.keys) ∧
      (∀ i ∈ s.handed, i ∉ s.conn.requestIds ∧ i ∉ s.conn.requests.keys) ∧ (s.conn.requests.keys ++ s.handed).Nodup ∧
      ∀ i, i ∈ s.conn.requestIds ∨ i ∈ s.conn.requests.keys ∨ i ∈ s.handed → 0 ≤ i ∧ i ≤ s.conn.highestRequestId := by
  intro s
  have hok : IdsOk s := run_invariant_all (idStep_ok d) acts (ids_init_ok _ _ h)
  have ho := hok.once
  simp only [places] at ho
  refine ⟨?_, ?_, ?_, ?_, ?_⟩
  · rw [nodup_iff_count_le_one]
    intro i
    have := ho i
    omega
  · intro i hi hk
    have := ho i
    have := count_pos_iff.mpr hi
    have := count_pos_iff.mpr hk
    omega
  · intro i hi
    have h1 := ho i
    have h2 := count_pos_iff.mpr hi
    refine ⟨fun hf => ?_, fun hk => ?_⟩
    · have := count_pos_iff.mpr hf
      omega
    have := count_pos_iff.mpr hk
    omega
  · rw [nodup_iff_count_le_one]
    intro i
    have := ho i
    rw [count_append]
    omega
  · rintro i (hi | hi | hi) <;> apply hok.range <;> have := count_pos_iff.mpr hi <;> simp only [places] <;> omega

theorem stream_ids_unique_reuse :
    let s := run (idStep bodyDecoding) (Ids.init 2 1 : Ids Nat)
      [.getRequestId, .sendMsg 0 0 false, .onTimeout 0 true, .getRequestId, .getRequestId,
        .processMsg ⟨2, 0, 0, 8, []⟩]
    s.handed = [0, 1] ∧ (s.conn.requests.keys ++ s.handed).Nodup :=
  ⟨by decide, (stream_ids_unique bodyDecoding 2 1 (by decide) _).2.2.2.1⟩

end CqlDriver.Conn
