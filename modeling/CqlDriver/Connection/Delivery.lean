import CqlDriver.Connection.Streams

/-!
# Which answer reaches which callback

Requests are numbered by their `send_msg` call. The server answers each request at most once, at any
time and in any order, on its stream id. The number travels with the frame; the driver never reads
it.
-/

namespace CqlDriver.Conn

open Lib List

variable {ε ρ : Type}

structure Delivered (ρ : Type) where
  callback : Nat
  answered : Nat
  response : ρ
  deriving DecidableEq

structure Link (ρ : Type) where
  conn : Connection Nat
  sent : List Int
  server : List (Nat × Int)
  wire : List (Nat × Frame)
  delivered : List (Delivered ρ)

inductive LinkAct
  | request (fault : Bool)
  | answer (index version flags opcode : Nat) (body : List UInt8)
  | arrive
  | timeout (number : Nat) (poolOpen : Bool)

def Link.init (protocolVersion maxInFlight : Nat) : Link ρ :=
  ⟨Connection.init protocolVersion maxInFlight, [], [], [], []⟩

def Handled.deliveredTo : Handled Nat ε ρ → Option (Nat × ρ)
  | .callback cb response | .protocolError cb response => some (cb, response)
  | .ignored | .pushed _ | .pushFailed _ | .undecodable _ _ => none

def linkStep (d : Decoding Nat ε ρ) (s : Link ρ) : LinkAct → Link ρ
  | .request fault =>
    match getRequestId s.conn with
    | none => s
    | some (id, conn) =>
      let number := s.sent.length
      match sendMsg conn id number fault with
      | (conn, .sent) => { s with conn, sent := s.sent ++ [id], server := s.server ++ [(number, id)] }
      | (conn, .raised) | (conn, .shutdown) => { s with conn, sent := s.sent ++ [id] }
  | .answer index version flags opcode body =>
    match s.server[index]? with
    | none => s
    | some (number, stream) =>
      { s with
        server := s.server.eraseIdx index
        wire := s.wire ++ [(number, { version, flags, stream, opcode, body })] }
  | .arrive =>
    match s.wire with
    | [] => s
    | (answered, frame) :: wire =>
      let (conn, handled) := processMsg d s.conn frame
      let conn := if handled.defuncts then (defunct conn).1 else conn
      match handled.deliveredTo with
      | none => { s with conn, wire }
      | some (callback, response) =>
        { s with conn, wire, delivered := s.delivered ++ [{ callback, answered, response }] }
  | .timeout number poolOpen =>
    match s.sent[number]? with
    | none => s
    | some reqId =>
      match timeoutRequest s.conn reqId poolOpen with
      | none => s
      | some conn => { s with conn }

/-- The requests with an answer owed or on the wire. -/
def owed (s : Link ρ) : List (Nat × Int) := s.server ++ s.wire.map fun p => (p.1, p.2.stream)

def nextRequestId (c : Connection Nat) : Int := c.requestIds.headD (c.highestRequestId + 1)

/-- No request goes out on an id with an answer owed. -/
def NoLateReuse (s : Link ρ) : LinkAct → Prop
  | .request _ => ∀ p ∈ owed s, p.2 ≠ nextRequestId s.conn
  | .answer .. | .arrive | .timeout .. => True

instance (s : Link ρ) : (a : LinkAct) → Decidable (NoLateReuse s a)
  | .request _ => inferInstanceAs (Decidable (∀ p ∈ owed s, p.2 ≠ nextRequestId s.conn))
  | .answer .. | .arrive | .timeout .. => isTrue trivial

def Paired (c : Connection Nat) (owed : List (Nat × Int)) : Prop :=
  ∀ p ∈ owed, ∀ number, c.requests.get? p.2 = some number → number = p.1

def AllPaired (s : Link ρ) : Prop :=
  Paired s.conn (owed s) ∧ ∀ x ∈ s.delivered, x.callback = x.answered

variable {c c' : Connection Nat} {i : Int} {n : Nat} {d : Decoding Nat ε ρ} {fr : Frame} {s : Link ρ}

theorem getRequestId_next {id : Int} (h : getRequestId c = some (id, c')) :
    id = nextRequestId c ∧ c'.requests = c.requests := by
  rcases getRequestId_cases h with ⟨rest, hids, rfl⟩ | ⟨hids, hid, -, rfl⟩
  · simp [nextRequestId, hids]
  · simp [nextRequestId, hids, hid]

theorem paired_mono {owed owed' : List (Nat × Int)} (h : Paired c owed)
    (hc : ∀ i n, c'.requests.get? i = some n → c.requests.get? i = some n) (ho : ∀ p ∈ owed', p ∈ owed) :
    Paired c' owed' := by
  intro p hp number hn
  exact h p (ho p hp) number (hc _ _ hn)

theorem get?_erase_sub {r : Dict Int Nat} {j : Int} (h : (r.erase j).get? i = some n) : r.get? i = some n := by
  rw [Dict.get?_erase] at h
  split at h
  · simp at h
  · exact h

theorem defunct_get?_sub (h : (defunct c).1.requests.get? i = some n) : c.requests.get? i = some n := by
  rcases defunct_cases c with hd | hd <;> rw [hd] at h
  · exact h
  · simp at h

theorem processMsg_get?_sub (h : (processMsg d c fr).1.requests.get? i = some n) : c.requests.get? i = some n := by
  rcases processMsg_cases d c fr with he | ⟨cb, ht⟩
  · rwa [he] at h
  rw [(takeRequest_eq_some ht).2] at h
  exact get?_erase_sub h

theorem deliveredTo_registered {cb : Nat} {resp : ρ}
    (h : (processMsg d c fr).2.deliveredTo = some (cb, resp)) : c.requests.get? fr.stream = some cb := by
  unfold processMsg at h
  split at h
  · split at h <;> simp [Handled.deliveredTo] at h
  split at h
  · simp [Handled.deliveredTo] at h
  rename_i cb' c' ht
  have hget := (takeRequest_eq_some ht).1
  split at h
  · simp [Handled.deliveredTo] at h
  · split at h <;> simp only [Handled.deliveredTo, Option.some.injEq, Prod.mk.injEq] at h <;> rw [hget, h.1]

section

variable (d : Decoding Nat ε ρ)

theorem request_paired (fault : Bool) (h : AllPaired s)
    (hf : NoLateReuse s (.request fault)) : AllPaired (linkStep d s (.request fault)) := by
  obtain ⟨hp, hd⟩ := h
  simp only [linkStep]
  split
  · exact ⟨hp, hd⟩
  rename_i id conn hg
  obtain ⟨hid, hreq⟩ := getRequestId_next hg
  -- Registering the new request under `id` disturbs no owed answer, since none is owed on `id`.
  have hset : Paired { conn with requests := conn.requests.set id s.sent.length } (owed s) := by
    intro p hpo number hn
    have hne : p.2 ≠ id := by rw [hid]; exact hf p hpo
    simp only [Dict.get?_set, if_neg hne, hreq] at hn
    exact hp p hpo number hn
  rcases sendMsg_cases conn id s.sent.length fault with ⟨hs, -⟩ | ⟨hs, -⟩
  · rw [hs]
    refine ⟨?_, hd⟩
    exact paired_mono hp (fun i n hn => by rwa [hreq] at hn) (fun p hp => hp)
  rw [hs]
  cases fault with
  | true => exact ⟨hset, hd⟩
  | false =>
    refine ⟨?_, hd⟩
    intro p hpo number hn
    simp only [Bool.false_eq_true, if_false] at hpo
    simp only [owed, append_assoc, mem_append, mem_singleton] at hpo
    rcases hpo with hpo | rfl | hpo
    · exact hset p (mem_append_left _ hpo) number hn
    · simpa [eq_comm] using hn
    · exact hset p (mem_append_right _ hpo) number hn

theorem answer_paired (idx ver flags opcode : Nat) (body : List UInt8) (h : AllPaired s) :
    AllPaired (linkStep d s (.answer idx ver flags opcode body)) := by
  simp only [linkStep]
  split
  · exact h
  rename_i number sid hs
  refine ⟨paired_mono h.1 (fun _ _ hn => hn) ?_, h.2⟩
  intro p hp
  simp only [owed, map_append, map_cons, map_nil, mem_append, mem_singleton] at hp ⊢
  rcases hp with hp | hp | rfl
  · exact Or.inl (mem_of_mem_eraseIdx hp)
  · exact Or.inr hp
  · exact Or.inl (mem_of_getElem? hs)

theorem arrive_paired (h : AllPaired s) : AllPaired (linkStep d s .arrive) := by
  obtain ⟨hp, hd⟩ := h
  simp only [linkStep]
  split
  · exact ⟨hp, hd⟩
  rename_i answered fr wire hw
  have ho : ∀ p ∈ owed { s with wire := wire }, p ∈ owed s := by
    intro p hpo
    simp only [owed, hw, mem_append] at hpo ⊢
    tauto
  have hc : ∀ i n, (if (processMsg d s.conn fr).2.defuncts then (defunct (processMsg d s.conn fr).1).1
      else (processMsg d s.conn fr).1).requests.get? i = some n → s.conn.requests.get? i = some n := by
    intro i n hn
    split at hn
    · exact processMsg_get?_sub (defunct_get?_sub hn)
    · exact processMsg_get?_sub hn
  split
  · exact ⟨paired_mono hp hc ho, hd⟩
  rename_i cb resp hto
  refine ⟨paired_mono hp hc ho, ?_⟩
  intro x hx
  rw [mem_append, mem_singleton] at hx
  rcases hx with hx | rfl
  · exact hd x hx
  -- The frame was owed to `answered`, so the callback under its stream id is that one.
  have hmem : (answered, fr.stream) ∈ owed s := by simp [owed, hw]
  exact hp _ hmem cb (deliveredTo_registered hto)

theorem timeout_paired (number : Nat) (po : Bool) (h : AllPaired s) :
    AllPaired (linkStep d s (.timeout number po)) := by
  simp only [linkStep]
  split
  · exact h
  split
  · exact h
  rename_i conn ht
  obtain ⟨-, rfl⟩ := timeoutRequest_eq_some ht
  exact ⟨paired_mono h.1 (fun _ _ hn => get?_erase_sub hn) (fun p hp => hp), h.2⟩

theorem linkStep_paired (s : Link ρ) (a : LinkAct) (h : AllPaired s)
    (ha : NoLateReuse s a) : AllPaired (linkStep d s a) := by
  cases a with
  | request fault => exact request_paired d fault h ha
  | answer idx ver flags opcode body => exact answer_paired d idx ver flags opcode body h
  | arrive => exact arrive_paired d h
  | timeout number po => exact timeout_paired d number po h

end

/-- **Response delivery.** Without such reuse each callback gets its own answer. -/
theorem responses_reach_their_callbacks (d : Decoding Nat ε ρ) (protocolVersion maxInFlight : Nat) (acts : List LinkAct)
    (h : RunOk (linkStep d) NoLateReuse (Link.init protocolVersion maxInFlight) acts) :
    ∀ x ∈ (run (linkStep d) (Link.init protocolVersion maxInFlight) acts).delivered, x.callback = x.answered := by
  have hi : AllPaired (Link.init protocolVersion maxInFlight : Link ρ) := by
    refine ⟨?_, by simp [Link.init]⟩
    intro p hp
    simp [Link.init, owed] at hp
  exact (run_invariant (linkStep_paired d) hi h).2

theorem responses_reach_their_callbacks_late :
    let acts : List LinkAct := [.request false, .timeout 0 true, .request false,
      .answer 0 4 0 8 [1], .arrive, .answer 0 4 0 8 [2], .arrive]
    let s := run (linkStep bodyDecoding) (Link.init 4 2) acts
    s.delivered.length = 1 ∧ ∀ x ∈ s.delivered, x.callback = x.answered :=
  ⟨by decide, responses_reach_their_callbacks bodyDecoding 4 2 _ (by decide)⟩

/-- With one stream id, the request after a timeout gets the late answer. -/
theorem late_answer_reaches_next_request : ¬ ∀ (acts : List LinkAct),
      ∀ x ∈ (run (linkStep bodyDecoding) (Link.init 4 1) acts).delivered, x.callback = x.answered := by
  intro h
  have := h [.request false, .timeout 0 true, .request false, .answer 0 4 0 8 [1], .arrive] ⟨1, 0, [1]⟩ (by decide)
  simp at this

end CqlDriver.Conn
