import CqlDriver.Connection.Basic

/-!
# Borrowing a connection

What `borrow_connection`, `_query` and `return_connection` do to the one connection they work on. A
borrow that would have to wait for a free id gives up here: to be woken up is to borrow later on.
-/

namespace CqlDriver.Conn

variable {κ : Type}

inductive PoolKind
  | hostConnection
  | hostConnectionPool
  deriving DecidableEq

def hasRoom (kind : PoolKind) (c : Connection κ) : Bool :=
  match kind with
  | .hostConnection => c.inFlight ≤ c.maxRequestId
  | .hostConnectionPool => c.inFlight < c.maxRequestId

inductive Borrowed (κ : Type)
  | full
  /-- The assertion of `get_request_id` failed, when `in_flight` was already counted up. -/
  | exhausted (c : Connection κ)
  | ok (requestId : Int) (c : Connection κ)

def borrow (kind : PoolKind) (c : Connection κ) : Borrowed κ :=
  if hasRoom kind c then
    let c := { c with inFlight := c.inFlight + 1 }
    match getRequestId c with
    | none => .exhausted c
    | some (requestId, c) => .ok requestId c
  else .full

def giveBack (c : Connection κ) : Connection κ := { c with inFlight := c.inFlight - 1 }

inductive Queried
  | full
  | exhausted
  | sent (requestId : Int)
  | failed (result : SendResult)
  deriving DecidableEq

def queryOn (kind : PoolKind) (c : Connection κ) (cb : κ) (fault : Bool) : Connection κ × Queried :=
  match borrow kind c with
  | .full => (c, .full)
  | .exhausted c => (c, .exhausted)
  | .ok requestId c =>
    match sendMsg c requestId cb fault with
    | (c, .sent) => (c, .sent requestId)
    | (c, result) => (c, .failed result)

/-! ## What they do -/

theorem borrow_cases (kind : PoolKind) (c : Connection κ) : borrow kind c = .full ∧ hasRoom kind c = false ∨
      borrow kind c = .exhausted { c with inFlight := c.inFlight + 1 } ∧ hasRoom kind c ∧ getRequestId c = none ∨
      ∃ rid c', borrow kind c = .ok rid { c' with inFlight := c.inFlight + 1 } ∧
        hasRoom kind c ∧ getRequestId c = some (rid, c') := by
  unfold borrow
  cases hr : hasRoom kind c with
  | false => simp
  | true =>
    unfold getRequestId
    cases c.requestIds with
    | cons id rest => simp
    | nil =>
      by_cases hmax : c.highestRequestId + 1 ≤ c.maxRequestId
      · simp [hmax]
      · simp [hmax]

theorem queryOn_cases (kind : PoolKind) (c : Connection κ) (cb : κ) (fault : Bool) :
    queryOn kind c cb fault = (c, .full) ∧ hasRoom kind c = false ∨
      queryOn kind c cb fault = ({ c with inFlight := c.inFlight + 1 }, .exhausted) ∧ hasRoom kind c ∧
        getRequestId c = none ∨ ∃ rid c', hasRoom kind c ∧ getRequestId c = some (rid, c') ∧
        (queryOn kind c cb fault = ({ c' with inFlight := c.inFlight + 1 }, .failed .shutdown) ∧
            (c.isDefunct ∨ c.isClosed) ∨ queryOn kind c cb fault = ({ c' with
              inFlight := c.inFlight + 1, requests := c'.requests.set rid cb },
            if fault then .failed .raised else .sent rid) ∧ c.isDefunct = false ∧ c.isClosed = false) := by
  unfold queryOn
  rcases borrow_cases kind c with ⟨hb, hr⟩ | ⟨hb, hr, hid⟩ | ⟨rid, c', hb, hr, hid⟩
  · exact .inl ⟨by rw [hb], hr⟩
  · exact .inr (.inl ⟨by rw [hb], hr, hid⟩)
  refine .inr (.inr ⟨rid, c', hr, hid, ?_⟩)
  have hf : c'.isDefunct = c.isDefunct ∧ c'.isClosed = c.isClosed := by
    rcases getRequestId_cases hid with ⟨rest, -, rfl⟩ | ⟨-, -, -, rfl⟩ <;> exact ⟨rfl, rfl⟩
  rw [hb, ← hf.1, ← hf.2]
  rcases sendMsg_cases { c' with inFlight := c.inFlight + 1 } rid cb fault with ⟨hs, hd⟩ | ⟨hs, ho⟩
  · left
    simp only [hs]
    exact ⟨trivial, hd⟩
  right
  simp only [hs]
  refine ⟨?_, ho⟩
  cases fault <;> rfl

end CqlDriver.Conn
