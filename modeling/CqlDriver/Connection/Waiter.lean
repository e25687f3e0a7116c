import CqlDriver.Connection.Streams

/-!
# Waiting for several responses

`Connection.wait_for_responses` with its `ResponseWaiter`. A step is what one thread does while it
holds the lock or between two such points, so the threads interleave freely. Left out: an answer that
is a `ProtocolException` also makes `process_msg` call `defunct`.
-/

namespace CqlDriver.Wait

open Lib Conn

/-- The message at an index, or another user. -/
inductive Caller where
  | own (index : Nat)
  | other
deriving DecidableEq

inductive Answer (ρ ε : Type) where
  | result (response : ρ)
  | error (exc : ε)

inductive Stored (ρ ε : Type) where
  | pair (success : Bool) (response : ρ ⊕ ε)
  | response (response : ρ)

variable {M ρ ε κ : Type}

structure ResponseWaiter (ρ ε : Type) where
  pending : Int
  failOnError : Bool
  error : Option ε
  responses : List (Option (Stored ρ ε))
  event : Bool

def ResponseWaiter.init (numResponses : Nat) (failOnError : Bool) : ResponseWaiter ρ ε :=
  ⟨numResponses, failOnError, none, List.replicate numResponses none, false⟩

def ResponseWaiter.store (w : ResponseWaiter ρ ε) (toException : ε → ε) (index : Nat) :
    Answer ρ ε → ResponseWaiter ρ ε
  | .error exc =>
    if w.failOnError then { w with error := some (toException exc), event := true }
    else { w with responses := w.responses.set index (some (.pair false (.inr (toException exc)))) }
  | .result response =>
    if w.failOnError then { w with responses := w.responses.set index (some (.response response)) }
    else { w with responses := w.responses.set index (some (.pair true (.inl response))) }

def ResponseWaiter.gotResponse (w : ResponseWaiter ρ ε) (toException : ε → ε) (index : Nat)
    (answer : Answer ρ ε) : ResponseWaiter ρ ε :=
  let w := w.store toException index answer
  let w := { w with pending := w.pending - 1 }
  if w.pending = 0 then { w with event := true } else w

/-- `none` while it waits for the event. -/
def ResponseWaiter.deliver (w : ResponseWaiter ρ ε) : Option (Except ε (List (Option (Stored ρ ε)))) :=
  if w.event then
    match w.error with
    | some exc => some (.error exc)
    | none => some (.ok w.responses)
  else none

/-- `toException` is `to_exception` where an error has it. -/
structure Call (M ρ ε : Type) where
  msgs : List M
  failOnError : Bool
  answer : Caller → Answer ρ ε
  toException : ε → ε

inductive Main (ρ ε : Type) where
  | reserving (messagesSent : Nat)
  /-- The next message, with the ids that are left. -/
  | sending (next : Nat) (requestIds : List Int)
  | delivering
  | returned (responses : List (Option (Stored ρ ε)))
  | raised

inductive Reader (ρ ε : Type) where
  | idle
  | popped (stream : Int) (cb : Caller) (answer : Answer ρ ε)
  | released (cb : Caller) (answer : Answer ρ ε)
  | counted (index : Nat) (answer : Answer ρ ε)

structure State (M ρ ε : Type) where
  conn : Connection Caller
  main : Main ρ ε
  reader : Reader ρ ε
  waiter : ResponseWaiter ρ ε
  /-- The requests the server has not answered, with their stream ids. -/
  wire : List (Int × Caller)
  pushed : List M

inductive Step where
  | main
  | answer (pos : Nat)
  | reader

def getRequestIds : Nat → Connection κ → Option (List Int × Connection κ)
  | 0, conn => some ([], conn)
  | n + 1, conn =>
    match getRequestId conn with
    | none => none
    | some (id, conn) => (getRequestIds n conn).map fun (ids, conn) => (id :: ids, conn)

def reserve (needed : Int) (conn : Connection κ) : Option (List Int × Connection κ) :=
  let available := min needed (conn.maxRequestId - conn.inFlight + 1)
  (getRequestIds available.toNat conn).map fun (ids, conn) =>
    (ids, { conn with inFlight := conn.inFlight + available })

def continueWith (call : Call M ρ ε) (next : Nat) : List Int → Main ρ ε
  | [] => if next = call.msgs.length then .delivering else .reserving next
  | id :: ids => .sending next (id :: ids)

def mainStep (call : Call M ρ ε) (s : State M ρ ε) : State M ρ ε :=
  match s.main with
  | .reserving messagesSent =>
    match reserve (call.msgs.length - messagesSent) s.conn with
    | none => { s with main := .raised }
    | some (ids, conn) => { s with conn, main := continueWith call messagesSent ids }
  | .sending next [] => { s with main := continueWith call next [] }
  | .sending next (id :: ids) =>
    match call.msgs[next]? with
    | none => { s with main := .raised }
    | some msg =>
      match sendMsg s.conn id (.own next) false with
      | (conn, .sent) =>
        { s with
          conn
          wire := s.wire ++ [(id, .own next)]
          pushed := s.pushed ++ [msg]
          main := continueWith call (next + 1) ids }
      | (conn, _) => { s with conn, main := .raised }
  | .delivering =>
    match s.waiter.deliver with
    | none => s
    | some (.ok responses) => { s with main := .returned responses }
    | some (.error _) => { s with main := .raised }
  | .returned _ => s
  | .raised => s

def answerStep (call : Call M ρ ε) (s : State M ρ ε) (pos : Nat) : State M ρ ε :=
  match s.reader, s.wire[pos]? with
  | .idle, some (stream, caller) =>
    match s.conn.requests.pop stream with
    | none => { s with wire := s.wire.eraseIdx pos }
    | some (cb, requests) =>
      { s with
        conn := { s.conn with requests }
        wire := s.wire.eraseIdx pos
        reader := .popped stream cb (call.answer caller) }
  | _, _ => s

def afterCount : Caller → Answer ρ ε → Reader ρ ε
  | .own index, answer => .counted index answer
  | .other, _ => .idle

def readerStep (call : Call M ρ ε) (s : State M ρ ε) : State M ρ ε :=
  match s.reader with
  | .idle => s
  | .popped stream cb answer =>
    { s with
      conn := { s.conn with requestIds := s.conn.requestIds ++ [stream] }
      reader := .released cb answer }
  | .released cb answer =>
    { s with
      conn := { s.conn with inFlight := s.conn.inFlight - 1 }
      reader := afterCount cb answer }
  | .counted index answer =>
    { s with
      waiter := s.waiter.gotResponse call.toException index answer
      reader := .idle }

def step (call : Call M ρ ε) (s : State M ρ ε) : Step → State M ρ ε
  | .main => mainStep call s
  | .answer pos => answerStep call s pos
  | .reader => readerStep call s

def State.start (call : Call M ρ ε) (conn : Connection Caller) : State M ρ ε where
  conn
  main := if conn.isClosed || conn.isDefunct then .raised else .reserving 0
  reader := .idle
  waiter := .init call.msgs.length call.failOnError
  wire := conn.requests.entries
  pushed := []

def stateAt (call : Call M ρ ε) (conn : Connection Caller) (steps : Nat → Step) : Nat → State M ρ ε
  | 0 => .start call conn
  | n + 1 => step call (stateAt call conn steps n) (steps n)

end CqlDriver.Wait
