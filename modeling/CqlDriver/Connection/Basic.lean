import CqlDriver.Lib.Dict
import CqlDriver.Lib.Run
import Mathlib.Algebra.Group.Int.Defs
import Mathlib.Algebra.Group.Nat.Defs

/-!
# One connection: stream ids and the request table

Stream ids, the requests registered under them and the frames that arrive. `κ` is what `send_msg`
queues with a request.
-/

namespace CqlDriver.Conn

open Lib

structure Connection (κ : Type) where
  protocolVersion : Nat
  maxRequestId : Int
  requestIds : List Int
  highestRequestId : Int
  inFlight : Int
  requests : Dict Int κ
  isDefunct : Bool
  isClosed : Bool
  signaledError : Bool
  keyspace : Option String

variable {κ ε ρ : Type}

def idRange (n : Nat) : List Int := (List.range n).map Int.ofNat

def Connection.init (protocolVersion maxInFlight : Nat) : Connection κ :=
  if protocolVersion ≥ 3 then
    let initialSize := min 300 maxInFlight
    { protocolVersion, maxRequestId := min (maxInFlight - 1 : Int) (2 ^ 15 - 1),
      requestIds := idRange initialSize, highestRequestId := (initialSize : Int) - 1,
      inFlight := 0, requests := Dict.empty, isDefunct := false, isClosed := false,
      signaledError := false, keyspace := none }
  else
    let maxRequestId := min maxInFlight (2 ^ 7 - 1)
    { protocolVersion, maxRequestId, requestIds := idRange (maxRequestId + 1),
      highestRequestId := maxRequestId, inFlight := 0, requests := Dict.empty,
      isDefunct := false, isClosed := false, signaledError := false, keyspace := none }

/-- `none` is the failed assertion. -/
def getRequestId (c : Connection κ) : Option (Int × Connection κ) :=
  match c.requestIds with
  | id :: rest => some (id, { c with requestIds := rest })
  | [] =>
    let newRequestId := c.highestRequestId + 1
    if newRequestId ≤ c.maxRequestId then
      some (newRequestId, { c with highestRequestId := newRequestId })
    else none

inductive SendResult
  | sent
  | shutdown
  | raised
  deriving DecidableEq

/-- `fault`: the encoder or `push` raises for this message. -/
def sendMsg (c : Connection κ) (requestId : Int) (cb : κ) (fault : Bool) :
    Connection κ × SendResult :=
  if c.isDefunct then (c, .shutdown)
  else if c.isClosed then (c, .shutdown)
  else ({ c with requests := c.requests.set requestId cb }, if fault then .raised else .sent)

/-- The order in which `error_all_requests` calls back: the last request first. -/
def errorOrder (cbs : List κ) : List κ :=
  match cbs.getLast? with
  | none => []
  | some cb => cb :: cbs.dropLast

/-- The callbacks get a `ConnectionShutdown`; their ids stay out. -/
def errorAllRequests (c : Connection κ) : Connection κ × List κ :=
  ({ c with requests := Dict.empty }, errorOrder c.requests.values)

def close (c : Connection κ) : Connection κ × List κ :=
  if c.isClosed then (c, [])
  else
    let c := { c with isClosed := true }
    if c.isDefunct then (c, []) else errorAllRequests c

/-- `close` leaves the requests alone here, since `is_defunct` is already set. -/
def defunct (c : Connection κ) : Connection κ × List κ :=
  if c.isDefunct || c.isClosed then (c, [])
  else errorAllRequests (close { c with isDefunct := true }).1

/-! ## Arriving frames -/

structure Frame where
  version : Nat
  flags : Nat
  stream : Int
  opcode : Nat
  body : List UInt8
  deriving DecidableEq, Repr

inductive Handled (κ ε ρ : Type)
  | ignored
  | pushed (response : ρ)
  | pushFailed (exc : ε)
  | callback (cb : κ) (response : ρ)
  | protocolError (cb : κ) (response : ρ)
  | undecodable (cb : κ) (exc : ε)

def takeRequest (c : Connection κ) (stream : Int) : Option (κ × Connection κ) :=
  (c.requests.pop stream).map fun (cb, rest) =>
    (cb, { c with requests := rest, requestIds := c.requestIds ++ [stream] })

structure Decoding (κ ε ρ : Type) where
  decode : κ → Frame → Except ε ρ
  decodePushed : Frame → Except ε ρ
  isProtocolException : ρ → Bool

def bodyDecoding : Decoding κ Unit (List UInt8) where
  decode _ frame := .ok frame.body
  decodePushed frame := .ok frame.body
  isProtocolException _ := false

/-- `process_msg`, up to the callback and `defunct` that `Handled` names. -/
def processMsg (d : Decoding κ ε ρ) (c : Connection κ) (frame : Frame) :
    Connection κ × Handled κ ε ρ :=
  if frame.stream < 0 then
    match d.decodePushed frame with
    | .ok response => (c, .pushed response)
    | .error exc => (c, .pushFailed exc)
  else
    match takeRequest c frame.stream with
    | none => (c, .ignored)
    | some (cb, c) =>
      match d.decode cb frame with
      | .error exc => (c, .undecodable cb exc)
      | .ok response =>
        if d.isProtocolException response then (c, .protocolError cb response)
        else (c, .callback cb response)

def Handled.defuncts : Handled κ ε ρ → Bool
  | .pushFailed _ | .protocolError _ _ | .undecodable _ _ => true
  | .ignored | .pushed _ | .callback _ _ => false

/-- `_on_timeout` on the connection; `none` is the `KeyError`. -/
def timeoutRequest (c : Connection κ) (reqId : Int) (poolOpen : Bool) : Option (Connection κ) :=
  (c.requests.pop reqId).map fun (_, rest) =>
    let c := { c with requests := rest }
    if poolOpen then { c with requestIds := c.requestIds ++ [reqId] } else c

/-! ## What each operation does to the ids -/

variable {c c' : Connection κ} {id : Int}

theorem getRequestId_cases (h : getRequestId c = some (id, c')) :
    (∃ rest, c.requestIds = id :: rest ∧ c' = { c with requestIds := rest }) ∨
      (c.requestIds = [] ∧ id = c.highestRequestId + 1 ∧ id ≤ c.maxRequestId ∧
        c' = { c with highestRequestId := id }) := by
  unfold getRequestId at h
  split at h
  · rename_i a rest hids
    simp only [Option.some.injEq, Prod.mk.injEq] at h
    left
    exact ⟨rest, by rw [hids, h.1], h.2.symm⟩
  rename_i hids
  simp only at h
  split at h
  · rename_i hle
    right
    obtain ⟨rfl, rfl⟩ := h
    exact ⟨hids, rfl, hle, rfl⟩
  · simp at h

theorem getRequestId_requests (h : getRequestId c = some (id, c')) : c'.requests = c.requests := by
  rcases getRequestId_cases h with ⟨_, -, rfl⟩ | ⟨-, -, -, rfl⟩ <;> rfl

theorem sendMsg_cases (c : Connection κ) (rid : Int) (cb : κ) (fault : Bool) :
    sendMsg c rid cb fault = (c, .shutdown) ∧ (c.isDefunct ∨ c.isClosed) ∨ sendMsg c rid cb fault =
        ({ c with requests := c.requests.set rid cb }, if fault then .raised else .sent) ∧
      c.isDefunct = false ∧ c.isClosed = false := by
  unfold sendMsg
  cases hd : c.isDefunct <;> cases hc : c.isClosed <;> simp

theorem takeRequest_eq_some {sid : Int} {cb : κ} (h : takeRequest c sid = some (cb, c')) :
    c.requests.get? sid = some cb ∧
      c' = { c with requests := c.requests.erase sid, requestIds := c.requestIds ++ [sid] } := by
  simp only [takeRequest, Option.map_eq_some_iff] at h
  obtain ⟨⟨a, d⟩, hp, he⟩ := h
  rw [Dict.pop_eq_some] at hp
  obtain ⟨rfl, rfl⟩ := he
  exact ⟨hp.1, by rw [hp.2]⟩

theorem processMsg_handled (d : Decoding κ ε ρ) (c : Connection κ) (fr : Frame) :
    (processMsg d c fr = (c, .ignored) ∨ (∃ resp, processMsg d c fr = (c, .pushed resp)) ∨
        ∃ exc, processMsg d c fr = (c, .pushFailed exc)) ∨ ∃ cb c', takeRequest c fr.stream = some (cb, c') ∧
        ((∃ resp, processMsg d c fr = (c', .callback cb resp)) ∨
          (∃ resp, processMsg d c fr = (c', .protocolError cb resp)) ∨
          ∃ exc, processMsg d c fr = (c', .undecodable cb exc)) := by
  unfold processMsg
  split
  · left
    split
    · exact .inr (.inl ⟨_, rfl⟩)
    · exact .inr (.inr ⟨_, rfl⟩)
  split
  · exact .inl (.inl rfl)
  rename_i cb c' hc
  refine .inr ⟨cb, c', hc, ?_⟩
  split
  · exact .inr (.inr ⟨_, rfl⟩)
  split
  · exact .inr (.inl ⟨_, rfl⟩)
  · exact .inl ⟨_, rfl⟩

theorem processMsg_cases (d : Decoding κ ε ρ) (c : Connection κ) (fr : Frame) : (processMsg d c fr).1 = c ∨
      ∃ cb, takeRequest c fr.stream = some (cb, (processMsg d c fr).1) := by
  rcases processMsg_handled d c fr with (h | ⟨_, h⟩ | ⟨_, h⟩) | ⟨cb, c', hc, ⟨_, h⟩ | ⟨_, h⟩ | ⟨_, h⟩⟩ <;> rw [h]
  iterate 3 exact .inl rfl
  iterate 3 exact .inr ⟨cb, hc⟩

theorem timeoutRequest_eq_some {reqId : Int} {po : Bool} (h : timeoutRequest c reqId po = some c') :
    reqId ∈ c.requests.keys ∧ c' = { c with
        requests := c.requests.erase reqId
        requestIds := if po then c.requestIds ++ [reqId] else c.requestIds } := by
  simp only [timeoutRequest, Option.map_eq_some_iff] at h
  obtain ⟨⟨a, d⟩, hp, he⟩ := h
  rw [Dict.pop_eq_some] at hp
  obtain ⟨hget, rfl⟩ := hp
  refine ⟨Dict.mem_keys_of_get? hget, ?_⟩
  rw [← he]
  cases po <;> rfl

theorem defunct_cases (c : Connection κ) : (defunct c).1 = c ∨
      (defunct c).1 = { c with requests := Dict.empty, isDefunct := true, isClosed := true } := by
  unfold defunct
  split
  · left; rfl
  rename_i hc
  simp only [Bool.or_eq_true, not_or] at hc
  simp [close, errorAllRequests, hc.2]

end CqlDriver.Conn
