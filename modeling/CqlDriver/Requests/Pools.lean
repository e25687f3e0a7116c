import CqlDriver.Requests.Basic
import CqlDriver.Connection.Streams

/-! # The pools of a session -/

namespace CqlDriver.Requests

open Lib Conn

namespace Session

def modFuture (s : Session) (f : FutureId) (g : ResponseFuture → ResponseFuture) : Session :=
  { s with futures := s.futures.modify f g }

def modPool (s : Session) (p : PoolId) (g : Pool → Pool) : Session := { s with pools := s.pools.modify p g }

def modConn (s : Session) (c : ConnId) (g : Connection Callback → Connection Callback) : Session :=
  { s with conns := s.conns.modify c g }

/-- `session.submit`, and every call into another handler. -/
def submit (s : Session) (call : Call) : Session := { s with calls := s.calls ++ [call] }

def stopConn (stop : Connection Callback → Connection Callback × List Callback) (s : Session) (c : ConnId) :
    Session :=
  match s.conns[c]? with
  | none => s
  | some conn =>
    { s with
      conns := s.conns.set c (stop conn).1
      calls := s.calls ++ (stop conn).2.map (Call.callback · .connectionShutdown) }

def closeConn (s : Session) (c : ConnId) : Session := s.stopConn close c

def defunctConn (s : Session) (c : ConnId) : Session := s.stopConn defunct c

def addConn (s : Session) : Session :=
  { s with conns := s.conns ++ [Connection.init s.protocolVersion s.maxInFlight] }

def shutdownPool (s : Session) (p : PoolId) : Session :=
  match s.pools[p]? with
  | none => s
  | some pool =>
    if pool.isShutdown then s
    else
      let s := s.modPool p fun pool => { pool with isShutdown := true }
      match pool.kind with
      | .hostConnection =>
        (pool.connections.foldl closeConn s).modPool p fun pool => { pool with connections := [] }
      | .hostConnectionPool =>
        let s := (pool.connections.foldl closeConn s).modPool p fun pool' =>
          { pool' with openCount := pool'.openCount - pool.connections.length }
        pool.trash.foldl closeConn s

/-! ## Return -/

def returnHostConnection (o : Oracle) (s : Session) (p : PoolId) (pool : Pool) (c : ConnId)
    (conn : Connection Callback) : Session :=
  if conn.isDefunct || conn.isClosed then
    if conn.signaledError && !pool.shutdownOnError then s
    else
      let isDown := !conn.signaledError && o.isDown
      let s := s.modConn c fun conn => { conn with signaledError := true }
      if isDown || pool.shutdownOnError then s.shutdownPool p
      else
        let s := s.modPool p fun pool => { pool with connections := [] }
        if pool.isReplacing then s
        else (s.modPool p fun pool => { pool with isReplacing := true }).submit (.replace p)
  else s

def replaceConn (s : Session) (p : PoolId) (pool : Pool) (c : ConnId) : Session :=
  if c ∈ pool.connections then
    let s := s.modPool p fun pool =>
      { pool with connections := pool.connections.erase c, openCount := pool.openCount - 1 }
    (s.closeConn c).submit (.replace p)
  else s.closeConn c

def maybeTrashConnection (s : Session) (p : PoolId) (pool : Pool) (c : ConnId) (conn : Connection Callback) :
    Session :=
  if c ∈ pool.connections ∧ pool.openCount > pool.coreConns then
    let s := s.modPool p fun pool =>
      { pool with connections := pool.connections.erase c, openCount := pool.openCount - 1 }
    if conn.inFlight = 0 then s.closeConn c
    else s.modPool p fun pool => { pool with trash := pool.trash ++ [c] }
  else s

def returnToPool (o : Oracle) (s : Session) (p : PoolId) (pool : Pool) (c : ConnId)
    (conn : Connection Callback) : Session :=
  if conn.isDefunct || conn.isClosed then
    if conn.signaledError then s
    else
      let s := s.modConn c fun conn => { conn with signaledError := true }
      if o.isDown then s.shutdownPool p else s.replaceConn p pool c
  else if c ∈ pool.trash then
    if conn.inFlight = 0 then
      (s.modPool p fun pool => { pool with trash := pool.trash.erase c }).closeConn c
    else s
  else if pool.connections.length > pool.coreConns ∧ conn.inFlight ≤ pool.minReqs ∧ o.trashAllowed then
    s.maybeTrashConnection p pool c conn
  else s

def returnConnection (o : Oracle) (s : Session) (f : FutureId) (p : PoolId) (c : ConnId) : Session :=
  let s := { s.modConn c giveBack with returned := (f, c) :: s.returned }
  match s.pools[p]?, s.conns[c]? with
  | some pool, some conn =>
    match pool.kind with
    | .hostConnection => s.returnHostConnection o p pool c conn
    | .hostConnectionPool => s.returnToPool o p pool c conn
  | _, _ => s

/-! ## Borrow -/

def inFlightOf (s : Session) (c : ConnId) : Int := (s.conns[c]?.map Connection.inFlight).getD 0

def leastBusy (s : Session) : List ConnId → Option ConnId
  | [] => none
  | c :: rest =>
    match s.leastBusy rest with
    | none => some c
    | some c' => if s.inFlightOf c ≤ s.inFlightOf c' then some c else some c'

def pick (s : Session) (pool : Pool) : Option ConnId :=
  match pool.kind with
  | .hostConnection => pool.connections.head?
  | .hostConnectionPool => s.leastBusy pool.connections

def openCore (s : Session) (p : PoolId) (pool : Pool) : Session :=
  match pool.kind with
  | .hostConnection => s
  | .hostConnectionPool =>
    let toCreate := pool.coreConns - (pool.connections.length + pool.scheduledForCreation)
    let s := s.modPool p fun pool => { pool with scheduledForCreation := pool.scheduledForCreation + toCreate }
    { s with calls := s.calls ++ List.replicate toCreate (.createNewConnection p) }

def maxSimultaneousCreation : Nat := 1

/-- Where much is in flight on the borrowed connection, another one is opened. -/
def maybeSpawnNewConnection (s : Session) (p : PoolId) (pool : Pool) (c : ConnId) : Session :=
  match pool.kind with
  | .hostConnection => s
  | .hostConnectionPool =>
    if s.inFlightOf c ≥ pool.maxReqs ∧ pool.connections.length < pool.maxConns then
      if pool.scheduledForCreation ≥ maxSimultaneousCreation then s
      else if pool.openCount ≥ pool.maxConns then s
      else
        (s.modPool p fun pool => { pool with scheduledForCreation := pool.scheduledForCreation + 1 }).submit
          (.createNewConnection p)
    else s

/-! ## Tasks of the pools -/

def addConnIfUnderMax (o : Oracle) (s : Session) (p : PoolId) (pool : Pool) : Session × Bool :=
  if pool.isShutdown then (s, true)
  else if pool.openCount ≥ pool.maxConns then (s, true)
  else if o.connected then
    (s.addConn.modPool p fun pool =>
      { pool with connections := pool.connections ++ [s.conns.length], openCount := pool.openCount + 1 }, true)
  else (if o.isDown then s.shutdownPool p else s, false)

def replace (o : Oracle) (s : Session) (p : PoolId) : Session :=
  match s.pools[p]? with
  | none => s
  | some pool =>
    match pool.kind with
    | .hostConnection =>
      if pool.isShutdown then s
      else if o.connected then
        s.addConn.modPool p fun pool => { pool with connections := [s.conns.length], isReplacing := false }
      else s.submit (.replace p)
    | .hostConnectionPool =>
      match s.addConnIfUnderMax o p pool with
      | (s, true) => s
      | (s, false) => s.submit (.replace p)

def createNewConnection (o : Oracle) (s : Session) (p : PoolId) : Session :=
  match s.pools[p]? with
  | none => s
  | some pool =>
    (s.addConnIfUnderMax o p pool).1.modPool p fun pool =>
      { pool with scheduledForCreation := pool.scheduledForCreation - 1 }

/-- A pool with `n` new connections takes the place of the host's pool. -/
def addOrRenewPool (s : Session) (pool : Pool) (n : Nat) : Session :=
  let new := { pool with
    connections := List.range' s.conns.length n, isShutdown := false, isReplacing := false, trash := [],
    openCount := n, scheduledForCreation := 0 }
  let s' := { (List.range n).foldl (fun s _ => s.addConn) s with
    pools := s.pools ++ [new], poolOf := s.poolOf.set pool.host s.pools.length }
  match s.poolOf.get? pool.host with
  | none => s'
  | some previous => s'.shutdownPool previous

def removePool (s : Session) (host : Host) : Session :=
  match s.poolOf.get? host with
  | none => s
  | some p => { s with poolOf := s.poolOf.erase host }.submit (.shutdownPool p)

end Session

/-! ## Move by move -/

inductive PoolWork (s : Session) : Session → Prop
  | refl : PoolWork s s
  | pools {s' : Session} (h : PoolWork s s') (pools : List Pool) (poolOf : Dict Host PoolId) :
      PoolWork s { s' with pools, poolOf }
  | signaled {s' : Session} (h : PoolWork s s') (c : ConnId) :
      PoolWork s (s'.modConn c fun conn => { conn with signaledError := true })
  | close {s' : Session} (h : PoolWork s s') (c : ConnId) : PoolWork s (s'.closeConn c)
  | connect {s' : Session} (h : PoolWork s s') : PoolWork s s'.addConn
  | submit {s' : Session} (h : PoolWork s s') (call : Call) (hcall : call.future = none) : PoolWork s (s'.submit call)

namespace PoolWork

variable {s s' : Session}

theorem modPool (h : PoolWork s s') (p : PoolId) (g : Pool → Pool) : PoolWork s (s'.modPool p g) := h.pools ..

theorem foldl {α : Type} {k : Session → α → Session} (hk : ∀ {s'} a, PoolWork s s' → PoolWork s (k s' a)) (l : List α) :
    ∀ {s' : Session}, PoolWork s s' → PoolWork s (l.foldl k s') := by
  induction l with
  | nil => intro s' h; exact h
  | cons a l ih => intro s' h; exact ih (hk a h)

section

variable (h : PoolWork s s')
include h

theorem closeAll (l : List ConnId) : PoolWork s (l.foldl Session.closeConn s') :=
  foldl (fun c h => h.close c) l h

theorem submitAll (n : Nat) {call : Call} (hcall : call.future = none) :
    PoolWork s { s' with calls := s'.calls ++ List.replicate n call } := by
  induction n with
  | zero => simpa using h
  | succ n ih =>
    have hn := ih.submit call hcall
    rw [List.replicate_succ', ← List.append_assoc]
    exact hn

theorem shutdownPool (p : PoolId) : PoolWork s (s'.shutdownPool p) := by
  unfold Session.shutdownPool
  split
  · exact h
  split
  · exact h
  have hcls := (h.modPool p fun pool => { pool with isShutdown := true }).closeAll
  split
  · exact (hcls _).modPool ..
  · exact ((hcls _).modPool ..).closeAll _

theorem returnHostConnection (o : Oracle) (p : PoolId) (pool : Pool) (c : ConnId)
    (conn : Connection Callback) : PoolWork s (s'.returnHostConnection o p pool c conn) := by
  unfold Session.returnHostConnection
  dsimp only
  split_ifs
  · exact h
  · exact (h.signaled c).shutdownPool p
  · exact (h.signaled c).modPool ..
  · exact (((h.signaled c).modPool ..).modPool ..).submit _ rfl
  · exact h

theorem replaceConn (p : PoolId) (pool : Pool) (c : ConnId) : PoolWork s (s'.replaceConn p pool c) := by
  unfold Session.replaceConn
  split
  · exact ((h.modPool ..).close c).submit _ rfl
  · exact h.close c

theorem maybeTrashConnection (p : PoolId) (pool : Pool) (c : ConnId)
    (conn : Connection Callback) : PoolWork s (s'.maybeTrashConnection p pool c conn) := by
  unfold Session.maybeTrashConnection
  split_ifs
  · exact (h.modPool ..).close c
  · exact (h.modPool ..).modPool ..
  · exact h

theorem returnToPool (o : Oracle) (p : PoolId) (pool : Pool) (c : ConnId)
    (conn : Connection Callback) : PoolWork s (s'.returnToPool o p pool c conn) := by
  unfold Session.returnToPool
  split_ifs
  · exact h
  · exact (h.signaled c).shutdownPool p
  · exact (h.signaled c).replaceConn ..
  · exact (h.modPool ..).close c
  · exact h
  · exact h.maybeTrashConnection ..
  · exact h

end

theorem returnConnection (o : Oracle) (s : Session) (f : FutureId) (p : PoolId) (c : ConnId) :
    PoolWork { s.modConn c giveBack with returned := (f, c) :: s.returned } (s.returnConnection o f p c) := by
  unfold Session.returnConnection
  dsimp only
  split
  · split
    · exact refl.returnHostConnection ..
    · exact refl.returnToPool ..
  · exact refl

variable (h : PoolWork s s')
include h

theorem openCore (p : PoolId) (pool : Pool) : PoolWork s (s'.openCore p pool) := by
  unfold Session.openCore
  split
  · exact h
  · exact (h.modPool ..).submitAll _ rfl

theorem maybeSpawnNewConnection (p : PoolId) (pool : Pool) (c : ConnId) :
    PoolWork s (s'.maybeSpawnNewConnection p pool c) := by
  unfold Session.maybeSpawnNewConnection
  split
  · exact h
  split_ifs
  · exact h
  · exact h
  · exact (h.modPool ..).submit _ rfl
  · exact h

theorem addConnIfUnderMax (o : Oracle) (p : PoolId) (pool : Pool) : PoolWork s (s'.addConnIfUnderMax o p pool).1 := by
  unfold Session.addConnIfUnderMax
  split_ifs
  · exact h
  · exact h
  · exact h.connect.modPool ..
  · exact h.shutdownPool p
  · exact h

theorem replace (o : Oracle) (p : PoolId) : PoolWork s (s'.replace o p) := by
  unfold Session.replace
  split
  · exact h
  rename_i pool _
  split
  · split_ifs
    · exact h
    · exact h.connect.modPool ..
    · exact h.submit _ rfl
  have hadd := h.addConnIfUnderMax o p pool
  split <;> rename_i heq <;> rw [heq] at hadd
  · exact hadd
  · exact hadd.submit _ rfl

theorem createNewConnection (o : Oracle) (p : PoolId) : PoolWork s (s'.createNewConnection o p) := by
  unfold Session.createNewConnection
  split
  · exact h
  · exact (h.addConnIfUnderMax ..).modPool ..

theorem addOrRenewPool (pool : Pool) (n : Nat) : PoolWork s (s'.addOrRenewPool pool n) := by
  have ho := foldl (k := fun s (_ : Nat) => s.addConn) (fun _ h => h.connect) (List.range n) h
  unfold Session.addOrRenewPool
  split
  · exact ho.pools ..
  · exact (ho.pools ..).shutdownPool _

theorem removePool (host : Host) : PoolWork s (s'.removePool host) := by
  unfold Session.removePool
  split
  · exact h
  · exact (h.pools ..).submit _ rfl

end PoolWork

end CqlDriver.Requests
