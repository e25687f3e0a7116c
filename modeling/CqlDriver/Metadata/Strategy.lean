import CqlDriver.Lib.Dict
import Mathlib.Data.List.Rotate

/-!
# Replication strategies

`make_token_replica_map` of the strategies. Hosts are compared by address, so a type `η` and a table
of locations stand for the `Host` objects. A Python set is a list without duplicates.
-/

namespace CqlDriver.Metadata

open Lib

variable {τ η : Type} [DecidableEq τ] [DecidableEq η]

structure Locations (η : Type) where
  datacenter : η → Option String
  rack : η → Option String

/-- `None` and the empty string are false. -/
def truthy (s : Option String) : Bool := s.any (· ≠ "")

def orEmpty {α β : Type} [DecidableEq α] (d : Dict α (List β)) (k : α) : List β := (d.get? k).getD []

/-! ## `SimpleStrategy` -/

/-- `none` is the `KeyError` of a token without an owner. -/
def simpleLoop (replicationFactor : Int) (owner : Dict τ η) : List τ → List η → Option (List η)
  | [], hosts => some hosts
  | token :: rest, hosts =>
    if hosts.length < replicationFactor then do
      let host ← owner.get? token
      simpleLoop replicationFactor owner rest (if host ∈ hosts then hosts else hosts ++ [host])
    else some hosts

/-- `ring[(i + j) % len(ring)]` stands at place `j`. -/
def simpleReplicaMap (replicationFactor : Int) (owner : Dict τ η) (ring : List τ) :
    Option (Dict τ (List η)) :=
  ring.zipIdx.foldlM (fun replicaMap (token, i) => do
    let hosts ← simpleLoop replicationFactor owner (ring.rotate i) []
    return replicaMap.set token hosts) Dict.empty

/-! ## `NetworkTopologyStrategy` -/

structure DcTables (η : Type) where
  tokenOffset : Dict (Option String) (List Nat)
  racks : Dict (Option String) (List (Option String))
  hosts : Dict (Option String) (List η)

def DcTables.empty : DcTables η := ⟨Dict.empty, Dict.empty, Dict.empty⟩

def DcTables.add (loc : Locations η) (t : DcTables η) (host : η) (i : Nat) : DcTables η :=
  let dc := loc.datacenter host
  let tokenOffset := t.tokenOffset.set dc (orEmpty t.tokenOffset dc ++ [i])
  if truthy dc && truthy (loc.rack host) then
    { tokenOffset
      racks := t.racks.set dc ((orEmpty t.racks dc).insert (loc.rack host))
      hosts := t.hosts.set dc ((orEmpty t.hosts dc).insert host) }
  else { t with tokenOffset }

def dcTables (loc : Locations η) (owners : List η) : DcTables η :=
  owners.zipIdx.foldl (fun t (host, i) => t.add loc host i) DcTables.empty

structure Selection (η : Type) where
  replicas : List η
  replicasRemaining : Nat
  replicasThisDc : Nat
  skippedHosts : List η
  racksPlaced : List (Option String)

def addSkipped : List η → List η → Nat → List η × Nat
  | [], replicas, remaining => (replicas, remaining)
  | _ :: _, replicas, 0 => (replicas, 0)
  | host :: rest, replicas, remaining + 1 => addSkipped rest (replicas ++ [host]) remaining

/-- With the last rack the skipped hosts become replicas too. -/
def Selection.place (rack : Option String) (numRacks : Nat) (s : Selection η) (host : η) : Selection η :=
  let s := { s with
    replicas := s.replicas ++ [host]
    replicasThisDc := s.replicasThisDc + 1
    replicasRemaining := s.replicasRemaining - 1
    racksPlaced := s.racksPlaced.insert rack }
  if s.racksPlaced.length = numRacks then
    let (replicas, replicasRemaining) := addSkipped s.skippedHosts s.replicas s.replicasRemaining
    { s with replicas, replicasRemaining, skippedHosts := [] }
  else s

def selectLoop (rack : η → Option String) (numRacks numHosts : Nat) : List η → Selection η → Selection η
  | [], s => s
  | host :: rest, s =>
    if s.replicasRemaining = 0 ∨ s.replicasThisDc = numHosts then s
    else if host ∈ s.replicas then selectLoop rack numRacks numHosts rest s
    else if rack host ∈ s.racksPlaced ∧ s.racksPlaced.length < numRacks then
      selectLoop rack numRacks numHosts rest { s with skippedHosts := s.skippedHosts ++ [host] }
    else selectLoop rack numRacks numHosts rest (s.place (rack host) numRacks host)

def selectDc (loc : Locations η) (t : DcTables η) (dc : Option String) (rf : Nat) (walk replicas : List η) :
    List η :=
  (selectLoop loc.rack (orEmpty t.racks dc).length (orEmpty t.hosts dc).length walk
    ⟨replicas, rf, 0, [], []⟩).replicas

def advance (tokenOffsets : List Nat) (index i : Nat) : Nat :=
  index + ((tokenOffsets.drop index).takeWhile (· < i)).length

def dcRf (factors : Dict String Int) (dc : Option String) : Option Nat :=
  match dc.bind factors.get? with
  | some rf => if rf > 0 then some rf.toNat else none
  | none => none

/-- The state is `dc_to_current_index` and the replicas so far. -/
def dcStep (loc : Locations η) (factors : Dict String Int) (t : DcTables η) (owners : List η) (i : Nat) :
    Dict (Option String) Nat × List η → Option String → Dict (Option String) Nat × List η
  | (currentIndex, replicas), dc =>
    match dcRf factors dc with
    | none => (currentIndex, replicas)
    | some rf =>
      let tokenOffsets := orEmpty t.tokenOffset dc
      let index := advance tokenOffsets ((currentIndex.get? dc).getD 0) i
      let walk := (tokenOffsets.rotate index).filterMap (owners[·]?)
      (currentIndex.set dc index, selectDc loc t dc rf walk replicas)

def ntsLoop (loc : Locations η) (factors : Dict String Int) (t : DcTables η) (owners : List η) :
    List (τ × Nat) → Dict (Option String) Nat × Dict τ (List η) → Dict (Option String) Nat × Dict τ (List η)
  | [], s => s
  | (token, i) :: rest, (currentIndex, replicaMap) =>
    let (currentIndex, replicas) :=
      t.tokenOffset.keys.foldl (dcStep loc factors t owners i) (currentIndex, orEmpty replicaMap token)
    ntsLoop loc factors t owners rest (currentIndex, replicaMap.set token replicas)

/-- The first loop looks up every owner, or raises a `KeyError`. -/
def ntsReplicaMap (loc : Locations η) (factors : Dict String Int) (owner : Dict τ η) (ring : List τ) :
    Option (Dict τ (List η)) := do
  let owners ← ring.mapM owner.get?
  return (ntsLoop loc factors (dcTables loc owners) owners ring.zipIdx (Dict.empty, Dict.empty)).2

/-! ## All strategies -/

/-- Any name that is not registered gives an `_UnknownStrategy`. -/
inductive Strategy
  | simple (replicationFactor : Int)
  | networkTopology (dcReplicationFactors : Dict String Int)
  | localStrategy
  | unknown (name : String)

def makeTokenReplicaMap (loc : Locations η) (owner : Dict τ η) (ring : List τ) :
    Strategy → Option (Dict τ (List η))
  | .simple rf => simpleReplicaMap rf owner ring
  | .networkTopology factors => ntsReplicaMap loc factors owner ring
  | .localStrategy | .unknown _ => some Dict.empty

end CqlDriver.Metadata
