import CqlDriver.Protocol.Primitives

/-!
# Request bodies

The `write_*` functions of `protocol.py`, and `send_body`. A request is read as the native protocol
lays it out: a flags word tells which of the optional fields follow.
-/

namespace CqlDriver.Protocol

open Lib Lib.Reader CqlDriver.Types Option

variable {σ : Type}

/-! ## Writing -/

def writeByte (b : Int) : Option Bytes := packSigned 1 b

def writeInt (i : Int) : Option Bytes := packSigned 4 i

def writeUint (i : Int) : Option Bytes := packUnsigned 4 i

def writeLong (i : Int) : Option Bytes := packUnsigned 8 i

def writeShort (s : Int) : Option Bytes := packUnsigned 2 s

def writeConsistencyLevel (cl : Int) : Option Bytes := writeShort cl

def writeString (s : Bytes) : Option Bytes := writeAll [writeShort s.length, some s]

def writeLongstring (s : Bytes) : Option Bytes := writeAll [writeInt s.length, some s]

inductive BoundValue
  | null
  | unset
  | bytes (b : Bytes)
deriving DecidableEq

def writeValue : BoundValue → Option Bytes
  | .null => writeInt (-1)
  | .unset => writeInt (-2)
  | .bytes v => writeAll [writeInt v.length, some v]

def writeValues (params : List BoundValue) : Option Bytes := writeAll (writeShort params.length :: params.map writeValue)

def usesIntQueryFlags (version : Nat) : Bool := 5 ≤ version

def usesKeyspaceFlag (version : Nat) : Bool := 5 ≤ version

def usesPreparedMetadata (version : Nat) : Bool := 5 ≤ version

/-! ## The layout -/

def readUnsigned (width : Nat) : Reader σ Int := do
  let b ← read width
  unpackUnsigned width b

/-- With a sign, unlike `writeLong`. -/
def readLong : Reader σ Int := do
  let b ← read 8
  unpackSigned 8 b

def readLongstring : Reader σ Text := do
  let contents ← readBinaryLongstring
  utf8Decode contents

/-- The sizes -1 and -2 are null and not set. -/
def readBoundValue : Reader σ BoundValue := do
  let size ← readInt
  if size = -1 then return .null
  if size = -2 then return .unset
  return .bytes (← read size)

def readValues : Reader σ (List BoundValue) := do
  let n ← readShort
  times n.toNat readBoundValue

variable {b : Bytes} {n : Int} {width version : Nat}

theorem length_packUnsigned (h : packUnsigned width n = some b) : b.length = width := by
  obtain ⟨rfl, -⟩ := packUnsigned_eq_some h
  exact beEncode_length ..

theorem length_packSigned (h : packSigned width n = some b) : b.length = width := by
  obtain ⟨rfl, -⟩ := packSigned_eq_some h
  exact signedBytes_length ..

theorem readsBack_unsigned (width : Nat) (n : Int) : ReadsBack (packUnsigned width n) (readUnsigned width : Reader σ Int) n :=
  fun _ hb => (Consumes.read (by rw [length_packUnsigned hb])).then (.lift (unpackUnsigned_packUnsigned hb))

theorem readsBack_short (n : Int) : ReadsBack (writeShort n) (readShort : Reader σ Int) n := readsBack_unsigned 2 n

theorem readsBack_int (n : Int) : ReadsBack (writeInt n) (readInt : Reader σ Int) n :=
  fun _ hb => (Consumes.read (by rw [length_packSigned hb]; rfl)).then (.lift (unpackSigned_packSigned hb))

/-- How `n`, written without a sign, is read. -/
def asLong (n : Int) : Int := if n < 2 ^ 63 then n else n - 2 ^ 64

theorem readsBack_long (n : Int) : ReadsBack (writeLong n) (readLong : Reader σ Int) (asLong n) := by
  intro b hb
  refine (Consumes.read (by rw [length_packUnsigned hb]; rfl)).then (.lift ?_)
  obtain ⟨rfl, h0, hlt⟩ := packUnsigned_eq_some hb
  have hd : (beDecode (beEncode 8 n.toNat) : Int) = n := by
    rw [beDecode_beEncode, Nat.mod_eq_of_lt (by omega), Int.toNat_of_nonneg h0]
  rw [unpackSigned, if_pos (beEncode_length ..), signedValue, hd, beEncode_length, asLong]
  split_ifs <;> first | rfl | omega

/-- What a [long] has room for. -/
def FitsLong (timestamp : Option Int) : Prop := ∀ t ∈ timestamp, t < 2 ^ 63

theorem map_asLong_iff {timestamp : Option Int} : timestamp.map asLong = timestamp ↔ FitsLong timestamp := by
  cases timestamp with
  | none => simp [FitsLong]
  | some t =>
    simp only [Option.map_some, Option.some.injEq, FitsLong, Option.mem_def, forall_eq', asLong]
    split_ifs <;> omega

theorem unpackUnsigned_packSigned (hn : 0 ≤ n) (h : packSigned width n = some b) : unpackUnsigned width b = some n := by
  obtain ⟨rfl, -, hlt⟩ := packSigned_eq_some h
  have hmod : n % 256 ^ width = n := Int.emod_eq_of_lt hn (by omega)
  rw [signedBytes, hmod]
  exact unpackUnsigned_packUnsigned (by rw [packUnsigned, if_pos ⟨hn, by omega⟩])

theorem readsBack_signed (hn : 0 ≤ n) : ReadsBack (packSigned width n) (readUnsigned width : Reader σ Int) n :=
  fun _ hb => (Consumes.read (by rw [length_packSigned hb])).then (.lift (unpackUnsigned_packSigned hn hb))

theorem readsBack_contents (b : Bytes) : ReadsBack (writeAll [some b]) (read b.length : Reader σ Bytes) b := by
  intro b' hb'
  obtain rfl : b = b' := by simpa [writeAll] using hb'
  exact .read rfl

theorem readsBack_binaryString (b : Bytes) : ReadsBack (writeString b) (readBinaryString : Reader σ Bytes) b :=
  (readsBack_short _).cons (readsBack_contents b)

theorem readsBack_binaryLongstring (b : Bytes) : ReadsBack (writeLongstring b) (readBinaryLongstring : Reader σ Bytes) b :=
  (readsBack_int _).cons (readsBack_contents b)

theorem readsBack_longstring (s : Text) : ReadsBack (writeLongstring (utf8Encode s)) (readLongstring : Reader σ Text) s :=
  (readsBack_binaryLongstring _).then (.lift (utf8Decode_utf8Encode s))

theorem readsBack_string (s : Text) : ReadsBack (writeString (utf8Encode s)) (readString : Reader σ Text) s :=
  (readsBack_short _).cons ((readsBack_contents _).then (.lift (utf8Decode_utf8Encode s)))

theorem readsBack_value (v : BoundValue) : ReadsBack (writeValue v) (readBoundValue : Reader σ BoundValue) v := by
  cases v with
  | null | unset => exact (readsBack_int _).then (.pure _)
  | bytes b =>
    refine (readsBack_int _).cons ?_
    exact (readsBack_contents b).then (.pure _)

theorem readsBack_values (vs : List BoundValue) : ReadsBack (writeValues vs) (readValues : Reader σ (List BoundValue)) vs :=
  (readsBack_short _).cons (.times readsBack_value vs)

/-! ## QUERY and EXECUTE -/

def valuesFlag : Nat := 0x01

def skipMetadataFlag : Nat := 0x02

def pageSizeFlag : Nat := 0x04

def withPagingStateFlag : Nat := 0x08

def withSerialConsistencyFlag : Nat := 0x10

def protocolTimestamp : Nat := 0x20

def withKeyspaceFlag : Nat := 0x80

/-- It raises where the version does not have the field. -/
def setFlag (flags : Nat) (isSet supported : Bool) (flag : Nat) : Option Nat :=
  if isSet then if supported then some (flags ||| flag) else none else some flags

def nonzero (o : Option Int) : Option Int := o.filter (· ≠ 0)

def nonempty {α : Type} (o : Option (List α)) : Option (List α) := o.filter (!·.isEmpty)

def writeFlags (flags version : Nat) : Option Bytes := if usesIntQueryFlags version then writeUint flags else writeByte flags

structure QueryMessage where
  query : Text
  consistencyLevel : Int
  serialConsistencyLevel : Option Int := none
  fetchSize : Option Int := none
  pagingState : Option Bytes := none
  timestamp : Option Int := none
  keyspace : Option Text := none
  queryParams : Option (List BoundValue) := none

namespace QueryMessage

def flags (m : QueryMessage) (version : Nat) : Option Nat := do
  let flags ← setFlag 0 m.queryParams.isSome true valuesFlag
  let flags ← setFlag flags (nonzero m.serialConsistencyLevel).isSome (2 ≤ version) withSerialConsistencyFlag
  let flags ← setFlag flags (nonzero m.fetchSize).isSome (2 ≤ version) pageSizeFlag
  let flags ← setFlag flags (nonempty m.pagingState).isSome (2 ≤ version) withPagingStateFlag
  let flags ← setFlag flags m.timestamp.isSome true protocolTimestamp
  setFlag flags m.keyspace.isSome (usesKeyspaceFlag version) withKeyspaceFlag

def sendBody (m : QueryMessage) (version : Nat) : Option Bytes := do
  let flags ← m.flags version
  writeAll [
    writeLongstring (utf8Encode m.query),
    writeConsistencyLevel m.consistencyLevel,
    writeFlags flags version,
    writeSome m.queryParams writeValues,
    writeSome (nonzero m.fetchSize) writeInt,
    writeSome (nonempty m.pagingState) writeLongstring,
    writeSome (nonzero m.serialConsistencyLevel) writeConsistencyLevel,
    writeSome m.timestamp writeLong,
    writeSome m.keyspace fun keyspace => writeString (utf8Encode keyspace)]

end QueryMessage

structure ExecuteMessage where
  queryId : Bytes
  queryParams : List BoundValue
  consistencyLevel : Int
  serialConsistencyLevel : Option Int := none
  fetchSize : Option Int := none
  pagingState : Option Bytes := none
  timestamp : Option Int := none
  skipMeta : Bool := false
  resultMetadataId : Option Bytes := none

namespace ExecuteMessage

def flags (m : ExecuteMessage) (version : Nat) : Option Nat := do
  let flags ← setFlag valuesFlag (nonzero m.serialConsistencyLevel).isSome true withSerialConsistencyFlag
  let flags ← setFlag flags (nonzero m.fetchSize).isSome true pageSizeFlag
  let flags ← setFlag flags (nonempty m.pagingState).isSome true withPagingStateFlag
  let flags ← setFlag flags m.timestamp.isSome (3 ≤ version) protocolTimestamp
  setFlag flags m.skipMeta true skipMetadataFlag

/-- `write_string(f, None)` raises. -/
def writeResultMetadataId (m : ExecuteMessage) (version : Nat) : Option Bytes :=
  if usesPreparedMetadata version then m.resultMetadataId.bind writeString else some []

def sendBody (m : ExecuteMessage) (version : Nat) : Option Bytes :=
  if version = 1 then do
    if (nonzero m.serialConsistencyLevel).isSome then none
    if (nonzero m.fetchSize).isSome || (nonempty m.pagingState).isSome then none
    writeAll [
      writeString m.queryId,
      m.writeResultMetadataId version,
      writeValues m.queryParams,
      writeConsistencyLevel m.consistencyLevel]
  else do
    let flags ← m.flags version
    writeAll [
      writeString m.queryId,
      m.writeResultMetadataId version,
      writeConsistencyLevel m.consistencyLevel,
      writeFlags flags version,
      writeValues m.queryParams,
      writeSome (nonzero m.fetchSize) writeInt,
      writeSome (nonempty m.pagingState) writeLongstring,
      writeSome (nonzero m.serialConsistencyLevel) writeConsistencyLevel,
      writeSome m.timestamp writeLong]

end ExecuteMessage

structure QueryParameters where
  consistency : Int
  skipMetadata : Bool
  values : Option (List BoundValue)
  pageSize : Option Int
  pagingState : Option Bytes
  serialConsistency : Option Int
  timestamp : Option Int
  keyspace : Option Text

def readFlags (version : Nat) : Reader σ Int := if 5 ≤ version then readUnsigned 4 else readUnsigned 1

def readQueryParameters (version : Nat) : Reader σ QueryParameters := do
  let consistency ← readShort
  let flags ← readFlags version
  let values ← onlyIf (hasFlag flags 0x01) readValues
  let pageSize ← onlyIf (hasFlag flags 0x04) readInt
  let pagingState ← onlyIf (hasFlag flags 0x08) readBinaryLongstring
  let serialConsistency ← onlyIf (hasFlag flags 0x10) readShort
  let timestamp ← onlyIf (hasFlag flags 0x20) readLong
  let keyspace ← onlyIf (hasFlag flags 0x80) readString
  return ⟨consistency, hasFlag flags 0x02, values, pageSize, pagingState, serialConsistency, timestamp, keyspace⟩

def readQuery (version : Nat) : Reader σ (Text × QueryParameters) := do
  let query ← readLongstring
  return (query, ← readQueryParameters version)

def readExecute (version : Nat) : Reader σ (Bytes × Option Bytes × QueryParameters) := do
  let queryId ← readBinaryString
  let resultMetadataId ← onlyIf (5 ≤ version) readBinaryString
  return (queryId, resultMetadataId, ← readQueryParameters version)

/-! ## The flags tell what follows -/

theorem setFlag_eq_some {flags flags' flag : Nat} {isSet supported : Bool}
    (h : setFlag flags isSet supported flag = some flags') :
    (isSet → supported) ∧ flags' = flags ||| if isSet then flag else 0 := by
  unfold setFlag at h
  cases isSet <;> cases supported <;> simp_all

structure Marks (flags : Int) (q : QueryParameters) : Prop where
  values : hasFlag flags 0x01 = q.values.isSome
  skipMetadata : hasFlag flags 0x02 = q.skipMetadata
  pageSize : hasFlag flags 0x04 = q.pageSize.isSome
  pagingState : hasFlag flags 0x08 = q.pagingState.isSome
  serialConsistency : hasFlag flags 0x10 = q.serialConsistency.isSome
  timestamp : hasFlag flags 0x20 = q.timestamp.isSome
  keyspace : hasFlag flags 0x80 = q.keyspace.isSome

theorem readsBack_flags {flags version : Nat} : ReadsBack (writeFlags flags version) (readFlags version : Reader σ Int) flags := by
  unfold writeFlags readFlags usesIntQueryFlags
  by_cases h : 5 ≤ version
  · rw [if_pos (by simpa using h), if_pos h]
    exact readsBack_unsigned 4 _
  rw [if_neg (by simpa using h), if_neg h]
  exact readsBack_signed (Int.natCast_nonneg _)

def QueryParameters.received (q : QueryParameters) : QueryParameters := { q with timestamp := q.timestamp.map asLong }

theorem received_eq_iff {q : QueryParameters} : q.received = q ↔ FitsLong q.timestamp := by
  rw [← map_asLong_iff]
  exact ⟨congrArg QueryParameters.timestamp, fun h => by rw [QueryParameters.received, h]⟩

theorem readsBack_parameters (version : Nat) {flags : Nat} {q : QueryParameters} (hq : Marks flags q)
    {rest : List (Option Bytes)}
    (hr : ReadsBack (writeAll rest) (onlyIf (hasFlag flags 0x80) readString : Reader σ _) q.keyspace) :
    ReadsBack (writeAll (writeConsistencyLevel q.consistency :: writeFlags flags version ::
      writeSome q.values writeValues :: writeSome q.pageSize writeInt :: writeSome q.pagingState writeLongstring ::
      writeSome q.serialConsistency writeConsistencyLevel :: writeSome q.timestamp writeLong :: rest))
      (readQueryParameters version : Reader σ _) q.received := by
  refine (readsBack_short _).cons (readsBack_flags.cons ?_)
  refine (ReadsBack.optional hq.values readsBack_values).cons ?_
  refine (ReadsBack.optional hq.pageSize readsBack_int).cons ?_
  refine (ReadsBack.optional hq.pagingState readsBack_binaryLongstring).cons ?_
  refine (ReadsBack.optional hq.serialConsistency readsBack_short).cons ?_
  refine (ReadsBack.optional_map hq.timestamp readsBack_long).cons ?_
  refine hr.then ?_
  rw [hq.skipMetadata]
  exact .pure q.received

def QueryMessage.parameters (m : QueryMessage) : QueryParameters where
  consistency := m.consistencyLevel
  skipMetadata := false
  values := m.queryParams
  pageSize := nonzero m.fetchSize
  pagingState := nonempty m.pagingState
  serialConsistency := nonzero m.serialConsistencyLevel
  timestamp := m.timestamp
  keyspace := m.keyspace

def ExecuteMessage.parameters (m : ExecuteMessage) : QueryParameters where
  consistency := m.consistencyLevel
  skipMetadata := m.skipMeta
  values := some m.queryParams
  pageSize := nonzero m.fetchSize
  pagingState := nonempty m.pagingState
  serialConsistency := nonzero m.serialConsistencyLevel
  timestamp := m.timestamp
  keyspace := none

theorem QueryMessage.marks {m : QueryMessage} {flags : Nat} (h : m.flags version = some flags) :
    Marks flags m.parameters := by
  simp only [QueryMessage.flags, bind_eq_bind, bind_eq_some_iff] at h
  obtain ⟨_, h₁, _, h₂, _, h₃, _, h₄, _, h₅, h₆⟩ := h
  obtain ⟨-, rfl⟩ := setFlag_eq_some h₁
  obtain ⟨-, rfl⟩ := setFlag_eq_some h₂
  obtain ⟨-, rfl⟩ := setFlag_eq_some h₃
  obtain ⟨-, rfl⟩ := setFlag_eq_some h₄
  obtain ⟨-, rfl⟩ := setFlag_eq_some h₅
  obtain ⟨-, rfl⟩ := setFlag_eq_some h₆
  unfold QueryMessage.parameters
  constructor
  all_goals
    dsimp only
    generalize m.queryParams.isSome = a
    generalize (nonzero m.serialConsistencyLevel).isSome = b
    generalize (nonzero m.fetchSize).isSome = c
    generalize (nonempty m.pagingState).isSome = d
    generalize m.timestamp.isSome = e
    generalize m.keyspace.isSome = f
    revert a b c d e f
    decide

variable {m : ExecuteMessage}

theorem ExecuteMessage.marks {flags : Nat} (h : m.flags version = some flags) : Marks flags m.parameters := by
  simp only [ExecuteMessage.flags, bind_eq_bind, bind_eq_some_iff] at h
  obtain ⟨_, h₁, _, h₂, _, h₃, _, h₄, h₅⟩ := h
  obtain ⟨-, rfl⟩ := setFlag_eq_some h₁
  obtain ⟨-, rfl⟩ := setFlag_eq_some h₂
  obtain ⟨-, rfl⟩ := setFlag_eq_some h₃
  obtain ⟨-, rfl⟩ := setFlag_eq_some h₄
  obtain ⟨-, rfl⟩ := setFlag_eq_some h₅
  unfold ExecuteMessage.parameters
  constructor
  all_goals
    dsimp only [isSome_some]
    generalize (nonzero m.serialConsistencyLevel).isSome = a
    generalize (nonzero m.fetchSize).isSome = b
    generalize (nonempty m.pagingState).isSome = c
    generalize m.timestamp.isSome = d
    generalize m.skipMeta = e
    revert a b c d e
    decide

theorem readsBack_query (m : QueryMessage) {version : Nat} :
    ReadsBack (m.sendBody version) (readQuery version : Reader σ _) (m.query, m.parameters.received) := by
  intro b hb
  obtain ⟨flags, hf, hb⟩ := bind_eq_some_iff.mp hb
  have hm := QueryMessage.marks hf
  have hks : ReadsBack (writeAll [writeSome m.keyspace fun ks => writeString (utf8Encode ks)])
      (onlyIf (hasFlag flags 0x80) readString : Reader σ _) m.keyspace := by
    have h := (ReadsBack.optional hm.keyspace (readsBack_string (σ := σ))).cons (.nil m.keyspace)
    rwa [bind_pure] at h
  have hp := readsBack_parameters version hm hks
  exact (readsBack_longstring m.query).cons (hp.then (.pure (m.query, m.parameters.received))) b hb

theorem readsBack_resultMetadataId {version : Nat} :
    ReadsBack (m.writeResultMetadataId version) (onlyIf (5 ≤ version) readBinaryString : Reader σ _)
      (if 5 ≤ version then m.resultMetadataId else none) := by
  rw [ExecuteMessage.writeResultMetadataId, usesPreparedMetadata]
  by_cases h : 5 ≤ version
  · rw [if_pos h, if_pos (decide_eq_true h)]
    cases m.resultMetadataId with
    | none => exact fun b hb => nomatch hb
    | some id =>
      rw [bind_some, ← writeSome_some id writeString]
      exact .optional (o := some id) (decide_eq_true h) readsBack_binaryString
  rw [if_neg h, if_neg (by simpa using h)]
  exact .optional (o := none) (decide_eq_false h) readsBack_binaryString

theorem readsBack_execute (m : ExecuteMessage) (hver : 2 ≤ version) :
    ReadsBack (m.sendBody version) (readExecute version : Reader σ _)
      (m.queryId, if 5 ≤ version then m.resultMetadataId else none, m.parameters.received) := by
  intro b hb
  rw [ExecuteMessage.sendBody, if_neg (by omega)] at hb
  obtain ⟨flags, hf, hb⟩ := bind_eq_some_iff.mp hb
  have hm := ExecuteMessage.marks hf
  have hks : ReadsBack (writeAll []) (onlyIf (hasFlag flags 0x80) readString : Reader σ _) none := by
    rw [hm.keyspace]
    exact .nil none
  have hp := readsBack_parameters version hm hks
  rw [show m.parameters.values = some m.queryParams from rfl, writeSome_some] at hp
  refine (readsBack_binaryString m.queryId).cons (readsBack_resultMetadataId.cons ?_) b hb
  exact hp.then (.pure _)

/-- QUERY and EXECUTE are read back exactly if the timestamp fits a [long]. -/
theorem statement_bodies_iff {version : Nat} (hversion : 2 ≤ version) :
    (∀ (m : QueryMessage) (b : Bytes), m.sendBody version = some b →
      (readQuery version (b, ()) = some ((m.query, m.parameters), [], ()) ↔ FitsLong m.timestamp)) ∧
    ∀ (m : ExecuteMessage) (b : Bytes), m.sendBody version = some b →
      (readExecute version (b, ()) =
        some ((m.queryId, if 5 ≤ version then m.resultMetadataId else none, m.parameters), [], ()) ↔
      FitsLong m.timestamp) := by
  refine ⟨fun m b hb => ?_, fun m b hb => ?_⟩
  · rw [(readsBack_query m b hb).all, show m.timestamp = m.parameters.timestamp from rfl, ← received_eq_iff]
    simp
  · rw [(readsBack_execute m hversion b hb).all, show m.timestamp = m.parameters.timestamp from rfl, ← received_eq_iff]
    simp

def fullQuery : QueryMessage where
  query := ['Q']
  consistencyLevel := 6
  serialConsistencyLevel := some 8
  fetchSize := some 100
  pagingState := some [1, 2]
  timestamp := some 7
  keyspace := some ['k']
  queryParams := some [.null, .unset, .bytes [], .bytes [5]]

theorem statement_bodies_full : ∃ b, fullQuery.sendBody 5 = some b ∧
    readQuery 5 (b, ()) = some ((fullQuery.query, fullQuery.parameters), [], ()) := by
  obtain ⟨b, hb⟩ := isSome_iff_exists.mp (show (fullQuery.sendBody 5).isSome by decide +kernel)
  exact ⟨b, hb, ((statement_bodies_iff (by decide)).1 fullQuery b hb).mpr (by simp [FitsLong, fullQuery])⟩

/-- A timestamp of 2^63 becomes the lowest one there is. -/
theorem timestamp_turns_negative :
    ({ query := ['Q'], consistencyLevel := 1, timestamp := some (2 ^ 63) } : QueryMessage).sendBody 4 =
      some [0, 0, 0, 1, 81, 0, 1, 0x20, 0x80, 0, 0, 0, 0, 0, 0, 0] ∧
    (readQuery 4 ([0, 0, 0, 1, 81, 0, 1, 0x20, 0x80, 0, 0, 0, 0, 0, 0, 0], ())).map (·.1.2.timestamp) =
      some (some (-2 ^ 63)) ∧
    ({ queryId := [9], queryParams := [], consistencyLevel := 1, timestamp := some (2 ^ 63) } :
      ExecuteMessage).sendBody 3 = some [0, 1, 9, 0, 1, 0x21, 0, 0, 0x80, 0, 0, 0, 0, 0, 0, 0] ∧
    (readExecute 3 ([0, 1, 9, 0, 1, 0x21, 0, 0, 0x80, 0, 0, 0, 0, 0, 0, 0], ())).map (·.1.2.2.timestamp) =
      some (some (-2 ^ 63)) := by
  decide +kernel

end CqlDriver.Protocol
