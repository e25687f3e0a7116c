import CqlDriver.Protocol.QueryMessage

/-! # BATCH and PREPARE -/

namespace CqlDriver.Protocol

open Lib Lib.Reader CqlDriver.Types

variable {σ : Type}

/-! ## PREPARE -/

def preparedWithKeyspaceFlag : Nat := 0x01

def usesPrepareFlags (version : Nat) : Bool := 5 ≤ version

structure PrepareMessage where
  query : Text
  keyspace : Option Text := none
deriving DecidableEq

def PrepareMessage.sendBody (m : PrepareMessage) (version : Nat) : Option Bytes := do
  let flags ← setFlag 0 m.keyspace.isSome (usesKeyspaceFlag version) preparedWithKeyspaceFlag
  writeAll [
    writeLongstring (utf8Encode m.query),
    if usesPrepareFlags version then writeUint flags else if flags = 0 then some [] else none,
    if usesKeyspaceFlag version then writeSome (nonempty m.keyspace) fun keyspace => writeString (utf8Encode keyspace)
    else some []]

def readPrepare (version : Nat) : Reader σ PrepareMessage := do
  let query ← readLongstring
  if 5 ≤ version then
    let flags ← readUnsigned 4
    let keyspace ← onlyIf (hasFlag flags 0x01) readString
    return ⟨query, keyspace⟩
  else return ⟨query, none⟩

def PrepareMessage.flags (m : PrepareMessage) : Nat := 0 ||| if m.keyspace.isSome then preparedWithKeyspaceFlag else 0

theorem PrepareMessage.hasFlag_flags (m : PrepareMessage) : hasFlag m.flags 0x01 = m.keyspace.isSome := by
  unfold PrepareMessage.flags
  generalize m.keyspace.isSome = isSet
  revert isSet
  decide

variable {b : Bytes} {m : PrepareMessage} {version : Nat}

theorem PrepareMessage.sendBody_flags (hver : 5 ≤ version) (h : m.sendBody version = some b) :
    writeAll [writeLongstring (utf8Encode m.query), writeUint m.flags,
      writeSome (nonempty m.keyspace) fun ks => writeString (utf8Encode ks)] = some b := by
  have hp : usesPrepareFlags version := decide_eq_true hver
  have hks : usesKeyspaceFlag version := decide_eq_true hver
  obtain ⟨flags, hf, hb⟩ := Option.bind_eq_some_iff.mp h
  obtain ⟨-, rfl⟩ := setFlag_eq_some hf
  rwa [if_pos hp, if_pos hks] at hb

theorem PrepareMessage.sendBody_plain (hver : ¬ 5 ≤ version) (h : m.sendBody version = some b) :
    m.keyspace = none ∧ writeAll [writeLongstring (utf8Encode m.query), some [], some []] = some b := by
  have hp : ¬ usesPrepareFlags version := by simpa [usesPrepareFlags] using hver
  have hks : ¬ usesKeyspaceFlag version := by simpa [usesKeyspaceFlag] using hver
  obtain ⟨flags, hf, hb⟩ := Option.bind_eq_some_iff.mp h
  obtain ⟨hsup, rfl⟩ := setFlag_eq_some hf
  have hn : ¬ m.keyspace.isSome := fun hs => hks (hsup hs)
  rw [if_neg hp, if_neg hks, if_neg hn] at hb
  exact ⟨by simpa using hn, hb⟩

theorem readsBack_prepare {m : PrepareMessage} (hver : 5 ≤ version) (hks : m.keyspace ≠ some []) :
    ReadsBack (writeAll [writeLongstring (utf8Encode m.query), writeUint m.flags,
      writeSome (nonempty m.keyspace) fun ks => writeString (utf8Encode ks)]) (readPrepare version : Reader σ _) m := by
  have hset : nonempty m.keyspace = m.keyspace := by
    match h : m.keyspace with
    | none | some (_ :: _) => rfl
    | some [] => exact absurd h hks
  refine (readsBack_longstring m.query).cons ?_
  rw [if_pos hver, hset]
  exact (readsBack_unsigned 4 _).cons ((ReadsBack.optional m.hasFlag_flags readsBack_string).cons (.nil m))

theorem readPrepare_empty (hver : 5 ≤ version) (he : m.keyspace = some []) (h : writeAll [writeLongstring
      (utf8Encode m.query), writeUint m.flags, writeSome (nonempty m.keyspace) fun ks => writeString (utf8Encode
      ks)] = some b) : readPrepare version (b, ()) = none := by
  have hn : nonempty m.keyspace = none := by rw [he]; rfl
  have hf : hasFlag m.flags 0x01 := by rw [m.hasFlag_flags, he]; rfl
  have hs : ReadsBack (writeAll [writeLongstring (utf8Encode m.query), writeUint m.flags, some []])
      (do return (← readLongstring, ← readUnsigned 4) : Reader Unit (Text × Int)) (m.query, m.flags) :=
    (readsBack_longstring m.query).cons ((readsBack_unsigned 4 _).cons (.skip (.nil _)))
  rw [hn] at h
  obtain ⟨_, hrun⟩ := (hs b h).run_bind (fun x => do
    let ks ← onlyIf (hasFlag x.2 0x01) readString
    return (⟨x.1, ks⟩ : PrepareMessage)) [] ()
  simp only [List.append_nil, bind_assoc, hf] at hrun
  simp only [readPrepare, if_pos hver]
  exact hrun.trans rfl

theorem readPrepare_iff (h : m.sendBody version = some b) :
    readPrepare version (b, ()) = some (m, [], ()) ↔ m.keyspace ≠ some [] := by
  by_cases hver : 5 ≤ version
  · have hb := PrepareMessage.sendBody_flags hver h
    constructor
    · intro hr he
      rw [readPrepare_empty hver he hb] at hr
      cases hr
    · exact fun hks => (readsBack_prepare hver hks b hb).all
  obtain ⟨hks, hb⟩ := PrepareMessage.sendBody_plain hver h
  obtain ⟨query, ks⟩ := m
  obtain rfl : ks = none := hks
  refine iff_of_true (((readsBack_longstring query).cons ?_) b hb).all nofun
  rw [if_neg hver]
  exact .skip (.skip (.nil _))

/-! ## BATCH -/

inductive BatchType
  | logged
  | unlogged
  | counter
deriving DecidableEq

def BatchType.value : BatchType → Int
  | .logged => 0
  | .unlogged => 1
  | .counter => 2

inductive StringOrQueryId
  | string (query : Text)
  | queryId (id : Bytes)
deriving DecidableEq

structure BatchMessage where
  batchType : BatchType
  queries : List (StringOrQueryId × List BoundValue)
  consistencyLevel : Int
  serialConsistencyLevel : Option Int := none
  timestamp : Option Int := none
  keyspace : Option Text := none
deriving DecidableEq

namespace BatchMessage

def writeQuery : StringOrQueryId × List BoundValue → Option Bytes
  | (.string query, params) => writeAll [writeByte 0, writeLongstring (utf8Encode query), writeValues params]
  | (.queryId id, params) => writeAll [writeByte 1, writeString id, writeValues params]

def flags (m : BatchMessage) (version : Nat) : Option Nat := do
  let flags ← setFlag 0 (nonzero m.serialConsistencyLevel).isSome true withSerialConsistencyFlag
  let flags ← setFlag flags m.timestamp.isSome true protocolTimestamp
  setFlag flags (nonempty m.keyspace).isSome (usesKeyspaceFlag version) withKeyspaceFlag

def writeOptions (m : BatchMessage) (version : Nat) : Option Bytes := do
  let flags ← m.flags version
  writeAll [
    if usesIntQueryFlags version then writeInt flags else writeByte flags,
    writeSome (nonzero m.serialConsistencyLevel) writeConsistencyLevel,
    writeSome m.timestamp writeLong,
    if usesKeyspaceFlag version then writeSome m.keyspace fun keyspace => writeString (utf8Encode keyspace) else some []]

def sendBody (m : BatchMessage) (version : Nat) : Option Bytes := writeAll [
  writeByte m.batchType.value,
  writeShort m.queries.length,
  writeAll (m.queries.map writeQuery),
  writeConsistencyLevel m.consistencyLevel,
  if 3 ≤ version then m.writeOptions version else some []]

end BatchMessage

def readBatchType : Reader σ BatchType := do
  match ← readUnsigned 1 with
  | 0 => return .logged
  | 1 => return .unlogged
  | 2 => return .counter
  | _ => failure

def readBatchQuery : Reader σ (StringOrQueryId × List BoundValue) := do
  match ← readUnsigned 1 with
  | 0 => return (.string (← readLongstring), ← readValues)
  | 1 => return (.queryId (← readBinaryString), ← readValues)
  | _ => failure

def readBatch (version : Nat) : Reader σ BatchMessage := do
  let batchType ← readBatchType
  let n ← readShort
  let queries ← times n.toNat readBatchQuery
  let consistency ← readShort
  if 3 ≤ version then
    let flags ← readFlags version
    let serialConsistency ← onlyIf (hasFlag flags 0x10) readShort
    let timestamp ← onlyIf (hasFlag flags 0x20) readLong
    let keyspace ← onlyIf (hasFlag flags 0x80) readString
    return ⟨batchType, queries, consistency, serialConsistency, timestamp, keyspace⟩
  else return ⟨batchType, queries, consistency, none, none, none⟩

theorem readsBack_batchType (t : BatchType) : ReadsBack (writeByte t.value) (readBatchType : Reader σ BatchType) t := by
  cases t with
  | logged | unlogged | counter => exact (readsBack_signed (by decide)).then (.pure _)

theorem readsBack_batchQuery (q : StringOrQueryId × List BoundValue) :
    ReadsBack (BatchMessage.writeQuery q) (readBatchQuery : Reader σ _) q := by
  obtain ⟨query | id, params⟩ := q
  · exact (readsBack_signed (by decide)).cons ((readsBack_longstring query).cons ((readsBack_values params).cons (.nil _)))
  · exact (readsBack_signed (by decide)).cons ((readsBack_binaryString id).cons ((readsBack_values params).cons (.nil _)))

theorem readsBack_batchFlags {flags version : Nat} :
    ReadsBack (if usesIntQueryFlags version then writeInt flags else writeByte flags) (readFlags version : Reader σ Int) flags := by
  unfold readFlags usesIntQueryFlags
  by_cases h : 5 ≤ version
  · rw [if_pos (decide_eq_true h), if_pos h]
    exact readsBack_signed (Int.natCast_nonneg _)
  rw [if_neg (by simpa using h), if_neg h]
  exact readsBack_signed (Int.natCast_nonneg _)

namespace BatchMessage

def fields (m : BatchMessage) : BatchMessage := { m with serialConsistencyLevel := nonzero m.serialConsistencyLevel }

def received (m : BatchMessage) (version : Nat) : BatchMessage :=
  if 3 ≤ version then { m.fields with timestamp := m.timestamp.map asLong, keyspace := nonempty m.keyspace }
  else { m with serialConsistencyLevel := none, timestamp := none, keyspace := none }

def unread (m : BatchMessage) (version : Nat) : Bytes := if 5 ≤ version ∧ m.keyspace = some [] then [0, 0] else []

variable {flags version : Nat} {m : BatchMessage}

theorem hasFlag_flags (h : m.flags version = some flags) :
    hasFlag flags 0x10 = (nonzero m.serialConsistencyLevel).isSome ∧ hasFlag flags 0x20 = m.timestamp.isSome ∧
      hasFlag flags 0x80 = (nonempty m.keyspace).isSome ∧
      ((nonempty m.keyspace).isSome → usesKeyspaceFlag version) := by
  simp only [BatchMessage.flags, Option.bind_eq_bind, Option.bind_eq_some_iff] at h
  obtain ⟨_, h₁, _, h₂, h₃⟩ := h
  obtain ⟨-, rfl⟩ := setFlag_eq_some h₁
  obtain ⟨-, rfl⟩ := setFlag_eq_some h₂
  obtain ⟨hsup, rfl⟩ := setFlag_eq_some h₃
  rw [← and_assoc, ← and_assoc]
  refine ⟨?_, hsup⟩
  generalize (nonzero m.serialConsistencyLevel).isSome = a
  generalize m.timestamp.isSome = b
  generalize (nonempty m.keyspace).isSome = c
  revert a b c
  decide

theorem leaves_keyspace (h : m.flags version = some flags) {f : Option Text → Reader σ BatchMessage}
    {c : BatchMessage} (hf : Consumes (f (nonempty m.keyspace)) [] c) :
    Leaves (writeAll [if usesKeyspaceFlag version then writeSome m.keyspace fun ks => writeString (utf8Encode ks)
      else some []]) (onlyIf (hasFlag flags 0x80) readString >>= f) c (m.unread version) := by
  obtain ⟨-, -, hfl, hsup⟩ := hasFlag_flags h
  rw [hfl]
  cases hks : m.keyspace with
  | none =>
    have hu : m.unread version = [] := by simp [unread, hks]
    rw [hks] at hf
    rw [hu]
    split <;> exact .unread hf []
  | some ks =>
    rw [hks] at hf hsup
    cases ks with
    | nil =>
      have hu : m.unread version = if usesKeyspaceFlag version then [0, 0] else [] := by
        simp [unread, hks, usesKeyspaceFlag]
      rw [hu]
      split
      · exact .unread hf [0, 0]
      · exact .unread hf []
    | cons first rest =>
      have hu : m.unread version = [] := by simp [unread, hks]
      rw [if_pos (hsup rfl), hu]
      exact (ReadsBack.optional rfl readsBack_string).leaves (.unread hf [])

theorem leaves_options (hver : 3 ≤ version) : Leaves (m.writeOptions version) (do
      let flags ← readFlags version
      let serialConsistency ← onlyIf (hasFlag flags 0x10) readShort
      let timestamp ← onlyIf (hasFlag flags 0x20) readLong
      let keyspace ← onlyIf (hasFlag flags 0x80) readString
      return ⟨m.batchType, m.queries, m.consistencyLevel, serialConsistency, timestamp, keyspace⟩ : Reader σ BatchMessage)
      (m.received version) (m.unread version) := by
  intro b hb
  obtain ⟨flags, hf, hb⟩ := Option.bind_eq_some_iff.mp hb
  obtain ⟨hser, ht, -, -⟩ := hasFlag_flags hf
  refine (readsBack_batchFlags.leaves ?_) b hb
  refine (ReadsBack.optional hser readsBack_short).leaves ?_
  refine (ReadsBack.optional_map ht readsBack_long).leaves ?_
  refine leaves_keyspace hf ?_
  rw [received, if_pos hver]
  exact .pure _

theorem leaves_body (m : BatchMessage) (version : Nat) :
    Leaves (m.sendBody version) (readBatch version : Reader σ _) (m.received version) (m.unread version) := by
  refine (readsBack_batchType m.batchType).leaves ((readsBack_short _).leaves ?_)
  refine (ReadsBack.times readsBack_batchQuery m.queries).leaves ((readsBack_short _).leaves ?_)
  rw [writeAll_singleton]
  by_cases hver : 3 ≤ version
  · rw [if_pos hver, if_pos hver]
    exact leaves_options hver
  rw [if_neg hver, if_neg hver, received, if_neg hver, unread, if_neg (by omega)]
  exact .unread (.pure _) []

theorem readBatch_sendBody {b : Bytes} (h : m.sendBody version = some b) :
    readBatch version (b, ()) = some (m.received version, m.unread version, ()) := by
  obtain ⟨b', rfl, hb'⟩ := leaves_body (σ := Unit) m version b h
  obtain ⟨_, hrun⟩ := hb' _ ()
  exact hrun

/-- No empty keyspace name and no large timestamp; version 2 has no options. -/
def Sendable (m : BatchMessage) (version : Nat) : Prop :=
  if 3 ≤ version then m.keyspace ≠ some [] ∧ FitsLong m.timestamp
  else nonzero m.serialConsistencyLevel = none ∧ m.timestamp = none ∧ m.keyspace = none

theorem received_iff (m : BatchMessage) {version : Nat} :
    m.received version = m.fields ∧ m.unread version = [] ↔ m.Sendable version := by
  unfold received unread Sendable fields
  by_cases hver : 3 ≤ version
  · simp only [hver, ← map_asLong_iff]
    cases m.keyspace with
    | none => simp [nonempty]
    | some ks => cases ks <;> simp [nonempty]
  have hf : ¬ 5 ≤ version := by omega
  simp [hver, hf, eq_comm]

end BatchMessage

/-- PREPARE and BATCH are read back exactly without an empty keyspace, or fields lost. -/
theorem batch_prepare_bodies_iff (version : Nat) : (∀ (m : PrepareMessage) (b : Bytes), m.sendBody version = some b →
      (readPrepare version (b, ()) = some (m, [], ()) ↔ m.keyspace ≠ some [])) ∧
    ∀ (m : BatchMessage) (b : Bytes), m.sendBody version = some b →
      (readBatch version (b, ()) = some (m.fields, [], ()) ↔ m.Sendable version) := by
  refine ⟨fun m b h => readPrepare_iff h, fun m b h => ?_⟩
  rw [BatchMessage.readBatch_sendBody h, ← m.received_iff]
  simp

def mixedBatch (keyspace : Option Text) : BatchMessage where
  batchType := .counter
  queries := [(.string ['Q'], []), (.queryId [9, 9], [.null, .unset, .bytes [5]])]
  consistencyLevel := 6
  serialConsistencyLevel := some 8
  timestamp := some 7
  keyspace := keyspace

theorem batch_prepare_bodies_named : ∃ b, (mixedBatch (some ['k'])).sendBody 5 = some b ∧
    readBatch 5 (b, ()) = some (mixedBatch (some ['k']), [], ()) := by
  obtain ⟨b, hb⟩ := Option.isSome_iff_exists.mp (show ((mixedBatch (some ['k'])).sendBody 5).isSome by decide +kernel)
  exact ⟨b, hb, ((batch_prepare_bodies_iff 5).2 _ b hb).mpr (by simp [BatchMessage.Sendable, FitsLong, mixedBatch])⟩

/-- PREPARE has only the flag, BATCH only the name. -/
theorem batch_prepare_bodies_empty :
    (PrepareMessage.mk ['Q'] (some [])).sendBody 5 = some [0, 0, 0, 1, 81, 0, 0, 0, 1] ∧
      readPrepare 5 ([0, 0, 0, 1, 81, 0, 0, 0, 1], ()) = none ∧
      (BatchMessage.mk .logged [] 1 none none (some [])).sendBody 5 = some [0, 0, 0, 0, 1, 0, 0, 0, 0, 0, 0] ∧
      readBatch 5 ([0, 0, 0, 0, 1, 0, 0, 0, 0, 0, 0], ()) = some (BatchMessage.mk .logged [] 1 none none none, [0, 0], ()) := by
  decide +kernel

end CqlDriver.Protocol
