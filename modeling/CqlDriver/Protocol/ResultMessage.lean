import CqlDriver.Lib.Dict
import CqlDriver.Protocol.Primitives

/-!
# `ResultMessage`

`recv_body` of a RESULT message with the readers it calls, in pure Python.
-/

namespace CqlDriver.Protocol

open Lib Lib.Reader CqlDriver.Types

/-! ## Type classes -/

inductive SimpleType
  | ascii
  | long
  | bytes
  | boolean
  | counterColumn
  | decimal
  | double
  | float
  | int32
  | utf8
  | date
  | uuid
  | varchar
  | integer
  | timeUUID
  | inetAddress
  | simpleDate
  | time
  | short
  | byte
  | duration
  deriving DecidableEq

/-- `M` are the classes that the user has registered for user types. -/
inductive ColType (M : Type)
  | simple (s : SimpleType)
  | list (t : ColType M)
  | set (t : ColType M)
  | map (k v : ColType M)
  | tuple (ts : List (ColType M))
  | user (keyspace typename : Text) (fieldnames : List Text) (subtypes : List (ColType M)) (mappedClass : Option M)
  | custom (classname : Text)

inductive TypeClass
  | custom
  | simple (s : SimpleType)
  | list
  | map
  | set
  | user
  | tuple

def typeCodes : List (Int × TypeClass) :=
  [(0x0000, .custom), (0x0001, .simple .ascii), (0x0002, .simple .long), (0x0003, .simple .bytes),
    (0x0004, .simple .boolean), (0x0005, .simple .counterColumn), (0x0006, .simple .decimal), (0x0007, .simple .double),
    (0x0008, .simple .float), (0x0009, .simple .int32), (0x000A, .simple .utf8), (0x000B, .simple .date),
    (0x000C, .simple .uuid), (0x000D, .simple .varchar), (0x000E, .simple .integer), (0x000F, .simple .timeUUID),
    (0x0010, .simple .inetAddress), (0x0011, .simple .simpleDate), (0x0012, .simple .time), (0x0013, .simple .short),
    (0x0014, .simple .byte), (0x0015, .simple .duration), (0x0020, .list), (0x0021, .map), (0x0022, .set),
    (0x0030, .user), (0x0031, .tuple)]

section

variable {M V : Type}

/-! ## `UserType._cache` -/

structure UdtClass (M : Type) where
  keyspace : Text
  typename : Text
  fieldnames : List Text
  subtypes : List (ColType M)
  mappedClass : Option M

def UdtClass.type (c : UdtClass M) : ColType M := .user c.keyspace c.typename c.fieldnames c.subtypes c.mappedClass

/-- Every class is under its own name. -/
structure UdtCache (M : Type) where
  classes : Dict (Text × Text) (UdtClass M)
  keyed : ∀ key c, classes.get? key = some c → (c.keyspace, c.typename) = key

def UdtCache.put (cache : UdtCache M) (c : UdtClass M) : UdtCache M where
  classes := cache.classes.set (c.keyspace, c.typename) c
  keyed := by
    intro key c' h
    rw [Dict.get?_set] at h
    split at h
    · rename_i hkey
      rw [← Option.some.inj h, hkey]
    · exact cache.keyed key c' h

structure Env (M V : Type) where
  userTypeMap : Dict Text (Dict Text M)
  lookupCasstype : Text → Option (ColType M)
  /-- `==` of two tuples of classes. -/
  sameTypes : List (ColType M) → List (ColType M) → Bool
  sameTypes_eq : ∀ ts ts', sameTypes ts ts' = true → ts = ts'
  emptyBinaryOk : ColType M → Bool
  supportEmptyValues : ColType M → Bool
  deserialize : ColType M → Bytes → Nat → Option V
  lower : Text → Text

variable (env : Env M V)

def cachedOrNew (cache : UdtCache M) (keyspace udtName : Text) (fieldNames : List Text) (fieldTypes : List (ColType M)) :
    UdtClass M :=
  match cache.classes.get? (keyspace, udtName) with
  | some c =>
    if c.fieldnames = fieldNames ∧ env.sameTypes c.subtypes fieldTypes then c
    else ⟨keyspace, udtName, fieldNames, fieldTypes, none⟩
  | none => ⟨keyspace, udtName, fieldNames, fieldTypes, none⟩

def makeUdtClass (keyspace udtName : Text) (fieldNames : List Text) (fieldTypes : List (ColType M)) :
    Reader (UdtCache M) (ColType M) := fun (input, cache) =>
  if fieldNames.length = fieldTypes.length then
    let c := cachedOrNew env cache keyspace udtName fieldNames fieldTypes
    let c := { c with mappedClass := (env.userTypeMap.get? keyspace).bind (·.get? udtName) }
    some (c.type, input, cache.put c)
  else none

/-! ## Types and metadata -/

/-- For types that are not nested deeper than given. -/
def readTypeDepth : Nat → Reader (UdtCache M) (ColType M)
  | 0 => failure
  | depth + 1 => do
    let optid ← readShort
    match typeCodes.lookup optid with
    | none => failure
    | some .list => return .list (← readTypeDepth depth)
    | some .set => return .set (← readTypeDepth depth)
    | some .map => do
      let keysubtype ← readTypeDepth depth
      let valsubtype ← readTypeDepth depth
      return .map keysubtype valsubtype
    | some .tuple => do
      let numItems ← readShort
      return .tuple (← times numItems.toNat (readTypeDepth depth))
    | some .user => do
      let ks ← readString
      let udtName ← readString
      let numFields ← readShort
      let fields ← times numFields.toNat do
        let name ← readString
        let type ← readTypeDepth depth
        return (name, type)
      -- `zip(*())` has nothing to unpack.
      if fields.isEmpty then failure
      makeUdtClass env ks udtName (fields.map Prod.fst) (fields.map Prod.snd)
    | some .custom => do
      let classname ← readString
      env.lookupCasstype classname
    | some (.simple s) => return .simple s

/-- The input is longer than the type is deep. -/
def readType : Reader (UdtCache M) (ColType M) := fun s => readTypeDepth env s.1.length s

structure Column (M : Type) where
  keyspace : Text
  table : Text
  name : Text
  type : ColType M

def flagsGlobalTablesSpec : Int := 0x0001

def hasMorePagesFlag : Int := 0x0002

def noMetadataFlag : Int := 0x0004

def metadataIdFlag : Int := 0x0008

/-- Those of the global table, or else they come with the column. -/
def readTableNames {σ : Type} : Option (Text × Text) → Reader σ (Text × Text)
  | some spec => return spec
  | none => do
    let colksname ← readString
    let colcfname ← readString
    return (colksname, colcfname)

def readColumn (glob : Option (Text × Text)) : Reader (UdtCache M) (Column M) := do
  let names ← readTableNames glob
  let colname ← readString
  let coltype ← readType env
  return ⟨names.1, names.2, colname, coltype⟩

def readColumns (glob : Option (Text × Text)) (colcount : Int) : Reader (UdtCache M) (List (Column M)) :=
  times colcount.toNat (readColumn env glob)

def readGlobalSpec (flags : Int) : Reader (UdtCache M) (Option (Text × Text)) :=
  if hasFlag flags flagsGlobalTablesSpec then do
    let ks ← readString
    let cf ← readString
    return some (ks, cf)
  else return none

def recvResultsMetadata : Reader (UdtCache M) (Option Bytes × List (Column M) × Option Bytes) := do
  let flags ← readInt
  let colcount ← readInt
  let pagingState ← onlyIf (hasFlag flags hasMorePagesFlag) readBinaryLongstring
  let resultMetadataId ← onlyIf (hasFlag flags metadataIdFlag) readBinaryString
  if hasFlag flags noMetadataFlag then return (pagingState, [], resultMetadataId)
  let glob ← readGlobalSpec flags
  let columnMetadata ← readColumns env glob colcount
  return (pagingState, columnMetadata, resultMetadataId)

/-! ## Rows -/

inductive Cell (V : Type)
  | none
  | empty
  | value (v : V)

def fromBinary (t : ColType M) (byts : Option Bytes) (p : Nat) : Option (Cell V) :=
  match byts with
  | none => some .none
  | some byts =>
    if byts = [] ∧ env.emptyBinaryOk t = false then some (if env.supportEmptyValues t then .empty else .none)
    else (env.deserialize t byts p).map .value

def recvRow {σ : Type} (colcount : Nat) : Reader σ (List (Option Bytes)) := times colcount readValue

inductive Results (M V : Type)
  | void
  | rows (colnames : List Text) (parsedRows : List (List (Cell V)))
  | setKeyspace (name : Text)
  | prepared (queryId : Bytes) (bindMetadata : List (Column M)) (pkIndexes : Option (List Int))
      (resultMetadata : Option (List (Column M))) (resultMetadataId : Option Bytes)
  | schemaChange (changeType target keyspace : Text) (object : Option (Text × Text × Option (List Text)))

/-- An exception while decoding is raised again with the name of the column. -/
def recvResultsRows (p : Nat) (resultMetadata : Option (List (Column M))) :
    Reader (UdtCache M) (Option Bytes × List (ColType M) × Results M V × Option Bytes) := do
  let (pagingState, columnMetadata, resultMetadataId) ← recvResultsMetadata env
  let columnMetadata ← (if columnMetadata.isEmpty then resultMetadata else some columnMetadata : Option (List (Column M)))
  let rowcount ← readInt
  let rows ← times rowcount.toNat (recvRow columnMetadata.length)
  let colnames := columnMetadata.map Column.name
  let coltypes := columnMetadata.map Column.type
  let parsedRows ← (rows.mapM fun row => (coltypes.zip row).mapM fun c => fromBinary env c.1 c.2 p :
    Option (List (List (Cell V))))
  return (pagingState, coltypes, .rows colnames parsedRows, resultMetadataId)

/-! ## The other kinds -/

def recvPreparedMetadata (p : Nat) :
    Reader (UdtCache M) (List (Column M) × Option (List Int) × Option (List (Column M)) × Option Bytes) := do
  let flags ← readInt
  let colcount ← readInt
  let pkIndexes ← onlyIf (p ≥ 4) do
    let numPkIndexes ← readInt
    times numPkIndexes.toNat readShort
  let glob ← readGlobalSpec flags
  let bindMetadata ← readColumns env glob colcount
  if p ≥ 2 then do
    let (_, resultMetadata, resultMetadataId) ← recvResultsMetadata env
    return (bindMetadata, pkIndexes, some resultMetadata, resultMetadataId)
  else return (bindMetadata, pkIndexes, none, none)

def recvResultsPrepared (p : Nat) : Reader (UdtCache M) (Results M V) := do
  let queryId ← readBinaryString
  let resultMetadataId ← onlyIf (p ≥ 5) readBinaryString
  let (bindMetadata, pkIndexes, resultMetadata, _) ← recvPreparedMetadata env p
  return .prepared queryId bindMetadata pkIndexes resultMetadata resultMetadataId

/-- Functions and aggregates come with argument types. -/
def recvSchemaChange (p : Nat) : Reader (UdtCache M) (Results M V) := do
  let changeType ← readString
  if p ≥ 3 then do
    let target ← readString
    let keyspace ← readString
    if target = "KEYSPACE".toList then return .schemaChange changeType target keyspace none
    else do
      let targetName ← readString
      if target = "FUNCTION".toList ∨ target = "AGGREGATE".toList then do
        let count ← readShort
        let argumentTypes ← times count.toNat readString
        return .schemaChange changeType target keyspace (some (env.lower target, targetName, some argumentTypes))
      else return .schemaChange changeType target keyspace (some (env.lower target, targetName, none))
  else do
    let keyspace ← readString
    let table ← readString
    if table.isEmpty then return .schemaChange changeType "KEYSPACE".toList keyspace none
    else return .schemaChange changeType "TABLE".toList keyspace (some ("table".toList, table, none))

structure ResultMessage (M V : Type) where
  kind : Int
  results : Results M V
  pagingState : Option Bytes
  colTypes : Option (List (ColType M))

def recvBody (p : Nat) (resultMetadata : Option (List (Column M))) : Reader (UdtCache M) (ResultMessage M V) := do
  let kind ← readInt
  if kind = 0x0001 then return ⟨kind, .void, none, none⟩
  else if kind = 0x0002 then do
    let (pagingState, colTypes, results, _) ← recvResultsRows env p resultMetadata
    return ⟨kind, results, pagingState, some colTypes⟩
  else if kind = 0x0003 then do
    let ksname ← readString
    return ⟨kind, .setKeyspace ksname, none, none⟩
  else if kind = 0x0004 then do
    let results ← recvResultsPrepared env p
    return ⟨kind, results, none, none⟩
  else if kind = 0x0005 then do
    let results ← recvSchemaChange env p
    return ⟨kind, results, none, none⟩
  else failure

end

end CqlDriver.Protocol
