import CqlDriver.Decoding.Timestamp
import CqlDriver.Lib.Bytes
import CqlDriver.Lib.Dict

/-! # Types and their values -/

namespace CqlDriver.Decoding

open Lib

/-! ## Classes -/

inductive Scalar
  | bytes
  | decimal
  | uuid
  | boolean
  | byte
  | ascii
  | float
  | double
  | long
  | int32
  | integer
  | inetAddress
  | counterColumn
  | date
  | timestamp
  | timeUUID
  | simpleDate
  | short
  | time
  | utf8
  | varchar
  deriving DecidableEq

def Scalar.name : Scalar → String
  | .bytes => "BytesType"
  | .decimal => "DecimalType"
  | .uuid => "UUIDType"
  | .boolean => "BooleanType"
  | .byte => "ByteType"
  | .ascii => "AsciiType"
  | .float => "FloatType"
  | .double => "DoubleType"
  | .long => "LongType"
  | .int32 => "Int32Type"
  | .integer => "IntegerType"
  | .inetAddress => "InetAddressType"
  | .counterColumn => "CounterColumnType"
  | .date => "DateType"
  | .timestamp => "TimestampType"
  | .timeUUID => "TimeUUIDType"
  | .simpleDate => "SimpleDateType"
  | .short => "ShortType"
  | .time => "TimeType"
  | .utf8 => "UTF8Type"
  | .varchar => "VarcharType"

/-- `deserializer` is the base class, whose `deserialize` raises. -/
inductive DesClass
  | deserializer
  | bytes
  | bytesByteArray
  | decimal
  | uuid
  | boolean
  | byte
  | ascii
  | float
  | double
  | long
  | int32
  | integer
  | inetAddress
  | date
  | simpleDate
  | short
  | time
  | utf8
  | list
  | set
  | map
  | tuple
  | user
  | composite
  | reversed
  | frozen
  | generic
  deriving DecidableEq

/-- What `globals()` has under `'Des' + name`. -/
def classes : List (String × DesClass) :=
  [("erializer", .deserializer), ("BytesType", .bytes), ("BytesTypeByteArray", .bytesByteArray),
    ("DecimalType", .decimal), ("UUIDType", .uuid), ("BooleanType", .boolean), ("ByteType", .byte),
    ("AsciiType", .ascii), ("FloatType", .float), ("DoubleType", .double), ("LongType", .long),
    ("Int32Type", .int32), ("IntegerType", .integer), ("InetAddressType", .inetAddress),
    ("CounterColumnType", .long), ("DateType", .date), ("SimpleDateType", .simpleDate), ("ShortType", .short),
    ("TimeType", .time), ("UTF8Type", .utf8), ("VarcharType", .utf8), ("ListType", .list), ("SetType", .set),
    ("MapType", .map), ("TupleType", .tuple), ("UserType", .user), ("CompositeType", .composite),
    ("DynamicCompositeType", .composite), ("ReversedType", .reversed), ("FrozenType", .frozen)]

structure UserType where
  name : String
  /- Whether there is a class for the values, mapped or a named tuple. Else they are plain tuples. -/
  hasClass : Bool
  /- There is a named tuple unless the name is no identifier of Python. -/
  named : hasClass = false → classes.lookup name = none

inductive CqlType
  | scalar (s : Scalar)
  | list (t : CqlType)
  | set (t : CqlType)
  | map (k v : CqlType)
  | tuple (ts : List CqlType)
  | user (u : UserType) (ts : List CqlType)
  | composite (ts : List CqlType)
  | reversed (t : CqlType)
  | frozen (t : CqlType)

namespace CqlType

def subtypes : CqlType → List CqlType
  | .scalar _ => []
  | .list t | .set t | .reversed t | .frozen t => [t]
  | .map k v => [k, v]
  | .tuple ts | .user _ ts | .composite ts => ts

theorem subtypes_induction {motive : CqlType → Prop} (h : ∀ t, (∀ s ∈ t.subtypes, motive s) → motive t) :
    ∀ t, motive t := by
  intro t
  induction hn : sizeOf t using Nat.strong_induction_on generalizing t with
  | _ n ih =>
    subst hn
    apply h
    intro s hs
    refine ih _ ?_ s rfl
    cases t with
    | scalar s => cases hs
    | list t | set t | reversed t | frozen t =>
      obtain rfl := List.mem_singleton.mp hs
      simp
    | map k v =>
      rcases List.mem_pair.mp hs with rfl | rfl <;> rw [map.sizeOf_spec] <;> omega
    | tuple ts | user u ts | composite ts =>
      have hlt : sizeOf s < sizeOf ts := List.sizeOf_lt_of_mem hs
      simp
      omega

def emptyBinaryOk : CqlType → Bool
  | .scalar .bytes | .scalar .ascii | .scalar .utf8 | .scalar .varchar => true
  | _ => false

def withSubtypes (cname : String) (sublist : List String) : String :=
  if sublist = [] then cname else cname ++ "(" ++ ", ".intercalate sublist ++ ")"

mutual

def cassParameterizedType : CqlType → String
  | .scalar s => s.name
  | .list t => withSubtypes "ListType" [cassParameterizedType t]
  | .set t => withSubtypes "SetType" [cassParameterizedType t]
  | .map k v => withSubtypes "MapType" [cassParameterizedType k, cassParameterizedType v]
  | .tuple ts => withSubtypes "TupleType" (cassParameterizedTypes ts)
  | .user _ ts => withSubtypes "UserType" (cassParameterizedTypes ts)
  | .composite ts => withSubtypes "CompositeType" (cassParameterizedTypes ts)
  | .reversed t => withSubtypes "ReversedType" [cassParameterizedType t]
  | .frozen t => withSubtypes "FrozenType" [cassParameterizedType t]

def cassParameterizedTypes : List CqlType → List String
  | [] => []
  | t :: ts => cassParameterizedType t :: cassParameterizedTypes ts

end

/-- A user type has its name in the schema. -/
def name : CqlType → String
  | .user u _ => u.name
  | t => cassParameterizedType t

end CqlType

/-! ## Values -/

inductive Value
  | none
  | empty
  | bytes (b : Bytes)
  | bytearray (b : Bytes)
  | str (s : List Char)
  | bool (b : Bool)
  | int (n : ℤ)
  | float (bits : BitVec 32)
  | double (bits : BitVec 64)
  | decimal (unscaled exponent : ℤ)
  | uuid (b : Bytes)
  | inet (b : Bytes)
  | datetime (d : Datetime)
  | date (days : ℤ)
  | time (nanos : ℤ)
  | list (vs : List Value)
  | set (vs : List Value)
  | map (keyType : CqlType) (version : Nat) (items : List (Value × Value)) (index : Dict Bytes Nat)
  | tuple (vs : List Value)
  | user (u : UserType) (vs : List Value)

structure Env where
  /-- `<` of Python. `none` is a `TypeError`. -/
  lt : Value → Value → Option Bool
  eq : Value → Value → Bool
  supportEmptyValues : CqlType → Bool
  littleEndian : Bool
  rounding : Rounding

structure Entries where
  items : List (Value × Value) := []
  index : Dict Bytes Nat := Dict.empty

def Entries.insertUnchecked (m : Entries) (key : Value) (flatKey : Bytes) (value : Value) : Entries where
  items := m.items ++ [(key, value)]
  index := m.index.set flatKey m.items.length

def UserType.construct (u : UserType) (vs : List Value) : Value := if u.hasClass then .user u vs else .tuple vs

end CqlDriver.Decoding
