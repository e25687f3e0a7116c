import CqlDriver.Types.Marshal
import CqlDriver.Types.SortedSet

/-!
# CQL values and their encoding

`to_binary` and `from_binary` of the type classes, for the scalars whose values are plain Python
objects and for all the parameterized types but the composites. `none` is an exception. A value of
another Python class than the type's own is not encoded here.
-/

namespace CqlDriver.Types

open Lib

/-! ## Python values -/

inductive Value
  | none
  | str (s : List Char)
  | bytes (b : Bytes)
  | bool (b : Bool)
  | int (n : Int)
  | uuid (n : BitVec 128)
  | list (vs : List Value)
  /-- A set or a `SortedSet`, in the order of iteration. -/
  | set (vs : List Value)
  | map (kvs : List (Value × Value))
  | tuple (vs : List Value)

mutual

/-- `SortedSet`s and `OrderedMap`s compare their items in order. -/
def pyEq : Value → Value → Bool
  | .none, .none => true
  | .str a, .str b => a = b
  | .bytes a, .bytes b => a = b
  | .bool a, .bool b => a = b
  | .int a, .int b => a = b
  | .uuid a, .uuid b => a = b
  | .list as, .list bs | .set as, .set bs | .tuple as, .tuple bs => pyEqList as bs
  | .map as, .map bs => pyEqPairs as bs
  | _, _ => false

def pyEqList : List Value → List Value → Bool
  | [], [] => true
  | a :: as, b :: bs => pyEq a b && pyEqList as bs
  | _, _ => false

def pyEqPairs : List (Value × Value) → List (Value × Value) → Bool
  | [], [] => true
  | (k, a) :: as, (k', b) :: bs => pyEq k k' && pyEq a b && pyEqPairs as bs
  | _, _ => false

end

mutual

/-- For values of one type without sets; `none` is the `TypeError`. -/
def pyLt : Value → Value → Option Bool
  | .str a, .str b => some (a < b)
  | .bytes a, .bytes b => some (a < b)
  | .bool a, .bool b => some (a < b)
  | .int a, .int b => some (a < b)
  | .uuid a, .uuid b => some (a < b)
  | .list as, .list bs | .tuple as, .tuple bs => pyLtList as bs
  | _, _ => Option.none

def pyLtList : List Value → List Value → Option Bool
  | [], [] => some false
  | [], _ :: _ => some true
  | _ :: _, [] => some false
  | a :: as, b :: bs => if pyEq a b then pyLtList as bs else pyLt a b

end

/-! ## Types -/

inductive CqlType
  | ascii
  | text
  | blob
  | boolean
  | tinyint
  | smallint
  | int
  | bigint
  | varint
  | uuid
  | list (t : CqlType)
  | set (t : CqlType)
  | map (k v : CqlType)
  | tuple (ts : List CqlType)
  | udt (ts : List CqlType)
  | frozen (t : CqlType)
  | reversed (t : CqlType)

def emptyBinaryOk : CqlType → Bool
  | .ascii | .text | .blob => true
  | _ => false

/-- Inside a collection the encoding is at least that of version 3. -/
def innerProto (p : Nat) : Nat := max 3 p

def lengthWidth (p : Nat) : Nat := if p ≥ 3 then 4 else 2

def packLength (p : Nat) (n : Nat) : Option Bytes := if p ≥ 3 then packSigned 4 n else packUnsigned 2 n

def unpackLength (p : Nat) (b : Bytes) : Option Int := if p ≥ 3 then unpackSigned 4 b else unpackUnsigned 2 b

def utf8Encode (s : List Char) : Bytes := s.flatMap String.utf8EncodeChar

def utf8Decode (b : Bytes) : Option (List Char) := b.toByteArray.utf8Decode?.map Array.toList

theorem utf8Decode_utf8Encode (s : List Char) : utf8Decode (utf8Encode s) = some s := by
  have hb : (utf8Encode s).toByteArray = s.utf8Encode := rfl
  rw [utf8Decode, hb]
  simp

/-! ## Writing -/

def toBinaryWith (serialize : Value → Nat → Option Bytes) (v : Value) (p : Nat) : Option Bytes :=
  match v with
  | .none => some []
  | v => serialize v p

def sizedItem (p : Nat) (item : Option Bytes) : Option Bytes := do
  let itemBytes ← item
  return (← packLength p itemBytes.length) ++ itemBytes

def serializeItems (p : Nat) (items : List (Option Bytes)) : Option Bytes := do
  let parts ← items.mapM (sizedItem p)
  return parts.flatten

mutual

def serialize : CqlType → Value → Nat → Option Bytes
  | .ascii, .str s, _ => if s.all (fun c => c.toNat < 128) then some (s.map fun c => UInt8.ofNat c.toNat) else none
  | .text, .str s, _ => some (utf8Encode s)
  | .blob, .bytes b, _ => some b
  | .boolean, .bool b, _ => packSigned 1 (if b then 1 else 0)
  | .tinyint, .int n, _ => packSigned 1 n
  | .smallint, .int n, _ => packSigned 2 n
  | .int, .int n, _ => packSigned 4 n
  | .bigint, .int n, _ => packSigned 8 n
  | .varint, .int n, _ => some (varintPack n)
  | .uuid, .uuid n, _ => some (beEncode 16 n.toNat)
  | .list t, .list vs, p | .set t, .set vs, p => do
    let count ← packLength p vs.length
    let items ← serializeItems p (vs.map fun v => toBinaryWith (serialize t) v (innerProto p))
    return count ++ items
  | .map k t, .map kvs, p => do
    let count ← packLength p kvs.length
    let items ← serializeItems p (kvs.flatMap fun kv =>
      [toBinaryWith (serialize k) kv.1 (innerProto p), toBinaryWith (serialize t) kv.2 (innerProto p)])
    return count ++ items
  | .tuple ts, .tuple vs, p => if ts = [] ∨ vs.length > ts.length then none else serializeTuple ts vs p
  -- `val[i]` fails for a missing field.
  | .udt ts, .tuple vs, p => if ts = [] ∨ vs.length < ts.length then none else serializeTuple ts vs p
  | .frozen t, v, p | .reversed t, v, p => toBinaryWith (serialize t) v p
  | _, _, _ => none

def serializeTuple : List CqlType → List Value → Nat → Option Bytes
  | t :: ts, v :: vs, p => do
    let item ← match v with
      | .none => packSigned 4 (-1)
      | v => sizedItem 3 (serialize t v (innerProto p))
    return item ++ (← serializeTuple ts vs p)
  | _, _, _ => some []

end

def toBinary (t : CqlType) (v : Value) (p : Nat) : Option Bytes := toBinaryWith (serialize t) v p

/-! ## Reading -/

def fromBinaryWith (emptyOk : Bool) (deserialize : Bytes → Nat → Option Value) (byts : Option Bytes) (p : Nat) :
    Option Value :=
  match byts with
  | none => some .none
  | some b => if b = [] ∧ emptyOk = false then some .none else deserialize b p

def readItem (p : Nat) (byts : Bytes) (pos : Int) : Option (Bytes × Int) := do
  let itemlen ← unpackLength p (slice byts pos (pos + lengthWidth p))
  let start := pos + lengthWidth p
  return (slice byts start (start + itemlen), start + itemlen)

def readItems (p : Nat) (item : Bytes → Option Value) (byts : Bytes) : Nat → Int → Option (List Value)
  | 0, _ => some []
  | n + 1, pos => do
    let (b, pos) ← readItem p byts pos
    return (← item b) :: (← readItems p item byts n pos)

def readPairs (p : Nat) (key value : Bytes → Option Value) (byts : Bytes) :
    Nat → Int → Option (List (Value × Value))
  | 0, _ => some []
  | n + 1, pos => do
    let (kb, pos) ← readItem p byts pos
    let (vb, pos) ← readItem p byts pos
    return (← key kb, ← value vb) :: (← readPairs p key value byts n pos)

mutual

def deserialize : CqlType → Bytes → Nat → Option Value
  | .ascii, b, _ => if b.all (· < 128) then some (.str (b.map fun x => Char.ofNat x.toNat)) else none
  | .text, b, _ => (utf8Decode b).map .str
  | .blob, b, _ => some (.bytes b)
  | .boolean, b, _ => (unpackSigned 1 b).map fun n => .bool (n ≠ 0)
  | .tinyint, b, _ => (unpackSigned 1 b).map .int
  | .smallint, b, _ => (unpackSigned 2 b).map .int
  | .int, b, _ => (unpackSigned 4 b).map .int
  | .bigint, b, _ => (unpackSigned 8 b).map .int
  | .varint, b, _ => (varintUnpack b).map .int
  | .uuid, b, _ => if b.length = 16 then some (.uuid (BitVec.ofNat 128 (beDecode b))) else none
  | .list t, b, p => do
    let count ← unpackLength p (b.take (lengthWidth p))
    let vs ← readItems p (fun x => fromBinaryWith (emptyBinaryOk t) (deserialize t) (some x) (innerProto p))
      b count.toNat (lengthWidth p)
    return .list vs
  | .set t, b, p => do
    let count ← unpackLength p (b.take (lengthWidth p))
    let vs ← readItems p (fun x => fromBinaryWith (emptyBinaryOk t) (deserialize t) (some x) (innerProto p))
      b count.toNat (lengthWidth p)
    return .set (← SortedSet.update pyLt pyEq [] vs)
  | .map k t, b, p => do
    let count ← unpackLength p (b.take (lengthWidth p))
    let kvs ← readPairs p (fun x => fromBinaryWith (emptyBinaryOk k) (deserialize k) (some x) (innerProto p))
      (fun x => fromBinaryWith (emptyBinaryOk t) (deserialize t) (some x) (innerProto p))
      b count.toNat (lengthWidth p)
    return .map kvs
  | .tuple ts, b, p | .udt ts, b, p => if ts = [] then none else (deserializeTuple ts b 0 p).map .tuple
  | .frozen t, b, p | .reversed t, b, p => fromBinaryWith (emptyBinaryOk t) (deserialize t) (some b) p

/-- Missing items at the end are `None`. -/
def deserializeTuple : List CqlType → Bytes → Int → Nat → Option (List Value)
  | [], _, _, _ => some []
  | t :: ts, b, pos, p =>
    if pos = b.length then some (List.replicate (ts.length + 1) .none)
    else do
      let itemlen ← unpackSigned 4 (slice b pos (pos + 4))
      let pos := pos + 4
      let item := if itemlen ≥ 0 then some (slice b pos (pos + itemlen)) else none
      let v ← fromBinaryWith (emptyBinaryOk t) (deserialize t) item (innerProto p)
      return v :: (← deserializeTuple ts b (if itemlen ≥ 0 then pos + itemlen else pos) p)

end

def fromBinary (t : CqlType) (byts : Option Bytes) (p : Nat) : Option Value :=
  fromBinaryWith (emptyBinaryOk t) (deserialize t) byts p

end CqlDriver.Types
