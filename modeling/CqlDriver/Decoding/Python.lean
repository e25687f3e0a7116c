import CqlDriver.Decoding.Types
import CqlDriver.Types.Codec

/-!
# `from_binary` in Python

The methods of `cqltypes.py`, for Python 3. `none` is an exception.
-/

namespace CqlDriver.Decoding

open Lib CqlDriver.Types

abbrev Decoder := Option Bytes → Nat → Option Value

namespace Python

variable (env : Env)

def nanosOfDay : ℤ := 86400000000000

def deserializeScalar : Scalar → Bytes → Option Value
  | .bytes, byts => some (.bytes byts)
  | .decimal, byts => do
    let scale ← unpackSigned 4 (byts.take 4)
    let unscaled ← varintUnpack (byts.drop 4)
    return .decimal unscaled (-scale)
  | .uuid, byts | .timeUUID, byts => if byts.length = 16 then some (.uuid byts) else none
  | .boolean, byts => (unpackSigned 1 byts).map fun n => .bool (n ≠ 0)
  | .byte, byts => (unpackSigned 1 byts).map .int
  | .short, byts => (unpackSigned 2 byts).map .int
  | .int32, byts => (unpackSigned 4 byts).map .int
  | .long, byts | .counterColumn, byts => (unpackSigned 8 byts).map .int
  | .integer, byts => (varintUnpack byts).map .int
  | .float, byts => (unpackUnsigned 4 byts).map fun n => .float (BitVec.ofInt 32 n)
  | .double, byts => (unpackUnsigned 8 byts).map fun n => .double (BitVec.ofInt 64 n)
  | .ascii, byts => if byts.all (· < 128) then some (.str (byts.map fun x => Char.ofNat x.toNat)) else none
  | .utf8, byts | .varchar, byts => (utf8Decode byts).map .str
  | .inetAddress, byts => if byts.length = 16 ∨ byts.length = 4 then some (.inet byts) else none
  | .date, byts | .timestamp, byts => do
    let millis ← unpackSigned 8 byts
    let datetime ← Util.datetimeFromTimestamp env.rounding (timestampSeconds env.rounding millis)
    return .datetime datetime
  | .simpleDate, byts => (unpackUnsigned 4 byts).map fun n => .date (n - 2 ^ 31)
  | .time, byts => do
    let nanos ← unpackSigned 8 byts
    if nanos ≥ nanosOfDay then none else return .time nanos

def readItems (p : Nat) (subtype : Decoder) (byts : Bytes) : Nat → ℤ → Option (List Value)
  | 0, _ => some []
  | n + 1, pos => do
    let (item, pos) ← readItem p byts pos
    return (← subtype (some item) (innerProto p)) :: (← readItems p subtype byts n pos)

def readEntries (p : Nat) (keyType valueType : Decoder) (byts : Bytes) : Nat → ℤ → Entries → Option Entries
  | 0, _, themap => some themap
  | n + 1, pos, themap => do
    let (keybytes, pos) ← readItem p byts pos
    let (valbytes, pos) ← readItem p byts pos
    let key ← keyType (some keybytes) (innerProto p)
    let val ← valueType (some valbytes) (innerProto p)
    readEntries p keyType valueType byts n pos (themap.insertUnchecked key keybytes val)

def readFields (byts : Bytes) (p : Nat) : List Decoder → ℤ → Option (List Value)
  | [], _ => some []
  | subtype :: rest, pos =>
    if pos = byts.length then some []
    else do
      let itemlen ← unpackSigned 4 (slice byts pos (pos + 4))
      let pos := pos + 4
      let item := if itemlen ≥ 0 then some (slice byts pos (pos + itemlen)) else none
      let v ← subtype item (innerProto p)
      return v :: (← readFields byts p rest (if itemlen ≥ 0 then pos + itemlen else pos))

/-- The values that are missing at the end are `None`. -/
def deserializeTuple (subtypes : List Decoder) (byts : Bytes) (p : Nat) : Option (List Value) := do
  let values ← readFields byts p subtypes 0
  return values ++ List.replicate (subtypes.length - values.length) .none

def readComponents (p : Nat) : List Decoder → Bytes → Option (List Value)
  | [], _ => some []
  | subtype :: rest, byts =>
    if byts = [] then some []
    else do
      let elementLength ← unpackUnsigned 2 (byts.take 2)
      let element := slice byts 2 (2 + elementLength)
      let v ← subtype (some element) p
      -- The length, the element and one byte at its end are skipped.
      return v :: (← readComponents p rest (byts.drop (2 + elementLength + 1).toNat))

def deserializeWith (t : CqlType) (subtypes : List Decoder) (byts : Bytes) (p : Nat) : Option Value :=
  match t, subtypes with
  | .scalar s, _ => deserializeScalar env s byts
  | .list _, [subtype] => do
    let numelements ← unpackLength p (byts.take (lengthWidth p))
    return .list (← readItems p subtype byts numelements.toNat (lengthWidth p))
  | .set _, [subtype] => do
    let numelements ← unpackLength p (byts.take (lengthWidth p))
    let result ← readItems p subtype byts numelements.toNat (lengthWidth p)
    return .set (← SortedSet.update env.lt env.eq [] result)
  | .map k _, [keyType, valueType] => do
    let numelements ← unpackLength p (byts.take (lengthWidth p))
    let themap ← readEntries p keyType valueType byts numelements.toNat (lengthWidth p) {}
    return .map k p themap.items themap.index
  | _, [] => none
  | .tuple _, subtypes => (deserializeTuple subtypes byts p).map .tuple
  | .user u _, subtypes => (deserializeTuple subtypes byts p).map u.construct
  | .composite _, subtypes => (readComponents p subtypes byts).map .tuple
  | .reversed _, [subtype] | .frozen _, [subtype] => subtype (some byts) p
  | _, _ => none

def fromBinaryWith (t : CqlType) (subtypes : List Decoder) : Decoder
  | none, _ => some .none
  | some byts, p =>
    if byts = [] ∧ t.emptyBinaryOk = false then some (if env.supportEmptyValues t then .empty else .none)
    else deserializeWith env t subtypes byts p

mutual

def fromBinary : CqlType → Decoder
  | .scalar s => fromBinaryWith env (.scalar s) []
  | .list t => fromBinaryWith env (.list t) [fromBinary t]
  | .set t => fromBinaryWith env (.set t) [fromBinary t]
  | .map k v => fromBinaryWith env (.map k v) [fromBinary k, fromBinary v]
  | .tuple ts => fromBinaryWith env (.tuple ts) (fromBinaries ts)
  | .user u ts => fromBinaryWith env (.user u ts) (fromBinaries ts)
  | .composite ts => fromBinaryWith env (.composite ts) (fromBinaries ts)
  | .reversed t => fromBinaryWith env (.reversed t) [fromBinary t]
  | .frozen t => fromBinaryWith env (.frozen t) [fromBinary t]

def fromBinaries : List CqlType → List Decoder
  | [] => []
  | t :: ts => fromBinary t :: fromBinaries ts

end

theorem fromBinaries_eq (ts : List CqlType) : fromBinaries env ts = ts.map (fromBinary env) := by
  induction ts with
  | nil => rfl
  | cons t ts ih => exact congrArg (_ :: ·) ih

theorem fromBinary_eq (t : CqlType) : fromBinary env t = fromBinaryWith env t (t.subtypes.map (fromBinary env)) := by
  cases t with
  | tuple ts | user u ts | composite ts => exact congrArg _ (fromBinaries_eq env ts)
  | scalar s | list t | set t | map k v | reversed t | frozen t => rfl

def deserialize (t : CqlType) (byts : Bytes) (p : Nat) : Option Value :=
  deserializeWith env t (t.subtypes.map (fromBinary env)) byts p

end Python

end CqlDriver.Decoding
