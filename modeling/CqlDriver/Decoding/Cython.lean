import CqlDriver.Decoding.Python

/-!
# The Cython deserializers

`deserializers.pyx` with the buffers of `buffer.pxd`. A deserializer may move its buffer on, so it
returns what the buffer shows afterwards. C integers wrap around.
-/

namespace CqlDriver.Decoding

open Lib CqlDriver.Types

abbrev BufDecoder := Bytes → Nat → Option (Value × Bytes)

inductive Deserializer
  | mk (cls : DesClass) (cqltype : CqlType) (deserializers : List Deserializer)

namespace Cython

variable (env : Env)

/-! ## Buffers and numbers -/

def int16 (n : ℤ) : ℤ := n.bmod (2 ^ 16)

def int32 (n : ℤ) : ℤ := n.bmod (2 ^ 32)

/-- A start before the buffer is no start of a slice. -/
def sliceBuffer (buf : Bytes) (start size : ℤ) : Option Bytes :=
  if size < 0 then none
  else if start + size > buf.length then none
  else if start < 0 then none
  else some ((buf.drop start.toNat).take size.toNat)

def copyNum (src : Bytes) : Bytes := if env.littleEndian then src.reverse else src

def nativeBytes (out : Bytes) : Bytes := if env.littleEndian then out.reverse else out

/-- It cannot raise: with too few bytes it gives 0. -/
def unpackInt (width : Nat) (buf : Bytes) : ℤ :=
  if buf.length < width then 0 else signedValue (nativeBytes env (copyNum env (buf.take width)))

def unpackUint (width : Nat) (buf : Bytes) : ℤ :=
  if buf.length < width then 0 else beDecode (nativeBytes env (copyNum env (buf.take width)))

def unpackLen (p : Nat) (buf : Bytes) (offset : ℤ) : Option ℤ := do
  let itemlenBuf ← sliceBuffer buf offset (lengthWidth p)
  return if p ≥ 3 then unpackInt env 4 itemlenBuf else unpackUint env 2 itemlenBuf

def subelem (p : Nat) (buf : Bytes) (offset : ℤ) : Option (Bytes × ℤ) := do
  let elemlen ← unpackLen env p buf offset
  let offset := int32 (offset + lengthWidth p)
  let elemBuf ← sliceBuffer buf offset elemlen
  return (elemBuf, int32 (offset + elemlen))

/-! ## Loops -/

def readItems (p : Nat) (deserializer : BufDecoder) (buf : Bytes) : Nat → ℤ → Option (List Value)
  | 0, _ => some []
  | n + 1, offset => do
    let (elemBuf, offset) ← subelem env p buf offset
    let (item, _) ← deserializer elemBuf (innerProto p)
    return item :: (← readItems p deserializer buf n offset)

def deserializeListOrSet (p : Nat) (deserializer : BufDecoder) (buf : Bytes) : Option (List Value) := do
  let numelements ← unpackLen env p buf 0
  readItems env p deserializer buf numelements.toNat (lengthWidth p)

/-- The key of the index is read from the buffer after the key. -/
def readEntries (p : Nat) (keyDeserializer valDeserializer : BufDecoder) (buf : Bytes) :
    Nat → ℤ → Entries → Option Entries
  | 0, _, themap => some themap
  | n + 1, offset, themap => do
    let (keyBuf, offset) ← subelem env p buf offset
    let (valBuf, offset) ← subelem env p buf offset
    let (key, keyBuf) ← keyDeserializer keyBuf (innerProto p)
    let (val, _) ← valDeserializer valBuf (innerProto p)
    readEntries p keyDeserializer valDeserializer buf n offset (themap.insertUnchecked key keyBuf val)

def readFields (buf : Bytes) (p : Nat) : List BufDecoder → ℤ → Option (List Value)
  | [], _ => some []
  | deserializer :: rest, pos =>
    if pos < buf.length then do
      let itemlenBuf ← sliceBuffer buf pos 4
      let itemlen := unpackInt env 4 itemlenBuf
      let pos := pos + 4
      if itemlen ≥ 0 then do
        let itemBuf ← sliceBuffer buf pos itemlen
        let (item, _) ← deserializer itemBuf (innerProto p)
        return item :: (← readFields buf p rest (pos + itemlen))
      else return .none :: (← readFields buf p rest pos)
    else return .none :: (← readFields buf p rest pos)

def readComponents (p : Nat) : List BufDecoder → Bytes → Option (List Value × Bytes)
  | [], buf => some ([], buf)
  | deserializer :: rest, buf =>
    if buf = [] then some ([], buf)
    else do
      let elementLength := int16 (unpackUint env 2 buf)
      let elemBuf ← sliceBuffer buf 2 elementLength
      let (item, _) ← deserializer elemBuf p
      let start := 2 + elementLength + 1
      let buf ← sliceBuffer buf start (buf.length - start)
      let (items, buf) ← readComponents p rest buf
      return (item :: items, buf)

/-! ## Classes -/

def deserializeWith (cls : DesClass) (cqltype : CqlType) (deserializers : List BufDecoder) (buf : Bytes) (p : Nat) :
    Option (Value × Bytes) :=
  match cls, deserializers with
  | .deserializer, _ => none
  | .bytes, _ => some (.bytes buf, buf)
  | .bytesByteArray, _ => some (.bytearray buf, buf)
  | .decimal, _ => do
    let varintBuf ← sliceBuffer buf 4 (buf.length - 4)
    let scale := unpackInt env 4 buf
    let unscaled ← varintUnpack varintBuf
    return (.decimal unscaled (int32 (-scale)), buf)
  | .uuid, _ => if buf.length = 16 then some (.uuid buf, buf) else none
  | .boolean, _ => some (.bool (unpackInt env 1 buf ≠ 0), buf)
  | .byte, _ => some (.int (unpackInt env 1 buf), buf)
  | .ascii, _ =>
    if buf.all (· < 128) then some (.str (buf.map fun x => Char.ofNat x.toNat), buf) else none
  | .float, _ => some (.float (BitVec.ofInt 32 (unpackUint env 4 buf)), buf)
  | .double, _ => some (.double (BitVec.ofInt 64 (unpackUint env 8 buf)), buf)
  | .long, _ => some (.int (unpackInt env 8 buf), buf)
  | .int32, _ => some (.int (unpackInt env 4 buf), buf)
  | .integer, _ => (varintUnpack buf).map fun n => (.int n, buf)
  | .inetAddress, _ => if buf.length = 16 ∨ buf.length = 4 then some (.inet buf, buf) else none
  | .date, _ =>
    (CythonUtils.datetimeFromTimestamp env.rounding (timestampSeconds env.rounding (unpackInt env 8 buf))).map fun d =>
      (.datetime d, buf)
  | .simpleDate, _ => some (.date (unpackUint env 4 buf - 2 ^ 31), buf)
  | .short, _ => some (.int (unpackInt env 2 buf), buf)
  | .time, _ => if unpackInt env 8 buf ≥ Python.nanosOfDay then none else some (.time (unpackInt env 8 buf), buf)
  | .utf8, _ => (utf8Decode buf).map fun s => (.str s, buf)
  | .list, [deserializer] => do
    return (.list (← deserializeListOrSet env p deserializer buf), buf)
  | .set, [deserializer] => do
    let result ← deserializeListOrSet env p deserializer buf
    return (.set (← SortedSet.update env.lt env.eq [] result), buf)
  | .map, keyDeserializer :: valDeserializer :: _ =>
    match cqltype.subtypes with
    | [keyType, _] => do
      let numelements ← unpackLen env p buf 0
      let themap ← readEntries env p keyDeserializer valDeserializer buf numelements.toNat (lengthWidth p) {}
      return (.map keyType p themap.items themap.index, buf)
    | _ => none
  | .tuple, deserializers => do
    return (.tuple (← readFields env buf p deserializers 0), buf)
  | .user, deserializers =>
    match cqltype with
    | .user u _ => do
      return (u.construct (← readFields env buf p deserializers 0), buf)
    | _ => none
  | .composite, deserializers => do
    let (items, buf) ← readComponents env p deserializers buf
    return (.tuple items, buf)
  | .reversed, [deserializer] | .frozen, [deserializer] => deserializer buf p
  | .generic, _ => (Python.deserialize env cqltype buf p).map fun v => (v, buf)
  | _, _ => none

theorem deserializeWith_composite (t : CqlType) (ds : List BufDecoder) (b : Bytes) (p : Nat) :
    deserializeWith env .composite t ds b p = (readComponents env p ds b).map fun r => (.tuple r.1, r.2) := by
  simp only [deserializeWith]
  cases readComponents env p ds b <;> rfl

def fromBinaryWith (cqltype : CqlType) (deserialize : BufDecoder) : BufDecoder := fun buf p =>
  if buf = [] ∧ cqltype.emptyBinaryOk = false then
    some (if env.supportEmptyValues cqltype then .empty else .none, buf)
  else deserialize buf p

mutual

def fromBuffer : Deserializer → BufDecoder
  | .mk cls cqltype deserializers =>
    fromBinaryWith env cqltype (deserializeWith env cls cqltype (fromBuffers deserializers))

def fromBuffers : List Deserializer → List BufDecoder
  | [] => []
  | d :: ds => fromBuffer d :: fromBuffers ds

end

theorem fromBuffers_eq (ds : List Deserializer) : fromBuffers env ds = ds.map (fromBuffer env) := by
  induction ds with
  | nil => rfl
  | cons d ds ih => exact congrArg (_ :: ·) ih

/-! ## `find_deserializer` -/

/-- By the type's name, else by the class it extends. -/
def findClass (cqltype : CqlType) : DesClass :=
  match classes.lookup cqltype.name with
  | some cls => cls
  | none =>
    match cqltype with
    | .list _ => .list
    | .set _ => .set
    | .map _ _ => .map
    | .user _ _ => .user
    | .tuple _ => .tuple
    | .composite _ => .composite
    | .reversed _ => .reversed
    | .frozen _ => .frozen
    | .scalar _ => .generic

/-- `cls(cqltype)`, which cannot make an array of no deserializers. -/
def instantiate (cls : DesClass) (cqltype : CqlType) (deserializers : List (Option Deserializer)) : Option Deserializer :=
  match cls with
  | .list | .set | .reversed | .frozen => do
    let ds ← deserializers.mapM id
    if ds.length = 1 then return .mk cls cqltype ds else none
  | .map => do
    let ds ← deserializers.mapM id
    if ds.length ≥ 2 then return .mk cls cqltype ds else none
  | .tuple | .user | .composite => do
    let ds ← deserializers.mapM id
    if ds.length ≥ 1 then return .mk cls cqltype ds else none
  | _ => some (.mk cls cqltype [])

mutual

def findDeserializer : CqlType → Option Deserializer
  | .scalar s => instantiate (findClass (.scalar s)) (.scalar s) []
  | .list t => instantiate (findClass (.list t)) (.list t) [findDeserializer t]
  | .set t => instantiate (findClass (.set t)) (.set t) [findDeserializer t]
  | .map k v => instantiate (findClass (.map k v)) (.map k v) [findDeserializer k, findDeserializer v]
  | .tuple ts => instantiate (findClass (.tuple ts)) (.tuple ts) (makeDeserializers ts)
  | .user u ts => instantiate (findClass (.user u ts)) (.user u ts) (makeDeserializers ts)
  | .composite ts => instantiate (findClass (.composite ts)) (.composite ts) (makeDeserializers ts)
  | .reversed t => instantiate (findClass (.reversed t)) (.reversed t) [findDeserializer t]
  | .frozen t => instantiate (findClass (.frozen t)) (.frozen t) [findDeserializer t]

def makeDeserializers : List CqlType → List (Option Deserializer)
  | [] => []
  | t :: ts => findDeserializer t :: makeDeserializers ts

end

theorem makeDeserializers_eq (ts : List CqlType) : makeDeserializers ts = ts.map findDeserializer := by
  induction ts with
  | nil => rfl
  | cons t ts ih => exact congrArg (_ :: ·) ih

theorem findDeserializer_eq (t : CqlType) :
    findDeserializer t = instantiate (findClass t) t (t.subtypes.map findDeserializer) := by
  cases t with
  | tuple ts | user u ts | composite ts =>
    exact congrArg _ (makeDeserializers_eq ts)
  | scalar s | list t | set t | map k v | reversed t | frozen t => rfl

def fromBinary (t : CqlType) : Decoder := fun byts p => do
  let deserializer ← findDeserializer t
  match byts with
  | none => return .none
  | some buf => (fromBuffer env deserializer buf p).map Prod.fst

end Cython

end CqlDriver.Decoding
