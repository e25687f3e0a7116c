import CqlDriver.Lib.Reader
import CqlDriver.Types.Codec
import Mathlib.Data.Int.Bitwise

/-! # The notations of the native protocol -/

namespace CqlDriver.Protocol

open Lib Lib.Reader CqlDriver.Types

variable {σ : Type}

abbrev Text := List Char

/-! ## Reading -/

def readInt : Reader σ Int := do
  let b ← read 4
  unpackSigned 4 b

def readShort : Reader σ Int := do
  let b ← read 2
  unpackUnsigned 2 b

def readString : Reader σ Text := do
  let size ← readShort
  let contents ← read size
  utf8Decode contents

def readBinaryString : Reader σ Bytes := do
  let size ← readShort
  read size

def readBinaryLongstring : Reader σ Bytes := do
  let size ← readInt
  read size

def readValue : Reader σ (Option Bytes) := do
  let size ← readInt
  if size < 0 then return none
  return some (← read size)

def hasFlag (flags flag : Int) : Bool := flags.land flag ≠ 0

/-! ## The layout -/

def intBytes (n : Int) : Bytes := signedBytes 4 n

def shortBytes (n : Nat) : Bytes := beEncode 2 n

def stringBytes (s : Text) : Bytes := shortBytes (utf8Encode s).length ++ utf8Encode s

def shortBytesBytes (b : Bytes) : Bytes := shortBytes b.length ++ b

def bytesBytes (b : Bytes) : Bytes := intBytes b.length ++ b

def IsInt (n : Int) : Prop := -2 ^ 31 ≤ n ∧ n < 2 ^ 31

def IsString (s : Text) : Prop := (utf8Encode s).length < 2 ^ 16

variable {n : Int} {b : Bytes}

theorem consumes_int (h : IsInt n) : Consumes (readInt : Reader σ Int) (intBytes n) n := by
  have hunp : unpackSigned 4 (intBytes n) = some n := by
    rw [unpackSigned, intBytes, if_pos (signedBytes_length _ _), signedValue_signedBytes]
    · linarith [h.1]
    · linarith [h.2]
  refine (Consumes.read ?_).then (.lift hunp)
  rfl

theorem consumes_short {n : Nat} (h : n < 2 ^ 16) : Consumes (readShort : Reader σ Int) (shortBytes n) n := by
  have hunp : unpackUnsigned 2 (shortBytes n) = some (n : Int) := by
    rw [unpackUnsigned, shortBytes, if_pos (beEncode_length _ _), beDecode_beEncode, Nat.mod_eq_of_lt (by norm_num; omega)]
  refine (Consumes.read ?_).then (.lift hunp)
  rfl

theorem consumes_string {s : Text} (h : IsString s) : Consumes (readString : Reader σ Text) (stringBytes s) s :=
  (consumes_short h).bind ((Consumes.read rfl).then (.lift (utf8Decode_utf8Encode s)))

theorem consumes_binaryString (h : b.length < 2 ^ 16) :
    Consumes (readBinaryString : Reader σ Bytes) (shortBytesBytes b) b :=
  (consumes_short h).bind (.read rfl)

theorem isInt_natCast {n : Nat} (h : n < 2 ^ 31) : IsInt n := ⟨by omega, by exact_mod_cast h⟩

theorem consumes_binaryLongstring (h : b.length < 2 ^ 31) :
    Consumes (readBinaryLongstring : Reader σ Bytes) (bytesBytes b) b :=
  (consumes_int (isInt_natCast h)).bind (.read rfl)

theorem consumes_null (h : IsInt n) (hneg : n < 0) :
    Consumes (readValue : Reader σ (Option Bytes)) (intBytes n) none := by
  refine (consumes_int h).then ?_
  rw [if_pos hneg]
  exact .pure none

theorem consumes_value (h : b.length < 2 ^ 31) :
    Consumes (readValue : Reader σ (Option Bytes)) (bytesBytes b) (some b) := by
  refine (consumes_int (isInt_natCast h)).bind ?_
  exact (Consumes.read rfl).then (.pure _)

end CqlDriver.Protocol
