import CqlDriver.Lib.Bytes
import Mathlib.Data.Nat.Digits.Lemmas
import Mathlib.Data.Nat.Size

/-! # Variable-length integers and decimals -/

namespace CqlDriver.Types

open Lib List

/-- The bytes of `n`, the lowest one first. -/
def revBytes (n : Nat) : Bytes := (Nat.digits 256 n).map UInt8.ofNat

def bitLength (n : Nat) : Nat := n.size

def varintPack (big : Int) : Bytes :=
  if big = 0 then [0]
  else if big < 0 then
    let bytelength := bitLength (big.natAbs - 1) / 8 + 1
    (revBytes (256 ^ bytelength + big).toNat).reverse
  else
    let revbytes := revBytes big.toNat
    -- A top bit would make the number negative.
    if 128 ≤ (revbytes.getLastD 0).toNat then (revbytes ++ [0]).reverse else revbytes.reverse

def varintUnpack (term : Bytes) : Option Int :=
  match term with
  | [] => none
  | first :: _ => some (if 128 ≤ first.toNat then beDecode term - 256 ^ term.length else beDecode term)

theorem beDecode_cons (b : UInt8) (l : Bytes) : beDecode (b :: l) = b.toNat * 256 ^ l.length + beDecode l := by
  induction l using reverseRecOn with
  | nil => simp [beDecode]
  | append_singleton l c ih =>
    rw [← cons_append, beDecode_append_one, beDecode_append_one, ih, length_append]
    simp only [length_singleton]
    ring

theorem varintUnpack_eq (b : UInt8) (l : Bytes) : varintUnpack (b :: l) = some (signedValue (b :: l)) := by
  have hlt := beDecode_lt l
  have hc := beDecode_cons b l
  have hs : 128 ≤ b.toNat ↔ ¬ 2 * (beDecode (b :: l) : Int) < 256 ^ (b :: l).length := by
    rw [length_cons]
    have hpow : (256 : Int) ^ (l.length + 1) = ((256 * 256 ^ l.length : Nat) : Int) := by push_cast; ring
    generalize 256 ^ l.length = k at *
    constructor
    · intro h
      have : 128 * k ≤ b.toNat * k := Nat.mul_le_mul_right k h
      omega
    by_contra hb
    have : b.toNat * k ≤ 127 * k := Nat.mul_le_mul_right k (by omega)
    omega
  rw [varintUnpack, signedValue]
  by_cases h : 128 ≤ b.toNat
  · rw [if_pos h, if_neg (hs.mp h)]
  · rw [if_neg h, if_pos (by by_contra hn; exact h (hs.mpr hn))]

theorem beDecode_reverse {l : Bytes} : beDecode l.reverse = Nat.ofDigits 256 (l.map UInt8.toNat) := by
  induction l with
  | nil => rfl
  | cons b l ih =>
    rw [reverse_cons, beDecode_append_one, ih, map_cons, Nat.ofDigits_cons]
    ring

theorem beDecode_revBytes (n : Nat) : beDecode (revBytes n).reverse = n := by
  have hdg : (revBytes n).map UInt8.toNat = Nat.digits 256 n := by
    rw [revBytes, map_map]
    conv_rhs => rw [← map_id (Nat.digits 256 n)]
    apply map_congr_left
    intro d hd
    have hlt : d < 256 := Nat.digits_lt_base (by decide) hd
    simp [Nat.mod_eq_of_lt hlt]
  rw [beDecode_reverse, hdg, Nat.ofDigits_digits]

variable {n k : Nat} {big : Int}

theorem revBytes_ne_nil (h : n ≠ 0) : revBytes n ≠ [] := by
  simpa [revBytes, Nat.digits_ne_nil_iff_ne_zero] using h

theorem varintUnpack_of_signed {l : Bytes} {v : Int} (hne : l ≠ []) (h : signedValue l = v) :
    varintUnpack l = some v := by
  cases l with
  | nil => exact absurd rfl hne
  | cons b l => rw [varintUnpack_eq, h]

theorem length_revBytes_le : (revBytes n).length ≤ k ↔ n < 256 ^ k := by
  rw [revBytes, length_map]
  exact Nat.digits_length_le_iff (by decide) n

theorem two_mul_half_pow (h : 0 < k) : 2 * 2 ^ (8 * k - 1) = 256 ^ k := by
  rw [← pow_succ', show 8 * k - 1 + 1 = 8 * k by omega, pow_mul]
  norm_num

theorem varintUnpack_neg (h : big < 0) : varintUnpack (varintPack big) = some big := by
  rw [varintPack, if_neg (by omega), if_pos h]
  set L := bitLength (big.natAbs - 1) / 8 + 1 with hL
  -- The magnitude has less than `8 * L` bits, so the sum has its top bit set.
  have hmag : big.natAbs - 1 < 2 ^ (8 * L - 1) := by
    refine lt_of_lt_of_le (Nat.lt_size_self _) (Nat.pow_le_pow_right (by decide) ?_)
    unfold bitLength at hL
    omega
  have hh : 2 * 2 ^ (8 * L - 1) = 256 ^ L := two_mul_half_pow (by omega)
  set n := (256 ^ L + big).toNat with hn
  have hc : ((256 ^ L : Nat) : Int) = 256 ^ L := by push_cast; rfl
  have hlt : n < 256 ^ L := by omega
  have hlen : (revBytes n).length = L := by
    apply le_antisymm
    · exact length_revBytes_le.mpr hlt
    by_contra hs
    have : n < 256 ^ (L - 1) := length_revBytes_le.mp (by omega)
    have hpow : 256 ^ L = 256 * 256 ^ (L - 1) := by
      rw [← pow_succ', show L - 1 + 1 = L by omega]
    omega
  apply varintUnpack_of_signed
  · have : n ≠ 0 := by
      omega
    simpa using revBytes_ne_nil this
  rw [signedValue, beDecode_revBytes, length_reverse, hlen]
  omega

theorem varintUnpack_pos (h : 0 < big) : varintUnpack (varintPack big) = some big := by
  rw [varintPack, if_neg (by omega), if_neg (by omega)]
  have hne : revBytes big.toNat ≠ [] := revBytes_ne_nil (by omega)
  have hdec := beDecode_revBytes big.toNat
  generalize revBytes big.toNat = rev at *
  simp only
  split
  · -- A leading zero byte keeps the number positive.
    rw [reverse_append, reverse_singleton, singleton_append, varintUnpack, beDecode_cons]
    simp
    omega
  rename_i htop
  obtain ⟨fr, top, rfl⟩ := (eq_nil_or_concat' rev).resolve_left hne
  rw [getLastD_concat] at htop
  rw [reverse_append, reverse_singleton, singleton_append] at hdec ⊢
  rw [varintUnpack]
  congr 1
  omega

theorem varintUnpack_varintPack (big : Int) : varintUnpack (varintPack big) = some big := by
  rcases lt_trichotomy big 0 with h | rfl | h
  · exact varintUnpack_neg h
  · rfl
  · exact varintUnpack_pos h

/-! ## The shortest encoding -/

theorem length_varintPack_neg (hk : 0 < k) (hneg : big < 0) (h : -256 ^ k ≤ 2 * big) : (varintPack big).length ≤ k := by
  have hh := two_mul_half_pow hk
  have hc : ((256 ^ k : Nat) : Int) = 256 ^ k := by push_cast; rfl
  have hs : bitLength (big.natAbs - 1) ≤ 8 * k - 1 := Nat.size_le.mpr (by omega)
  rw [varintPack, if_neg (by omega), if_pos hneg, length_reverse]
  have hL : bitLength (big.natAbs - 1) / 8 + 1 ≤ k := by omega
  refine le_trans (length_revBytes_le.mpr ?_) hL
  generalize bitLength (big.natAbs - 1) / 8 + 1 = L
  have hcs : ((256 ^ L : Nat) : Int) = 256 ^ L := by push_cast; rfl
  have : 0 < 256 ^ L := by positivity
  omega

theorem length_varintPack_pos (hpos : 0 < big) (h : 2 * big < 256 ^ k) : (varintPack big).length ≤ k := by
  have hc : ((256 ^ k : Nat) : Int) = 256 ^ k := by push_cast; rfl
  have hrev : (revBytes big.toNat).length ≤ k := length_revBytes_le.mpr (by omega)
  have hdec := beDecode_revBytes big.toNat
  have hne : revBytes big.toNat ≠ [] := revBytes_ne_nil (by omega)
  rw [varintPack, if_neg (by omega), if_neg (by omega)]
  generalize revBytes big.toNat = rev at *
  simp only
  split
  · -- The byte in front is needed: a number with the top bit set is at least half of `256 ^ length`.
    rename_i htop
    obtain ⟨fr, top, rfl⟩ := (eq_nil_or_concat' rev).resolve_left hne
    rw [getLastD_concat] at htop
    rw [reverse_append, reverse_singleton, singleton_append, beDecode_cons, length_reverse] at hdec
    have hmul : 128 * 256 ^ fr.length ≤ top.toNat * 256 ^ fr.length := Nat.mul_le_mul_right _ htop
    have hlt : 256 ^ (fr.length + 1) < 256 ^ k := by
      omega
    have := (Nat.pow_lt_pow_iff_right (by decide)).mp hlt
    simpa using this
  rw [length_reverse]
  exact hrev

def Shortest (n : Int) (l : Bytes) : Prop :=
  l ≠ [] ∧ signedValue l = n ∧ ∀ l' : Bytes, l' ≠ [] → signedValue l' = n → l.length ≤ l'.length

theorem shortest_varintPack (n : Int) : Shortest n (varintPack n) := by
  have hb := varintUnpack_varintPack n
  have hne : varintPack n ≠ [] := by
    intro h
    rw [h] at hb
    cases hb
  refine ⟨hne, ?_, ?_⟩
  · obtain ⟨b, l, heq⟩ := exists_cons_of_ne_nil hne
    rw [heq, varintUnpack_eq] at hb
    rw [heq]
    exact Option.some.inj hb
  intro l hl h
  obtain ⟨hlo, hhi⟩ := signedValue_bounds l
  rw [h] at hlo hhi
  have hk : 0 < l.length := length_pos_of_ne_nil hl
  rcases lt_trichotomy n 0 with hn | rfl | hn
  · exact length_varintPack_neg hk hn hlo
  · exact hk
  · exact length_varintPack_pos hn hhi

/-! ## Decimals -/

structure Decimal where
  sign : Bool
  coefficient : Nat
  exponent : Int
deriving DecidableEq

def Decimal.digits (dec : Decimal) : List Nat :=
  if dec.coefficient = 0 then [0] else (Nat.digits 10 dec.coefficient).reverse

def Decimal.serialize (dec : Decimal) : Option Bytes := do
  -- `int` of the digits joined
  let unscaled : Int := (dec.digits.foldl (fun n digit => digit + 10 * n) 0 : Nat)
  let unscaled := if dec.sign then unscaled * -1 else unscaled
  let scale ← packSigned 4 (-dec.exponent)
  return scale ++ varintPack unscaled

def Decimal.deserialize (byts : Bytes) : Option Decimal := do
  let scale ← unpackSigned 4 (byts.take 4)
  let unscaled ← varintUnpack (byts.drop 4)
  return ⟨decide (unscaled < 0), unscaled.natAbs, -scale⟩

theorem Decimal.foldl_digits (dec : Decimal) :
    dec.digits.foldl (fun n digit => digit + 10 * n) 0 = dec.coefficient := by
  unfold Decimal.digits
  split
  · rename_i h
    exact h.symm
  rw [foldl_reverse]
  exact (Nat.ofDigits_eq_foldr 10 _).symm.trans (Nat.ofDigits_digits 10 _)

/-- Only the sign of a negative zero is lost. -/
theorem varint_decimal_roundtrip : (∀ n : Int, Shortest n (varintPack n) ∧ varintUnpack (varintPack n) = some n) ∧
    (∀ b : Bytes, b ≠ [] → varintUnpack b = some (signedValue b)) ∧
    ∀ dec : Decimal, -2 ^ 31 ≤ -dec.exponent → -dec.exponent < 2 ^ 31 → dec.serialize.bind Decimal.deserialize =
        some ⟨dec.sign && decide (dec.coefficient ≠ 0), dec.coefficient, dec.exponent⟩ := by
  refine ⟨fun n => ⟨shortest_varintPack n, varintUnpack_varintPack n⟩, fun b hb => varintUnpack_of_signed hb rfl, ?_⟩
  intro dec hlo hhi
  have hs : packSigned 4 (-dec.exponent) = some (signedBytes 4 (-dec.exponent)) := by
    rw [packSigned, if_pos (by omega)]
  have ht (l : Bytes) : (signedBytes 4 (-dec.exponent) ++ l).take 4 = signedBytes 4 (-dec.exponent) :=
    take_left' (signedBytes_length _ _)
  have hd (l : Bytes) : (signedBytes 4 (-dec.exponent) ++ l).drop 4 = l := drop_left' (signedBytes_length _ _)
  simp only [Decimal.serialize, dec.foldl_digits, hs, Option.bind_eq_bind, Option.bind_some, Option.pure_def,
    Decimal.deserialize, ht, hd, unpackSigned_packSigned hs, varintUnpack_varintPack]
  rcases dec with ⟨sign, coefficient, exponent⟩
  cases sign with
  | false => simp
  | true => simp [Nat.pos_iff_ne_zero]

end CqlDriver.Types
