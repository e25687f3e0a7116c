import Mathlib.Algebra.Order.Ring.Int
import Mathlib.Data.Int.Bitwise
import Mathlib.Data.Int.ModEq
import Mathlib.Data.List.Induction
import Mathlib.Tactic.Ring
import Mathlib.Tactic.Linarith

/-!
# Big-endian integers of a fixed width

`packUnsigned` and `packSigned` are the `struct` formats `>B`, `>H`, `>I`, `>Q` and `>b`, `>h`,
`>i`, `>q`. `none` is a `struct.error`.
-/

namespace CqlDriver.Lib

abbrev Bytes := List UInt8

/-- The last `width` base-256 digits of `n`, the highest one first. -/
def beEncode : Nat → Nat → Bytes
  | 0, _ => []
  | width + 1, n => beEncode width (n / 256) ++ [UInt8.ofNat (n % 256)]

def beDecode (l : Bytes) : Nat := l.foldl (fun acc b => acc * 256 + b.toNat) 0

def packUnsigned (width : Nat) (v : Int) : Option Bytes :=
  if 0 ≤ v ∧ v < 256 ^ width then some (beEncode width v.toNat) else none

def unpackUnsigned (width : Nat) (l : Bytes) : Option Int :=
  if l.length = width then some (beDecode l) else none

def signedBytes (width : Nat) (v : Int) : Bytes := beEncode width (v % 256 ^ width).toNat

def signedValue (l : Bytes) : Int :=
  if 2 * (beDecode l : Int) < 256 ^ l.length then beDecode l else beDecode l - 256 ^ l.length

def packSigned (width : Nat) (v : Int) : Option Bytes :=
  if -256 ^ width ≤ 2 * v ∧ 2 * v < 256 ^ width then some (signedBytes width v) else none

def unpackSigned (width : Nat) (l : Bytes) : Option Int :=
  if l.length = width then some (signedValue l) else none

@[simp] theorem beEncode_length (width n : Nat) : (beEncode width n).length = width := by
  induction width generalizing n with
  | zero => rfl
  | succ width ih => simp [beEncode, ih]

theorem beDecode_append_one (l : Bytes) (b : UInt8) : beDecode (l ++ [b]) = beDecode l * 256 + b.toNat := by
  simp [beDecode]

@[simp] theorem beDecode_nil : beDecode [] = 0 := rfl

theorem beDecode_lt (l : Bytes) : beDecode l < 256 ^ l.length := by
  induction l using List.reverseRecOn with
  | nil => simp
  | append_singleton l b ih =>
    have hb : b.toNat < 256 := b.toNat_lt
    rw [beDecode_append_one, List.length_append, List.length_singleton]
    omega

theorem beDecode_beEncode (width n : Nat) : beDecode (beEncode width n) = n % 256 ^ width := by
  induction width generalizing n with
  | zero => simp [beEncode, Nat.mod_one]
  | succ width ih =>
    rw [beEncode, beDecode_append_one, ih, UInt8.toNat_ofNat_of_lt' (Nat.mod_lt _ (by decide)),
      pow_succ, mul_comm (256 ^ width) 256, Nat.mod_mul]
    ring

@[simp] theorem signedBytes_length (width : Nat) (v : Int) : (signedBytes width v).length = width :=
  beEncode_length _ _

theorem signedValue_bounds (l : Bytes) : -256 ^ l.length ≤ 2 * signedValue l ∧ 2 * signedValue l < 256 ^ l.length := by
  have hlt : (beDecode l : ℤ) < 256 ^ l.length := by exact_mod_cast beDecode_lt l
  unfold signedValue
  split <;> constructor <;> omega

theorem signedValue_signedBytes (width : Nat) (v : Int) (hlo : -256 ^ width ≤ 2 * v)
    (hhi : 2 * v < 256 ^ width) : signedValue (signedBytes width v) = v := by
  have hpos : (0 : Int) < 256 ^ width := by positivity
  have hmod : 0 ≤ v % 256 ^ width := Int.emod_nonneg _ hpos.ne'
  have hlt : v % 256 ^ width < 256 ^ width := Int.emod_lt_of_pos _ hpos
  have hdec : (beDecode (signedBytes width v) : Int) = v % 256 ^ width := by
    have hn : (v % 256 ^ width).toNat < 256 ^ width := by
      zify
      rw [Int.toNat_of_nonneg hmod]
      exact hlt
    rw [signedBytes, beDecode_beEncode, Nat.mod_eq_of_lt hn, Int.toNat_of_nonneg hmod]
  rw [signedValue, hdec, signedBytes_length]
  rcases le_or_gt 0 v with hv | hv
  · rw [Int.emod_eq_of_lt hv (by linarith), if_pos hhi]
  have he : v % 256 ^ width = v + 256 ^ width := by
    rw [← Int.add_emod_right]
    exact Int.emod_eq_of_lt (by linarith) (by linarith)
  rw [he, if_neg (by linarith)]
  ring

variable {l : Bytes} {v : Int} {width : Nat}

theorem packSigned_eq_some (h : packSigned width v = some l) :
    l = signedBytes width v ∧ -256 ^ width ≤ 2 * v ∧ 2 * v < 256 ^ width := by
  unfold packSigned at h
  split at h
  · rename_i hv
    exact ⟨(Option.some.inj h).symm, hv⟩
  · simp at h

theorem unpackSigned_packSigned (h : packSigned width v = some l) : unpackSigned width l = some v := by
  obtain ⟨rfl, hlo, hhi⟩ := packSigned_eq_some h
  rw [unpackSigned, if_pos (signedBytes_length _ _), signedValue_signedBytes _ _ hlo hhi]

theorem packUnsigned_eq_some (h : packUnsigned width v = some l) :
    l = beEncode width v.toNat ∧ 0 ≤ v ∧ v < 256 ^ width := by
  unfold packUnsigned at h
  split at h
  · rename_i hv
    exact ⟨(Option.some.inj h).symm, hv⟩
  · simp at h

theorem unpackUnsigned_packUnsigned (h : packUnsigned width v = some l) : unpackUnsigned width l = some v := by
  obtain ⟨rfl, h0, hlt⟩ := packUnsigned_eq_some h
  have hn : v.toNat < 256 ^ width := by
    zify
    rw [Int.toNat_of_nonneg h0]
    exact hlt
  rw [unpackUnsigned, if_pos (beEncode_length _ _), beDecode_beEncode, Nat.mod_eq_of_lt hn, Int.toNat_of_nonneg h0]

theorem packUnsigned_natCast (width n : Nat) :
    packUnsigned width n = if n < 256 ^ width then some (beEncode width n) else none := by
  rw [packUnsigned, Int.toNat_natCast]
  by_cases h : n < 256 ^ width
  · rw [if_pos h, if_pos ⟨Int.natCast_nonneg n, by exact_mod_cast h⟩]
  · rw [if_neg h, if_neg (fun hn => h (by exact_mod_cast hn.2))]

/-! ## Slices -/

/-- Where a Python slice bound stands. -/
def slicePlace (n : Nat) (i : Int) : Nat := if i < 0 then (i + n).toNat else min i.toNat n

def slice (l : Bytes) (start stop : Int) : Bytes :=
  (l.drop (slicePlace l.length start)).take (slicePlace l.length stop - slicePlace l.length start)

theorem slice_middle (a b c : Bytes) : slice (a ++ (b ++ c)) a.length (a.length + b.length) = b := by
  have hs : slicePlace (a ++ (b ++ c)).length a.length = a.length := by
    simp [slicePlace]
  have hst : slicePlace (a ++ (b ++ c)).length (a.length + b.length) = a.length + b.length := by
    rw [slicePlace, if_neg (by omega), List.length_append, List.length_append]
    omega
  rw [slice, hs, hst, List.drop_left, Nat.add_sub_cancel_left, List.take_left]

theorem slice_of_le {start stop : Int} (h : slicePlace l.length stop ≤ slicePlace l.length start) :
    slice l start stop = [] := by
  rw [slice, Nat.sub_eq_zero_of_le h, List.take_zero]

theorem slice_at_end (l : Bytes) (stop : Int) : slice l l.length stop = [] := by
  apply slice_of_le
  unfold slicePlace
  split <;> split <;> omega

/-! ## The low bits of unbounded integers -/

section LowBits

open BitVec (ofInt)

theorem getLsbD_ofInt (w : Nat) (x : Int) (i : Nat) : (ofInt w x).getLsbD i = (decide (i < w) && x.testBit i) := by
  cases x with
  | ofNat n => exact (congrArg (·.getLsbD i) (BitVec.ofInt_natCast w n)).trans (BitVec.getLsbD_ofNat ..)
  | negSucc n =>
    rw [BitVec.ofInt_negSucc_eq_not_ofNat, BitVec.getLsbD_not, BitVec.getLsbD_ofNat]
    by_cases hi : i < w
    · simp only [hi, decide_true, Bool.true_and, Int.testBit]
    · simp [hi]

theorem testBit_shiftRight (x : Int) (n i : Nat) : (x >>> n).testBit i = x.testBit (n + i) := by
  cases x with
  | ofNat m => exact Nat.testBit_shiftRight m
  | negSucc m => exact congrArg Bool.not (Nat.testBit_shiftRight m)

theorem testBit_mask (n i : Nat) : (2 ^ n - 1 : Int).testBit i = decide (i < n) := by
  have hc : (2 ^ n - 1 : Int) = ((2 ^ n - 1 : Nat) : Int) := by
    rw [Nat.cast_sub Nat.one_le_two_pow]
    simp
  rw [hc]
  exact Nat.testBit_two_pow_sub_one n i

theorem ofInt_xor (w : Nat) (x y : Int) : ofInt w (x.xor y) = ofInt w x ^^^ ofInt w y := by
  apply BitVec.eq_of_getLsbD_eq
  intro i hi
  simp only [BitVec.getLsbD_xor, getLsbD_ofInt, Int.testBit_lxor, hi, decide_true, Bool.true_and]

theorem ofInt_lor (w : Nat) (x y : Int) : ofInt w (x.lor y) = ofInt w x ||| ofInt w y := by
  apply BitVec.eq_of_getLsbD_eq
  intro i hi
  simp only [BitVec.getLsbD_or, getLsbD_ofInt, Int.testBit_lor, hi, decide_true, Bool.true_and]

theorem ofInt_shiftLeft (w : Nat) (x : Int) (n : Nat) : ofInt w (x <<< n) = ofInt w x <<< n := by
  have hpow : ofInt w ((2 : Int) ^ n) = BitVec.twoPow w n := by
    have hc : ((2 : Int) ^ n) = ((2 ^ n : Nat) : Int) := by simp
    apply BitVec.eq_of_toNat_eq
    rw [hc, BitVec.ofInt_natCast, BitVec.toNat_ofNat, BitVec.toNat_twoPow]
  rw [Int.shiftLeft_eq, BitVec.ofInt_mul, hpow, BitVec.shiftLeft_eq_mul_twoPow]

theorem ofInt_shiftRight_mask {w n m : Nat} (h : n + m = w) (x : Int) :
    ofInt w ((x >>> n).land (2 ^ m - 1)) = ofInt w x >>> n := by
  apply BitVec.eq_of_getLsbD_eq
  intro i hi
  simp only [BitVec.getLsbD_ushiftRight, getLsbD_ofInt, Int.testBit_land, testBit_shiftRight, testBit_mask, hi,
    decide_true, Bool.true_and]
  have hbit : decide (n + i < w) = decide (i < m) := decide_eq_decide.mpr (by omega)
  rw [hbit, Bool.and_comm]

end LowBits

end CqlDriver.Lib
