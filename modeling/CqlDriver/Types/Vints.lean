import CqlDriver.Types.Marshal
import Mathlib.Data.Int.Bitwise

/-! # Vints and durations -/

namespace CqlDriver.Types

open Lib List

def encodeZigZag (n : Int) : Int := (n <<< (1 : Nat)).xor (n >>> (63 : Nat))

def decodeZigZag (n : Int) : Int := (n >>> (1 : Nat)).xor (-(n.land 1))

/-- The `while` loop: the bytes counted, what is left, and `revbytes`. -/
def extraBytes (numBits numExtra v : Nat) (revbytes : Bytes) : Nat × Nat × Bytes :=
  if 8 - min (numExtra + 1) 8 < numBits then
    extraBytes (numBits - 8) (numExtra + 1) (v >>> 8) (revbytes ++ [UInt8.ofNat v])
  else (numExtra, v, revbytes)
termination_by numBits

/-- The error has the value that the message of the `ValueError` names. -/
def vintPack (revbytes : Bytes) (value : Int) : Except Int Bytes :=
  -- Both shifts keep the sign, so a zig-zag number is not negative (`encodeZigZag_nonneg`).
  let v := (encodeZigZag value).toNat
  if v < 128 then .ok (revbytes ++ [UInt8.ofNat v])
  else
    let (numExtra, v, revbytes) := extraBytes (bitLength v) 0 v revbytes
    if 8 < numExtra then .error value
    else
      let n := 8 - numExtra
      .ok (revbytes ++ [UInt8.ofNat (v ||| 255 >>> n <<< n)])

def vintsPack (values : List Int) : Except Int Bytes :=
  (values.reverse.foldlM vintPack []).map List.reverse

/-- The number of bytes that follow the first one, and its own bits. -/
def vintHead (first : UInt8) : Nat × Nat :=
  if first &&& 128 = 0 then (0, first.toNat)
  else
    let numExtra := 8 - bitLength (~~~first).toNat
    (numExtra, first.toNat &&& 255 >>> numExtra)

/-- `none` is an `IndexError`: the bytes end inside a number. -/
def vintsUnpack (term : Bytes) : Option (List Int) :=
  match term with
  | [] => some []
  | first :: rest =>
    let (numExtra, val) := vintHead first
    if rest.length < numExtra then none
    else
      let val := (rest.take numExtra).foldl (fun val b => val <<< 8 ||| b.toNat) val
      (vintsUnpack (rest.drop numExtra)).map (decodeZigZag val :: ·)
termination_by term.length

structure Duration where
  months : Int
  days : Int
  nanoseconds : Int
deriving DecidableEq

def Duration.serialize (duration : Duration) : Except Int Bytes :=
  vintsPack [duration.months, duration.days, duration.nanoseconds]

/-- `none` is an `IndexError`, or the `ValueError` when there are not three numbers. -/
def Duration.deserialize (byts : Bytes) : Option Duration :=
  match vintsUnpack byts with
  | some [months, days, nanoseconds] => some ⟨months, days, nanoseconds⟩
  | _ => none

/-! ## Zig-zag numbers -/

def Signed64 (v : Int) : Prop := -2 ^ 63 ≤ v ∧ v < 2 ^ 63

variable {n : Nat}

theorem decodeZigZag_natCast : decodeZigZag n = if n % 2 = 0 then (n / 2 : Int) else -(n / 2 : Int) - 1 := by
  have hs : ((n : Int) >>> (1 : Nat)) = ((n / 2 : Nat) : Int) := by
    rfl
  have hl : (n : Int).land 1 = ((n % 2 : Nat) : Int) := by
    change ((n &&& 1 : Nat) : Int) = _
    rw [Nat.and_one_is_mod]
  rw [decodeZigZag, hl]
  split
  · rename_i h
    rw [h]
    change (((n / 2) ^^^ 0 : Nat) : Int) = _
    simp
  have h1 : n % 2 = 1 := by omega
  rw [h1]
  change Int.negSucc ((n / 2) ^^^ 0) = _
  simp only [Nat.xor_zero]
  omega

theorem decodeZigZag_signed (h : n < 2 ^ 64) : Signed64 (decodeZigZag n) := by
  rw [decodeZigZag_natCast, Signed64]
  split <;> omega

theorem encodeZigZag_eq {v : Int} : encodeZigZag v = ((match v with
      | .ofNat m => (2 * m) ^^^ (m >>> 63)
      | .negSucc m => (2 * m + 1) ^^^ (m >>> 63) : Nat) : Int) := by
  cases v with
  | ofNat m =>
    have hs : Int.ofNat m <<< (1 : Nat) = Int.ofNat (2 * m) := by
      rw [Int.shiftLeft_eq]
      simp only [Int.ofNat_eq_natCast]
      omega
    rfl
  | negSucc m =>
    rfl

theorem encodeZigZag_nonneg (v : Int) : 0 ≤ encodeZigZag v := by
  rw [encodeZigZag_eq]
  exact Int.natCast_nonneg _

variable {v : Int}

theorem decode_encodeZigZag (h : Signed64 v) : decodeZigZag (encodeZigZag v) = v ∧ (encodeZigZag v).toNat < 2 ^ 64 := by
  unfold Signed64 at h
  rw [encodeZigZag_eq, decodeZigZag_natCast]
  cases v with
  | ofNat m =>
    simp only [Int.ofNat_eq_natCast] at h ⊢
    have hm : m >>> 63 = 0 := by
      omega
    rw [hm, Nat.xor_zero]
    split <;> omega
  | negSucc m =>
    have hm : m >>> 63 = 0 := by
      omega
    simp only [hm, Nat.xor_zero]
    split <;> omega

theorem le_xor_shiftRight {m a : Nat} (hm : 2 ^ 63 ≤ m) (ha : 2 * m ≤ a) : 2 ^ 64 ≤ a ^^^ (m >>> 63) := by
  by_contra hlt
  have hs : 64 ≤ m.size := Nat.lt_size.mpr hm
  have htop : 2 ^ m.size ≤ a := by
    have : 2 ^ (m.size - 1) ≤ m := Nat.lt_size.mp (by omega)
    have hpow : 2 ^ m.size = 2 * 2 ^ (m.size - 1) := by
      rw [← pow_succ', show m.size - 1 + 1 = m.size by omega]
    omega
  have hx : a ^^^ (m >>> 63) < 2 ^ m.size :=
    lt_of_lt_of_le (not_le.mp hlt) (Nat.pow_le_pow_right (by decide) hs)
  have hb : m >>> 63 < 2 ^ m.size := by
    rw [Nat.shiftRight_eq_div_pow]
    exact lt_of_le_of_lt (Nat.div_le_self _ _) (Nat.lt_size_self m)
  have := Nat.xor_lt_two_pow hx hb
  rw [Nat.xor_assoc, Nat.xor_self, Nat.xor_zero] at this
  omega

theorem le_encodeZigZag (h : ¬ Signed64 v) : 2 ^ 64 ≤ (encodeZigZag v).toNat := by
  unfold Signed64 at h
  cases v with
  | ofNat m =>
    simp only [Int.ofNat_eq_natCast] at h
    exact le_xor_shiftRight (by omega) (le_refl _)
  | negSucc m => exact le_xor_shiftRight (by omega) (by omega)

/-! ## One vint -/

theorem foldl_vint (l : Bytes) (val : Nat) :
    l.foldl (fun val b => val <<< 8 ||| b.toNat) val = val * 256 ^ l.length + beDecode l := by
  induction l using reverseRecOn with
  | nil => simp
  | append_singleton l b ih =>
    rw [foldl_append, ih, beDecode_append_one, length_append, length_singleton]
    simp only [foldl_cons, foldl_nil]
    rw [← Nat.shiftLeft_add_eq_or_of_lt b.toNat_lt, Nat.shiftLeft_eq]
    ring

theorem extraBytes_spec (numBits ne v : Nat) (rb : Bytes) :
    ∃ w code, extraBytes numBits ne v rb = (ne + code.length, w, rb ++ code.reverse) ∧
      v = w * 256 ^ code.length + beDecode code ∧ numBits ≤ 8 * code.length + (8 - min (ne + code.length + 1) 8) ∧
      (ne ≤ 8 → numBits ≤ 64 - 8 * ne → ne + code.length ≤ 8) := by
  induction numBits, ne, v, rb using extraBytes.induct with
  | case1 numBits ne v rb h ih =>
    obtain ⟨w, code, heq, hv, hbt, he⟩ := ih
    refine ⟨w, code ++ [UInt8.ofNat v], ?_, ?_, ?_, ?_⟩
    · rw [extraBytes, if_pos h, heq]
      simp [Nat.add_assoc, Nat.add_comm 1]
    · rw [beDecode_append_one, length_append, length_singleton, pow_succ]
      have hb : (UInt8.ofNat v).toNat = v % 256 := UInt8.toNat_ofNat'
      rw [← mul_assoc]
      omega
    · rw [length_append, length_singleton]
      omega
    rw [length_append, length_singleton]
    omega
  | case2 numBits ne v rb h =>
    refine ⟨v, [], ?_, by simp, ?_, ?_⟩
    · rw [extraBytes, if_neg h]
      simp
    · omega
    simp only [length_nil]
    omega

theorem vintHead_small : ∀ z : Fin 128, vintHead (UInt8.ofNat z.val) = (0, z.val) := by
  decide +kernel

theorem vintHead_large : ∀ e : Fin 8, ∀ w : Fin 64, w.val < 2 ^ (8 - min (e.val + 2) 8) →
    vintHead (UInt8.ofNat (w.val ||| 255 >>> (7 - e.val) <<< (7 - e.val))) = (e.val + 1, w.val) := by
  decide +kernel

variable {first : UInt8}

theorem vintHead_bound : (vintHead first).1 ≤ 8 ∧ (vintHead first).2 < 2 ^ (8 - (vintHead first).1) := by
  unfold vintHead
  split
  · exact ⟨Nat.zero_le _, first.toNat_lt⟩
  refine ⟨Nat.sub_le _ _, lt_of_le_of_lt Nat.and_le_right ?_⟩
  have hm : ∀ e : Fin 9, 255 >>> e.val < 2 ^ (8 - e.val) := by decide
  exact hm ⟨8 - bitLength (~~~first).toNat, by omega⟩

theorem vintsUnpack_append {code : Bytes} {w : Nat} (h : vintHead first = (code.length, w)) (rest : Bytes) :
    vintsUnpack (first :: code ++ rest) =
      (vintsUnpack rest).map (decodeZigZag (w * 256 ^ code.length + beDecode code : Nat) :: ·) := by
  rw [cons_append, vintsUnpack, h]
  simp only [length_append, take_left, drop_left, foldl_vint]
  rw [if_neg (by omega)]

theorem vintPack_signed (h : Signed64 v) (rb : Bytes) : ∃ code, vintPack rb v = .ok (rb ++ code.reverse) ∧
      ∀ rest, vintsUnpack (code ++ rest) = (vintsUnpack rest).map (v :: ·) := by
  obtain ⟨hdec, hlt⟩ := decode_encodeZigZag h
  rw [← Int.toNat_of_nonneg (encodeZigZag_nonneg v)] at hdec
  unfold vintPack
  generalize (encodeZigZag v).toNat = z at *
  by_cases hz : z < 128
  · refine ⟨[UInt8.ofNat z], by simp only [if_pos hz, reverse_singleton], fun rest => ?_⟩
    have hh : vintHead (UInt8.ofNat z) = (([] : Bytes).length, z) := vintHead_small ⟨z, hz⟩
    simpa [hdec] using vintsUnpack_append hh rest
  have hs : 8 ≤ bitLength z := Nat.lt_size.mpr (by omega)
  have hs' : bitLength z ≤ 64 := Nat.size_le.mpr hlt
  obtain ⟨w, code, heq, hv, hb, he⟩ := extraBytes_spec _ 0 z rb
  rw [Nat.zero_add] at heq hb he
  have hlen : code.length ≤ 8 := he (Nat.zero_le _) hs'
  -- The number has no more bits than the first byte has room for.
  have hw : w < 2 ^ (8 - min (code.length + 1) 8) := by
    have hzlt : z < 2 ^ (8 * code.length + (8 - min (code.length + 1) 8)) :=
      lt_of_lt_of_le (Nat.lt_size_self z) (Nat.pow_le_pow_right (by decide) hb)
    rw [pow_add, pow_mul, mul_comm] at hzlt
    exact Nat.lt_of_mul_lt_mul_right (lt_of_le_of_lt (by rw [hv]; exact Nat.le_add_right _ _) hzlt)
  have hw64 : w < 64 := lt_of_lt_of_le hw (Nat.pow_le_pow_right (by decide) (by omega : _ ≤ 6))
  have hh := vintHead_large ⟨code.length - 1, by omega⟩ ⟨w, hw64⟩
    (by simpa [show code.length - 1 + 2 = code.length + 1 by omega] using hw)
  simp only [show code.length - 1 + 1 = code.length by omega,
    show 7 - (code.length - 1) = 8 - code.length by omega] at hh
  refine ⟨UInt8.ofNat (w ||| 255 >>> (8 - code.length) <<< (8 - code.length)) :: code, ?_, fun rest => ?_⟩
  · simp only [if_neg hz, heq, if_neg (not_lt.mpr hlen), reverse_cons, append_assoc]
  · rw [vintsUnpack_append hh, ← hv, hdec]

theorem vintPack_large (h : ¬ Signed64 v) (rb : Bytes) : vintPack rb v = .error v := by
  have hz := le_encodeZigZag h
  unfold vintPack
  generalize (encodeZigZag v).toNat = z at *
  have hs : 64 < bitLength z := Nat.lt_size.mpr hz
  obtain ⟨w, code, heq, -, hb, -⟩ := extraBytes_spec (bitLength z) 0 z rb
  rw [Nat.zero_add] at heq
  have hlen : 8 < code.length := by omega
  simp only [if_neg (show ¬ z < 128 by omega), heq, if_pos hlen]

/-! ## Lists of vints -/

variable {vs : List Int}

theorem foldlM_vintPack : ((∀ v ∈ vs, Signed64 v) ∧ ∃ rb, vs.reverse.foldlM vintPack [] = .ok rb ∧
      vintsUnpack rb.reverse = some vs) ∨ ∃ v ∈ vs, ¬ Signed64 v ∧ vs.reverse.foldlM vintPack [] = .error v := by
  induction vs with
  | nil => exact .inl ⟨by simp, [], rfl, by simp [vintsUnpack]⟩
  | cons v vs ih =>
    have hl (rb : Bytes) : [v].foldlM vintPack rb = vintPack rb v := bind_pure _
    rw [reverse_cons, foldlM_append]
    obtain ⟨hall, rb, hf, hr⟩ | ⟨u, hu, hs, hf⟩ := ih
    · rw [hf]
      by_cases hv : Signed64 v
      · obtain ⟨code, hp, hunp⟩ := vintPack_signed hv rb
        refine .inl ⟨by simpa [hv] using hall, rb ++ code.reverse, (hl _).trans hp, ?_⟩
        rw [reverse_append, reverse_reverse, hunp, hr]
        rfl
      · exact .inr ⟨v, mem_cons_self, hv, (hl _).trans (vintPack_large hv _)⟩
    · exact .inr ⟨u, mem_cons_of_mem v hu, hs, by rw [hf]; rfl⟩

theorem vintsUnpack_signed (term : Bytes) (h : vintsUnpack term = some vs) : ∀ v ∈ vs, Signed64 v := by
  induction term using vintsUnpack.induct generalizing vs with
  | case1 =>
    rw [vintsUnpack] at h
    cases h
    simp
  | case2 first rest numExtra val hh hs =>
    rw [vintsUnpack, hh] at h
    simp [hs] at h
  | case3 first rest numExtra val hh hlen ih =>
    rw [vintsUnpack, hh] at h
    simp only [if_neg hlen, foldl_vint, Option.map_eq_some_iff] at h
    obtain ⟨us, hus, rfl⟩ := h
    intro v hv
    rcases mem_cons.mp hv with rfl | hv
    · apply decodeZigZag_signed
      obtain ⟨hle, hval⟩ := vintHead_bound
      rw [hh] at hle hval
      have hdec := beDecode_lt (rest.take numExtra)
      rw [length_take_of_le (not_lt.mp hlen)] at hdec ⊢
      calc val * 256 ^ numExtra + beDecode (rest.take numExtra) < (val + 1) * 256 ^ numExtra := by rw [add_mul]; omega
        _ ≤ 2 ^ (8 - numExtra) * 256 ^ numExtra := Nat.mul_le_mul_right _ hval
        _ = 2 ^ (8 - numExtra + 8 * numExtra) := by rw [pow_add, pow_mul]; rfl
        _ ≤ 2 ^ 64 := Nat.pow_le_pow_right (by decide) (by omega)
    · exact ih hus v hv

/-- Exactly the lists of signed 64-bit numbers are packed and read back. -/
theorem vints_roundtrip : (∀ vs : List Int,
      ((∀ v ∈ vs, Signed64 v) ∧ ∃ term, vintsPack vs = .ok term ∧ vintsUnpack term = some vs) ∨
      ∃ v ∈ vs, ¬ Signed64 v ∧ vintsPack vs = .error v) ∧
    (∀ (term : Bytes) (vs : List Int), vintsUnpack term = some vs → ∀ v ∈ vs, Signed64 v) ∧
    ∀ duration : Duration, Signed64 duration.months → Signed64 duration.days → Signed64 duration.nanoseconds →
      ∃ byts, duration.serialize = .ok byts ∧ Duration.deserialize byts = some duration := by
  have hp (vs : List Int) : ((∀ v ∈ vs, Signed64 v) ∧ ∃ term, vintsPack vs = .ok term ∧ vintsUnpack term = some vs) ∨
      ∃ v ∈ vs, ¬ Signed64 v ∧ vintsPack vs = .error v := by
    unfold vintsPack
    obtain ⟨hall, revbytes, hf, hr⟩ | ⟨v, hv, hs, hf⟩ := foldlM_vintPack
    · exact .inl ⟨hall, revbytes.reverse, by rw [hf]; rfl, hr⟩
    · exact .inr ⟨v, hv, hs, by rw [hf]; rfl⟩
  refine ⟨hp, fun term vs h => vintsUnpack_signed term h, ?_⟩
  intro duration hm hd hn
  obtain ⟨-, byts, hb, hr⟩ | ⟨v, hv, hs, -⟩ :=
    hp [duration.months, duration.days, duration.nanoseconds]
  · exact ⟨byts, hb, by rw [Duration.deserialize, hr]⟩
  simp only [mem_cons, not_mem_nil, or_false] at hv
  rcases hv with rfl | rfl | rfl <;> contradiction

end CqlDriver.Types
