import CqlDriver.Lib.Bytes

/-! # Murmur3 -/

namespace CqlDriver.Murmur3

open Lib List

/-! ## `murmur3.py` -/

/-- Each with a sign and the lowest byte first. -/
def unpackItems (width : Nat) : Nat → Bytes → Option (List Int)
  | 0, _ => some []
  | n + 1, data => do
    let item ← unpackSigned width (data.take width).reverse
    let items ← unpackItems width n (data.drop width)
    return item :: items

/-- `struct.unpack_from`. A negative offset counts from the end. -/
def unpackFrom (width count : Nat) (data : Bytes) (offset : Int) : Option (List Int) :=
  unpackItems width count (data.drop (slicePlace data.length offset))

def bodyAndTail (data : Bytes) : Option (List Int × List Int × Nat) := do
  let l := data.length
  let nblocks := l / 16
  let tail := l % 16
  if nblocks ≠ 0 then
    let body ← unpackFrom 8 (2 * nblocks) data 0
    let rest ← unpackFrom 1 tail data (-tail)
    return (body, rest, l)
  else
    let rest ← unpackFrom 1 tail data (-tail)
    return ([], rest, l)

/-- The high bits are left as they are. -/
def rotl64 (x : Int) (r : Nat) : Int :=
  let mask : Int := 2 ^ r - 1
  (x <<< r).lor ((x >>> (64 - r)).land mask)

def fmix (k : Int) : Int :=
  let k := k.xor ((k >>> (33 : Nat)).land 0x7fffffff)
  let k := k * 0xff51afd7ed558ccd
  let k := k.xor ((k >>> (33 : Nat)).land 0x7fffffff)
  let k := k * 0xc4ceb9fe1a85ec53
  k.xor ((k >>> (33 : Nat)).land 0x7fffffff)

def truncateInt64 (x : Int) : Int :=
  if ¬ (-(2 ^ 63 - 1) - 1 ≤ x ∧ x ≤ 2 ^ 63 - 1) then (x + 2 ^ 63) % (2 * 2 ^ 63) - 2 ^ 63 else x

def c1 : Int := -8663945395140668459

def c2 : Int := 0x4cf5ad432745937f

def mixK1 (k1 : Int) : Int := rotl64 (k1 * c1) 31 * c2

def mixK2 (k2 : Int) : Int := rotl64 (k2 * c2) 33 * c1

def mixBlock (h : Int × Int) (k1 k2 : Int) : Int × Int :=
  let h1 := h.1.xor (mixK1 k1)
  let h1 := rotl64 h1 27
  let h1 := h1 + h.2
  let h1 := h1 * 5 + 0x52dce729
  let h2 := h.2.xor (mixK2 k2)
  let h2 := rotl64 h2 31
  let h2 := h2 + h1
  let h2 := h2 * 5 + 0x38495ab5
  (h1, h2)

def mixBody : List Int → Int × Int → Int × Int
  | k1 :: k2 :: body, h => mixBody body (mixBlock h k1 k2)
  | _, h => h

def xorBytes (tail : List Int) (places : List (Nat × Nat)) : Int :=
  places.foldl (fun (k : Int) (p : Nat × Nat) => k.xor (tail.getD p.1 0 <<< p.2)) 0

def mixTail (tail : List Int) (h : Int × Int) : Int × Int :=
  let h2 := if tail.length > 8 then
      h.2.xor (mixK2 (xorBytes tail ((List.range' 8 (tail.length - 8)).reverse.map fun i => (i, (i - 8) * 8))))
    else h.2
  let h1 := if tail.length ≠ 0 then
      h.1.xor (mixK1 (xorBytes tail ((List.range (min 7 (tail.length - 1) + 1)).reverse.map fun i => (i, i * 8))))
    else h.1
  (h1, h2)

def finish (h : Int × Int) (totalLen : Nat) : Int :=
  let h1 := h.1.xor totalLen
  let h2 := h.2.xor totalLen
  let h1 := h1 + h2
  let h2 := h2 + h1
  let h1 := fmix h1
  let h2 := fmix h2
  h1 + h2

def murmur3 (data : Bytes) : Option Int := do
  let (body, tail, totalLen) ← bodyAndTail data
  let h := mixBody body (0, 0)
  let h := mixTail tail h
  return truncateInt64 (finish h totalLen)

/-! ## `cmurmur3.c` -/

namespace C

def rotl64 (x : BitVec 64) (r : Nat) : BitVec 64 := (x <<< r) ||| (x >>> (64 - r))

def getblock (p : Bytes) (i : Nat) : BitVec 64 := BitVec.ofNat 64 (beDecode ((p.drop (8 * i)).take 8).reverse)

def fmix (k : BitVec 64) : BitVec 64 :=
  let k := k ^^^ (k >>> 33)
  let k := k * 0xff51afd7ed558ccd#64
  let k := k ^^^ (k >>> 33)
  let k := k * 0xc4ceb9fe1a85ec53#64
  k ^^^ (k >>> 33)

def c1 : BitVec 64 := 0x87c37b91114253d5#64

def c2 : BitVec 64 := 0x4cf5ad432745937f#64

def mixK1 (k1 : BitVec 64) : BitVec 64 := rotl64 (k1 * c1) 31 * c2

def mixK2 (k2 : BitVec 64) : BitVec 64 := rotl64 (k2 * c2) 33 * c1

def mixBlock (h : BitVec 64 × BitVec 64) (k1 k2 : BitVec 64) : BitVec 64 × BitVec 64 :=
  let h1 := h.1 ^^^ mixK1 k1
  let h1 := rotl64 h1 27
  let h1 := h1 + h.2
  let h1 := h1 * 5 + 0x52dce729
  let h2 := h.2 ^^^ mixK2 k2
  let h2 := rotl64 h2 31
  let h2 := h2 + h1
  let h2 := h2 * 5 + 0x38495ab5
  (h1, h2)

def mixBody (data : Bytes) (nblocks : Nat) (h : BitVec 64 × BitVec 64) : BitVec 64 × BitVec 64 :=
  (List.range nblocks).foldl (fun h i => mixBlock h (getblock data (i * 2 + 0)) (getblock data (i * 2 + 1))) h

def tailByte (tail : Bytes) (i shift : Nat) : BitVec 64 := (tail.getD i 0).toBitVec.signExtend 64 <<< shift

/-- Each case of the `switch` falls through to the next. -/
def xorBytes (tail : Bytes) (n : Nat) (places : List (Nat × Nat)) : BitVec 64 :=
  places.foldl (fun k p => if p.1 < n then k ^^^ tailByte tail p.1 p.2 else k) 0

def mixTail (tail : Bytes) (n : Nat) (h : BitVec 64 × BitVec 64) : BitVec 64 × BitVec 64 :=
  let h2 := if 9 ≤ n then
      h.2 ^^^ mixK2 (xorBytes tail n [(14, 48), (13, 40), (12, 32), (11, 24), (10, 16), (9, 8), (8, 0)])
    else h.2
  let h1 := if 1 ≤ n then
      h.1 ^^^ mixK1 (xorBytes tail n [(7, 56), (6, 48), (5, 40), (4, 32), (3, 24), (2, 16), (1, 8), (0, 0)])
    else h.1
  (h1, h2)

def finish (h : BitVec 64 × BitVec 64) (len : BitVec 64) : BitVec 64 :=
  let h1 := h.1 ^^^ len
  let h2 := h.2 ^^^ len
  let h1 := h1 + h2
  let h2 := h2 + h1
  let h1 := fmix h1
  let h2 := fmix h2
  h1 + h2

/-- `len` is an `int` and `seed` a `uint32_t`. -/
def murmurHash3X64128 (key : Bytes) (len seed : BitVec 32) : BitVec 64 :=
  let nblocks := (len.toInt.tdiv 16).toNat
  let h := (seed.setWidth 64, seed.setWidth 64)
  let h := mixBody key nblocks h
  let h := mixTail (key.drop (nblocks * 16)) (len &&& 15).toNat h
  finish h (len.signExtend 64)

def murmur3 (key : Bytes) : Int := (murmurHash3X64128 key (BitVec.ofNat 32 key.length) 0).toInt

end C

/-! ## The operations agree in the low 64 bits -/

def low (x : Int) : BitVec 64 := BitVec.ofInt 64 x

def low₂ (h : Int × Int) : BitVec 64 × BitVec 64 := (low h.1, low h.2)

theorem low_add (x y : Int) : low (x + y) = low x + low y := BitVec.ofInt_add x y

theorem low_mul (x y : Int) : low (x * y) = low x * low y := BitVec.ofInt_mul x y

theorem low_xor (x y : Int) : low (x.xor y) = low x ^^^ low y := ofInt_xor 64 x y

theorem low_rotl64 (x : Int) {r : Nat} (h : r ≤ 64) : low (rotl64 x r) = C.rotl64 (low x) r := by
  have hs : low ((x >>> (64 - r)).land (2 ^ r - 1)) = low x >>> (64 - r) :=
    ofInt_shiftRight_mask (by omega) x
  have hl : low (x <<< r) = low x <<< r := ofInt_shiftLeft 64 x r
  calc low (rotl64 x r)
    _ = low (x <<< r) ||| low ((x >>> (64 - r)).land (2 ^ r - 1)) := ofInt_lor 64 _ _
    _ = C.rotl64 (low x) r := by rw [hl, hs, C.rotl64]

theorem low_fmix (k : Int) : low (fmix k) = C.fmix (low k) := by
  have hxor (k : Int) : low (k.xor ((k >>> (33 : Nat)).land 0x7fffffff)) = low k ^^^ (low k >>> 33) := by
    have hs : low ((k >>> (33 : Nat)).land (2 ^ 31 - 1)) = low k >>> 33 := ofInt_shiftRight_mask (by norm_num) k
    norm_num at hs
    rw [low_xor, hs]
  rw [fmix, hxor, low_mul, hxor, low_mul, hxor]
  rfl

theorem low_mixK1 (k1 : Int) : low (mixK1 k1) = C.mixK1 (low k1) := by
  rw [mixK1, low_mul, low_rotl64 _ (by norm_num), low_mul]
  rfl

theorem low_mixK2 (k2 : Int) : low (mixK2 k2) = C.mixK2 (low k2) := by
  rw [mixK2, low_mul, low_rotl64 _ (by norm_num), low_mul]
  rfl

theorem low_mixBlock (h : Int × Int) (k1 k2 : Int) :
    low₂ (mixBlock h k1 k2) = C.mixBlock (low₂ h) (low k1) (low k2) := by
  simp only [low₂, mixBlock, low_add, low_mul, low_xor, low_rotl64 _ (show 27 ≤ 64 by norm_num),
    low_rotl64 _ (show 31 ≤ 64 by norm_num), low_mixK1, low_mixK2]
  rfl

theorem low_finish (h : Int × Int) (totalLen : Nat) : low (finish h totalLen) = C.finish (low₂ h) (low totalLen) := by
  simp only [finish, C.finish, low₂, low_add, low_xor, low_fmix]

theorem truncateInt64_eq (x : Int) : truncateInt64 x = (low x).toInt := by
  rw [low, BitVec.toInt_ofInt, truncateInt64, Int.bmod_def]
  split <;> split <;> omega

theorem foldl_hom_of_mem {α β γ : Type} (φ : α → γ) {f : α → β → α} {g : γ → β → γ} {l : List β}
    (h : ∀ a, ∀ b ∈ l, φ (f a b) = g (φ a) b) (a : α) : φ (l.foldl f a) = l.foldl g (φ a) := by
  induction l generalizing a with
  | nil => rfl
  | cons b l ih =>
    rw [foldl_cons, foldl_cons, ih (fun a b hb => h a b (mem_cons_of_mem _ hb)), h a b mem_cons_self]

/-! ## Reading the words -/

variable {data tail : Bytes} {n : Nat}

theorem unpackItems_eq {w count : Nat} (h : w * count ≤ data.length) : unpackItems w count data =
      some ((range count).map fun j => signedValue ((data.drop (w * j)).take w).reverse) := by
  induction count generalizing data with
  | zero => rfl
  | succ count ih =>
    rw [Nat.mul_succ] at h
    have hi : unpackSigned w (data.take w).reverse = some (signedValue (data.take w).reverse) := by
      rw [unpackSigned, if_pos]
      rw [length_reverse, length_take]
      omega
    have hr := @ih (data.drop w) (by rw [length_drop]; omega)
    simp only [unpackItems, hi, hr, range_succ_eq_map, map_cons, map_map, Function.comp_def,
      drop_drop, Nat.mul_zero, drop_zero, Option.bind_eq_bind, Option.bind_some, Option.pure_def,
      Nat.succ_eq_add_one, Nat.mul_add, Nat.mul_one, Nat.add_comm w]

theorem mixBody_words (word : Nat → Int) (nb : Nat) (h : Int × Int) : mixBody ((range (2 * nb)).map word) h =
      (range nb).foldl (fun h i => mixBlock h (word (i * 2 + 0)) (word (i * 2 + 1))) h := by
  induction nb generalizing word h with
  | zero => rfl
  | succ n ih =>
    have hw : (range (2 * (n + 1))).map word =
        word 0 :: word 1 :: (range (2 * n)).map fun j => word (j + 2) := by
      simp [Nat.mul_succ, range_succ_eq_map]
    rw [hw, mixBody, ih, range_succ_eq_map, foldl_cons, foldl_map]
    simp only [Nat.succ_eq_add_one, Nat.add_mul]

theorem low_signedValue {l : Bytes} (h : l.length = 8) : low (signedValue l) = BitVec.ofNat 64 (beDecode l) := by
  have hw : low (beDecode l) = BitVec.ofNat 64 (beDecode l) := BitVec.ofInt_natCast ..
  rw [signedValue, h]
  split
  · exact hw
  have hwr : low (beDecode l - 256 ^ 8) = low (beDecode l) := by
    have hz : low (-256 ^ 8) = 0#64 := by decide
    rw [sub_eq_add_neg, low_add, hz, BitVec.add_zero]
  rw [hwr, hw]

theorem low_mixBody {nblocks : Nat} (h : 16 * nblocks ≤ data.length) (s : Int × Int) :
    low₂ (mixBody ((range (2 * nblocks)).map fun j => signedValue ((data.drop (8 * j)).take 8).reverse) s) =
      C.mixBody data nblocks (low₂ s) := by
  have hw : ∀ j < 2 * nblocks, low (signedValue ((data.drop (8 * j)).take 8).reverse) = C.getblock data j := by
    intro j hj
    refine low_signedValue ?_
    rw [length_reverse, length_take, length_drop]
    omega
  rw [mixBody_words]
  refine foldl_hom_of_mem low₂ (fun h i hi => ?_) s
  have hi : i < nblocks := mem_range.mp hi
  rw [low_mixBlock, hw _ (by omega), hw _ (by omega)]

/-! ## The tail -/

theorem low_signedByte (b : UInt8) : low (signedValue [b]) = b.toBitVec.signExtend 64 := by
  have hv : signedValue [b] = b.toBitVec.toInt := by
    have hdec : beDecode [b] = b.toNat := by simp [beDecode]
    rw [signedValue, BitVec.toInt, UInt8.toNat_toBitVec, length_singleton]
    split <;> split <;> omega
  rw [hv]
  rfl

theorem places_k2 : ∀ n < 16, ((range' 8 (n - 8)).reverse.map fun i => (i, (i - 8) * 8)) =
    [(14, 48), (13, 40), (12, 32), (11, 24), (10, 16), (9, 8), (8, 0)].filter fun p => p.1 < n := by
  decide

theorem places_k1 : ∀ n < 16, n ≠ 0 → ((range (min 7 (n - 1) + 1)).reverse.map fun i => (i, i * 8)) =
    [(7, 56), (6, 48), (5, 40), (4, 32), (3, 24), (2, 16), (1, 8), (0, 0)].filter fun p => p.1 < n := by
  decide

theorem low_xorBytes (h : n ≤ tail.length) (places : List (Nat × Nat)) :
    low (xorBytes ((range n).map fun j => signedValue ((tail.drop (1 * j)).take 1).reverse)
      (places.filter fun p => p.1 < n)) = C.xorBytes tail n places := by
  have hb : ∀ p ∈ places.filter fun p => p.1 < n, low
      (((range n).map fun j => signedValue ((tail.drop (1 * j)).take 1).reverse).getD p.1 0 <<< p.2) =
        C.tailByte tail p.1 p.2 := by
    intro p hp
    have hp : p.1 < n := by simpa using (mem_filter.mp hp).2
    have hone : (tail.drop (1 * p.1)).take 1 = [tail.getD p.1 0] := by
      rw [Nat.one_mul, getD_eq_getElem, drop_eq_getElem_cons (by omega)]
      rfl
    have hget : ((range n).map fun j => signedValue ((tail.drop (1 * j)).take 1).reverse).getD p.1 0 =
        signedValue [tail.getD p.1 0] := by
      rw [getD_eq_getElem _ _ (by simpa using hp), getElem_map, getElem_range, hone]
      rfl
    rw [hget, C.tailByte, ← low_signedByte]
    exact ofInt_shiftLeft 64 _ _
  have hc : C.xorBytes tail n places =
      (places.filter fun p => p.1 < n).foldl (fun k p => k ^^^ C.tailByte tail p.1 p.2) (low 0) := by
    rw [foldl_filter]
    simp only [decide_eq_true_eq]
    rfl
  rw [hc]
  refine foldl_hom_of_mem low (fun k p hp => ?_) 0
  rw [low_xor, hb p hp]

theorem low_mixTail (h : n ≤ tail.length) (hn : n < 16) (s : Int × Int) :
    low₂ (mixTail ((range n).map fun j => signedValue ((tail.drop (1 * j)).take 1).reverse) s) =
      C.mixTail tail n (low₂ s) := by
  have hk2 := low_xorBytes h [(14, 48), (13, 40), (12, 32), (11, 24), (10, 16), (9, 8), (8, 0)]
  have hk1 := low_xorBytes h [(7, 56), (6, 48), (5, 40), (4, 32), (3, 24), (2, 16), (1, 8), (0, 0)]
  rw [← places_k2 n hn] at hk2
  simp only [mixTail, C.mixTail, length_map, length_range, low₂, Prod.mk.injEq]
  constructor
  · by_cases hz : n = 0
    · rw [if_neg (by omega), if_neg (by omega)]
    rw [← places_k1 n hn hz] at hk1
    rw [if_pos hz, if_pos (by omega), low_xor, low_mixK1, hk1]
  by_cases hl : n > 8
  · rw [if_pos hl, if_pos (by omega), low_xor, low_mixK2, hk2]
  · rw [if_neg hl, if_neg (by omega)]

theorem bodyAndTail_eq (data : Bytes) : bodyAndTail data = some (
    (range (2 * (data.length / 16))).map fun j => signedValue ((data.drop (8 * j)).take 8).reverse,
    (range (data.length % 16)).map fun j =>
      signedValue (((data.drop (data.length / 16 * 16)).drop (1 * j)).take 1).reverse, data.length) := by
  have hr : unpackFrom 1 (data.length % 16) data (-(data.length % 16 : Nat)) =
      some ((range (data.length % 16)).map fun j =>
        signedValue (((data.drop (data.length / 16 * 16)).drop (1 * j)).take 1).reverse) := by
    rw [unpackFrom]
    by_cases hz : data.length % 16 = 0
    · rw [hz]
      rfl
    have hp : slicePlace data.length (-(data.length % 16 : Nat)) = data.length / 16 * 16 := by
      rw [slicePlace, if_pos (by omega)]
      omega
    rw [hp, unpackItems_eq]
    rw [length_drop]
    omega
  have hbd : unpackFrom 8 (2 * (data.length / 16)) data 0 =
      some ((range (2 * (data.length / 16))).map fun j => signedValue ((data.drop (8 * j)).take 8).reverse) := by
    have hp : slicePlace data.length 0 = 0 := by simp [slicePlace]
    rw [unpackFrom, hp, drop_zero, unpackItems_eq (by omega)]
  unfold bodyAndTail
  simp only [hr, hbd]
  split
  · rfl
  rename_i hb
  rw [not_not] at hb
  simp [hb]

/-- The Python code returns what the C code does. -/
theorem murmur3_eq (data : Bytes) (h : data.length < 2 ^ 31) : murmur3 data = some (C.murmur3 data) := by
  have hlen : (BitVec.ofNat 32 data.length).toInt = data.length := by
    rw [BitVec.toInt_ofNat', Int.bmod_def]
    split <;> omega
  have hb : ((BitVec.ofNat 32 data.length).toInt.tdiv 16).toNat = data.length / 16 := by
    rw [hlen]
    rfl
  have ht : (BitVec.ofNat 32 data.length &&& 15).toNat = data.length % 16 := by
    have hm : (15 : BitVec 32).toNat = 2 ^ 4 - 1 := rfl
    rw [BitVec.toNat_and, hm, Nat.and_two_pow_sub_one_eq_mod, BitVec.toNat_ofNat]
    omega
  have hext : (BitVec.ofNat 32 data.length).signExtend 64 = low data.length := by
    rw [← hlen]
    rfl
  have hr : data.length % 16 ≤ (data.drop (data.length / 16 * 16)).length := by
    rw [length_drop]
    omega
  rw [murmur3, bodyAndTail_eq, Option.bind_eq_bind, Option.bind_some]
  dsimp only
  rw [truncateInt64_eq, low_finish, low_mixTail hr (Nat.mod_lt _ (by norm_num)), low_mixBody (by omega)]
  simp only [C.murmur3, C.murmurHash3X64128, hb, ht, hext]
  rfl

theorem murmur3_bytes : murmur3 [0x31, 0x32, 0x33] = some (-7468325962851647638) ∧
    murmur3 (List.replicate 10 [0x00, 0xff, 0x10, 0xfa, 0x99]).flatten = some 5837342703291459765 :=
  ⟨(murmur3_eq _ (by decide)).trans (by decide), (murmur3_eq _ (by decide)).trans (by decide)⟩

end CqlDriver.Murmur3
