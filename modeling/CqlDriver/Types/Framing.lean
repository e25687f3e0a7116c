import CqlDriver.Types.Fits

/-! # Items with their length in front -/

namespace CqlDriver.Types

open Lib List Option

/-! ## Length fields -/

def lengthBytes (p n : Nat) : Bytes := if p ≥ 3 then signedBytes 4 n else beEncode 2 n

def framed (p : Nat) (b : Bytes) : Bytes := lengthBytes p b.length ++ b

@[simp] theorem lengthBytes_length (p n : Nat) : (lengthBytes p n).length = lengthWidth p := by
  unfold lengthBytes lengthWidth
  split <;> simp

theorem packLength_eq {p n : Nat} (h : n < lengthLimit p) : packLength p n = some (lengthBytes p n) := by
  unfold lengthLimit at h
  unfold packLength lengthBytes
  split at h
  · rw [if_pos (by assumption), if_pos (by assumption), packSigned, if_pos (by omega)]
  · rw [if_neg (by assumption), if_neg (by assumption), packUnsigned, if_pos (by omega), Int.toNat_natCast]

theorem unpackLength_eq {p n : Nat} (h : n < lengthLimit p) : unpackLength p (lengthBytes p n) = some (n : Int) := by
  have hp := packLength_eq h
  unfold packLength at hp
  unfold unpackLength
  split at hp
  · rw [if_pos (by assumption), unpackSigned_packSigned hp]
  · rw [if_neg (by assumption), unpackUnsigned_packUnsigned hp]

theorem count_take (p n : Nat) (xs : Bytes) : (lengthBytes p n ++ xs).take (lengthWidth p) = lengthBytes p n :=
  take_left' (lengthBytes_length p n)

theorem count_ne_nil (p n : Nat) (xs : Bytes) : lengthBytes p n ++ xs ≠ [] := by
  apply ne_nil_of_length_pos
  rw [length_append, lengthBytes_length, lengthWidth]
  split <;> omega

theorem slice_framed_length (p : Nat) (pre b post : Bytes) :
    slice (pre ++ (framed p b ++ post)) pre.length (pre.length + lengthWidth p) = lengthBytes p b.length := by
  rw [framed, append_assoc, ← lengthBytes_length]
  exact slice_middle ..

theorem slice_framed_item (p : Nat) (pre b post : Bytes) :
    slice (pre ++ (framed p b ++ post)) (pre.length + lengthWidth p) (pre.length + lengthWidth p + b.length) = b := by
  have hs : pre ++ (framed p b ++ post) = (pre ++ lengthBytes p b.length) ++ (b ++ post) := by
    simp [framed]
  have hpos : (pre.length : Int) + lengthWidth p = (pre ++ lengthBytes p b.length).length := by simp
  rw [hs, hpos]
  exact slice_middle ..

theorem framed_end (p : Nat) (pre b : Bytes) :
    (pre.length : Int) + lengthWidth p + b.length = (pre ++ framed p b).length := by
  simp [framed]
  omega

theorem readItem_eq {p : Nat} {pre b post : Bytes} (h : b.length < lengthLimit p) :
    readItem p (pre ++ (framed p b ++ post)) pre.length = some (b, ((pre ++ framed p b).length : Int)) := by
  simp only [readItem, slice_framed_length, unpackLength_eq h, bind_eq_bind, bind_some, Option.pure_def]
  rw [slice_framed_item, framed_end]

theorem sizedItem_eq {p : Nat} {b : Bytes} (h : b.length < lengthLimit p) :
    sizedItem p (some b) = some (framed p b) := by
  simp [sizedItem, packLength_eq h, framed]

theorem serializeItems_eq {p : Nat} {bs : List Bytes} (h : ∀ b ∈ bs, b.length < lengthLimit p) :
    serializeItems p (bs.map some) = some (bs.flatMap (framed p)) := by
  have hp : (bs.map some).mapM (sizedItem p) = some (bs.map (framed p)) := by
    induction bs with
    | nil => rfl
    | cons b bs ih =>
      rw [forall_mem_cons] at h
      simp [sizedItem_eq h.1, ih h.2]
  simp [serializeItems, hp, flatMap]

theorem readItems_eq {p : Nat} {item : Bytes → Option Value} {bs : List Bytes} {ws : List Value}
    (h : Forall₂ (fun b w => b.length < lengthLimit p ∧ item b = some w) bs ws) (pre : Bytes) :
    readItems p item (pre ++ bs.flatMap (framed p)) ws.length pre.length = some ws := by
  induction h generalizing pre with
  | nil => rfl
  | @cons b w bs ws hb _ ih =>
    have hn := ih (pre ++ framed p b)
    rw [append_assoc] at hn
    rw [flatMap_cons, length_cons, readItems, readItem_eq hb.1]
    simp only [bind_eq_bind, bind_some, hb.2, hn, Option.pure_def]

theorem readPairs_eq {p : Nat} (key v : Bytes → Option Value) {bs : List (Bytes × Bytes)}
    {ws : List (Value × Value)}
    (h : Forall₂ (fun b w => (b.1.length < lengthLimit p ∧ key b.1 = some w.1) ∧
      b.2.length < lengthLimit p ∧ v b.2 = some w.2) bs ws) (pre : Bytes) :
    readPairs p key v (pre ++ (bs.flatMap fun b => [b.1, b.2]).flatMap (framed p)) ws.length pre.length = some ws := by
  induction h generalizing pre with
  | nil => rfl
  | @cons b w bs ws hb _ ih =>
    have hn := ih (pre ++ framed p b.1 ++ framed p b.2)
    rw [append_assoc, append_assoc] at hn
    have hsnd := @readItem_eq p (pre ++ framed p b.1) b.2 ((bs.flatMap fun b => [b.1, b.2]).flatMap (framed p)) hb.2.1
    rw [append_assoc] at hsnd
    simp only [flatMap_cons, cons_append, nil_append, length_cons, readPairs]
    rw [readItem_eq hb.1.1]
    simp only [bind_eq_bind, bind_some, hsnd, hb.1.2, hb.2.2, hn, Option.pure_def]

/-! ## Fields of tuples -/

section

variable {t : CqlType} {ts : List CqlType} {p : Nat} {b : Bytes} {ws : List Value}

theorem packSigned_null : packSigned 4 (-1) = some (signedBytes 4 (-1)) := by decide

variable {vs : List Value} {ib : Bytes}

theorem serializeTuple_none (hr : serializeTuple ts vs p = some b) :
    serializeTuple (t :: ts) (.none :: vs) p = some (signedBytes 4 (-1) ++ b) := by
  simp [serializeTuple, packSigned_null, hr]

theorem serializeTuple_item {v : Value} (hv : v ≠ .none) (hl : ib.length < lengthLimit 3)
    (hser : serialize t v (innerProto p) = some ib) (hr : serializeTuple ts vs p = some b) :
    serializeTuple (t :: ts) (v :: vs) p = some (framed 3 ib ++ b) := by
  have hs := sizedItem_eq hl
  rw [← hser] at hs
  unfold serializeTuple
  cases v <;> first | exact absurd rfl hv | simp [hs, hr]

theorem deserializeTuple_none (hr : ∀ pre : Bytes, deserializeTuple ts (pre ++ b) pre.length p = some ws) (pre : Bytes) :
    deserializeTuple (t :: ts) (pre ++ (signedBytes 4 (-1) ++ b)) pre.length p = some (.none :: ws) := by
  have hn := hr (pre ++ signedBytes 4 (-1))
  have hlen := slice_middle pre (signedBytes 4 (-1)) b
  simp only [append_assoc, length_append, signedBytes_length, Nat.cast_add, Nat.cast_ofNat] at hn hlen
  have hm : ¬ (pre.length : Int) = (pre ++ (signedBytes 4 (-1) ++ b)).length := by
    simp only [length_append, signedBytes_length]
    omega
  unfold deserializeTuple
  simp only [if_neg hm, hlen, unpackSigned_packSigned packSigned_null]
  simp [fromBinaryWith, hn]

theorem deserializeTuple_item {w : Value} (hl : ib.length < lengthLimit 3)
    (hfr : fromBinary t (some ib) (innerProto p) = some w)
    (hr : ∀ pre : Bytes, deserializeTuple ts (pre ++ b) pre.length p = some ws) (pre : Bytes) :
    deserializeTuple (t :: ts) (pre ++ (framed 3 ib ++ b)) pre.length p = some (w :: ws) := by
  have hn := hr (pre ++ framed 3 ib)
  rw [append_assoc] at hn
  have hlen := unpackLength_eq hl
  rw [unpackLength, if_pos le_rfl] at hlen
  have hm : ¬ (pre.length : Int) = (pre ++ (framed 3 ib ++ b)).length := by
    simp only [framed, length_append, lengthBytes_length, lengthWidth, Nat.le_refl, if_true]
    omega
  have hf := slice_framed_length 3 pre ib b
  have hsnd := slice_framed_item 3 pre ib b
  have hend := framed_end 3 pre ib
  simp only [lengthWidth, Nat.le_refl, if_true, Nat.cast_ofNat] at hf hsnd hend
  rw [hend] at hsnd
  have hpos : (ib.length : Int) ≥ 0 := Int.natCast_nonneg _
  unfold fromBinary at hfr
  unfold deserializeTuple
  simp only [if_neg hm, hf, hlen, bind_eq_bind, bind_some, if_pos hpos, hend, hsnd, hfr, hn, Option.pure_def]

end

/-! ## The base methods -/

theorem toBinaryWith_eq {f : Value → Nat → Option Bytes} {v : Value} {p : Nat} (h : v ≠ .none) :
    toBinaryWith f v p = f v p := by
  cases v <;> first | rfl | exact absurd rfl h

theorem fromBinaryWith_eq {emptyOk : Bool} {f : Bytes → Nat → Option Value} {b : Bytes} {p : Nat}
    (h : b = [] → emptyOk) : fromBinaryWith emptyOk f (some b) p = f b p := by
  apply if_neg
  rintro ⟨hnil, hf⟩
  rw [h hnil] at hf
  cases hf

end CqlDriver.Types
