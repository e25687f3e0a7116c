import CqlDriver.Types.Codec
import Mathlib.Data.List.Forall2

/-! # Which values are in question -/

namespace CqlDriver.Types

open Lib

/-! ## The types in question -/

mutual

def hasSetOrMap : CqlType → Bool
  | .set _ | .map _ _ => true
  | .list t | .frozen t | .reversed t => hasSetOrMap t
  | .tuple ts | .udt ts => anyHasSetOrMap ts
  | _ => false

def anyHasSetOrMap : List CqlType → Bool
  | [] => false
  | t :: ts => hasSetOrMap t || anyHasSetOrMap ts

end

def isCompound : CqlType → Bool
  | .list _ | .set _ | .map _ _ | .tuple _ | .udt _ => true
  | _ => false

mutual

/-- No empty tuple, no set or map in a set. -/
def TypeOk : CqlType → Prop
  | .list t => TypeOk t
  | .set t => TypeOk t ∧ hasSetOrMap t = false
  | .map k t => TypeOk k ∧ TypeOk t
  | .tuple ts | .udt ts => ts ≠ [] ∧ TypesOk ts
  | .frozen t | .reversed t => isCompound t = true ∧ TypeOk t
  | _ => True

def TypesOk : List CqlType → Prop
  | [] => True
  | t :: ts => TypeOk t ∧ TypesOk ts

end

/-! ## The values in question -/

def lengthLimit (p : Nat) : Nat := if p ≥ 3 then 2 ^ 31 else 2 ^ 16

def InRange (width : Nat) (n : Int) : Prop := -256 ^ width ≤ 2 * n ∧ 2 * n < 256 ^ width

def SizeOk (t : CqlType) (p limit : Nat) (v : Value) : Prop :=
  ∀ b, toBinary t v p = some b → b.length < limit

theorem sizeOk_of_eq {t : CqlType} {p limit : Nat} {v : Value} {b : Bytes} (hb : toBinary t v p = some b)
    (hlen : b.length < limit) : SizeOk t p limit v := by
  intro b' hb'
  rw [hb, Option.some.injEq] at hb'
  rwa [← hb']

mutual

/-- Version `p` has room; with `full` no component is missing. -/
def Fits (full : Bool) : CqlType → Nat → Value → Prop
  | .ascii, _, .str s => ∀ c ∈ s, c.toNat < 128
  | .text, _, .str _ | .blob, _, .bytes _ | .boolean, _, .bool _ | .varint, _, .int _ | .uuid, _, .uuid _ => True
  | .tinyint, _, .int n => InRange 1 n
  | .smallint, _, .int n => InRange 2 n
  | .int, _, .int n => InRange 4 n
  | .bigint, _, .int n => InRange 8 n
  | .list t, p, .list vs =>
    vs.length < lengthLimit p ∧ ∀ v ∈ vs, Fits full t (innerProto p) v ∧ SizeOk t (innerProto p) (lengthLimit p) v
  | .set t, p, .set vs =>
    vs.Nodup ∧ vs.length < lengthLimit p ∧
      ∀ v ∈ vs, Fits true t (innerProto p) v ∧ SizeOk t (innerProto p) (lengthLimit p) v
  | .map k t, p, .map kvs =>
    kvs.length < lengthLimit p ∧ ∀ kv ∈ kvs,
      (Fits full k (innerProto p) kv.1 ∧ SizeOk k (innerProto p) (lengthLimit p) kv.1) ∧
      (Fits full t (innerProto p) kv.2 ∧ SizeOk t (innerProto p) (lengthLimit p) kv.2)
  | .tuple ts, p, .tuple vs =>
    vs ≠ [] ∧ vs.length ≤ ts.length ∧ (full = true → vs.length = ts.length) ∧ FitsAll full ts p vs
  | .udt ts, p, .tuple vs => vs.length = ts.length ∧ FitsAll full ts p vs
  | .frozen t, p, v | .reversed t, p, v => Fits full t p v
  | _, _, _ => False

def FitsAll (full : Bool) : List CqlType → Nat → List Value → Prop
  | t :: ts, p, v :: vs =>
    (v = .none ∧ full = false ∨ Fits full t (innerProto p) v ∧ SizeOk t (innerProto p) (2 ^ 31) v) ∧
      FitsAll full ts p vs
  | _, _, _ => True

end

mutual

/-- The same value, sets as sets, and tuples filled up. -/
def ReadsBack : CqlType → Value → Value → Prop
  | .list t, .list vs, .list ws => List.Forall₂ (ReadsBack t) vs ws
  | .set _, .set vs, .set ws => ws.Perm vs
  | .map k t, .map kvs, .map kws =>
    List.Forall₂ (fun kv kw => ReadsBack k kv.1 kw.1 ∧ ReadsBack t kv.2 kw.2) kvs kws
  | .tuple ts, .tuple vs, .tuple ws | .udt ts, .tuple vs, .tuple ws => ReadsBackAll ts vs ws
  | .frozen t, v, w | .reversed t, v, w => ReadsBack t v w
  | _, v, w => w = v

def ReadsBackAll : List CqlType → List Value → List Value → Prop
  | [], vs, ws => vs = [] ∧ ws = []
  | _ :: ts, [], ws => ws = List.replicate (ts.length + 1) .none
  | t :: ts, v :: vs, w :: ws => (v = .none ∧ w = .none ∨ v ≠ .none ∧ ReadsBack t v w) ∧ ReadsBackAll ts vs ws
  | _, _, _ => False

end

theorem not_fits_none (full : Bool) (p : Nat) : ∀ t : CqlType, ¬ Fits full t p .none
  | .frozen t, h | .reversed t, h => not_fits_none full p t (by simpa only [Fits] using h)
  | .ascii, h | .text, h | .blob, h | .boolean, h | .tinyint, h | .smallint, h | .int, h | .bigint, h
  | .varint, h | .uuid, h | .list _, h | .set _, h | .map _ _, h | .tuple _, h | .udt _, h => by
    simp [Fits] at h

/-! ## Elements of sets -/

mutual

theorem eq_of_pyEq : ∀ a b : Value, pyEq a b → a = b
  | .none, b, h | .str _, b, h | .bytes _, b, h | .bool _, b, h | .int _, b, h | .uuid _, b, h => by
    cases b <;> simp_all [pyEq]
  | .list as, b, h | .set as, b, h | .tuple as, b, h => by
    cases b <;> simp only [pyEq, Bool.false_eq_true] at h
    rw [eq_of_pyEqList as _ h]
  | .map as, b, h => by
    cases b <;> simp only [pyEq, Bool.false_eq_true] at h
    rw [eq_of_pyEqPairs as _ h]

theorem eq_of_pyEqList : ∀ as bs : List Value, pyEqList as bs → as = bs
  | [], bs, h => by cases bs <;> simp_all [pyEqList]
  | a :: as, [], h => by simp [pyEqList] at h
  | a :: as, b :: bs, h => by
    rw [pyEqList, Bool.and_eq_true] at h
    rw [eq_of_pyEq a b h.1, eq_of_pyEqList as bs h.2]

theorem eq_of_pyEqPairs : ∀ as bs : List (Value × Value), pyEqPairs as bs → as = bs
  | [], bs, h => by cases bs <;> simp_all [pyEqPairs]
  | a :: as, [], h => by simp [pyEqPairs] at h
  | (k, a) :: as, (k', b) :: bs, h => by
    rw [pyEqPairs, Bool.and_eq_true, Bool.and_eq_true] at h
    rw [eq_of_pyEq k k' h.1.1, eq_of_pyEq a b h.1.2, eq_of_pyEqPairs as bs h.2]

end

theorem forall₂_eq {r : Value → Value → Prop} {vs ws : List Value} (h : ∀ v ∈ vs, ∀ w, r v w → w = v)
    (hr : List.Forall₂ r vs ws) : ws = vs := by
  induction hr with
  | nil => rfl
  | @cons v w vs ws hvw _ ih =>
    rw [h v List.mem_cons_self w hvw, ih fun v hv => h v (List.mem_cons_of_mem _ hv)]

theorem pyLtList_isSome {as bs : List Value} (h : ∀ a ∈ as, ∀ b ∈ bs, (pyLt a b).isSome) : (pyLtList as bs).isSome := by
  induction as generalizing bs with
  | nil => cases bs <;> rfl
  | cons a as ih =>
    cases bs with
    | nil => rfl
    | cons b bs =>
      unfold pyLtList
      split
      · exact ih fun x hx y hy => h x (List.mem_cons_of_mem _ hx) y (List.mem_cons_of_mem _ hy)
      · exact h a List.mem_cons_self b List.mem_cons_self

mutual

theorem pyLt_isSome : ∀ (t : CqlType) (p : Nat) (v w : Value), hasSetOrMap t = false →
    Fits true t p v → Fits true t p w → (pyLt v w).isSome
  | .ascii, p, v, w, _, hv, hw | .text, p, v, w, _, hv, hw | .blob, p, v, w, _, hv, hw
  | .boolean, p, v, w, _, hv, hw | .tinyint, p, v, w, _, hv, hw | .smallint, p, v, w, _, hv, hw
  | .int, p, v, w, _, hv, hw | .bigint, p, v, w, _, hv, hw | .varint, p, v, w, _, hv, hw
  | .uuid, p, v, w, _, hv, hw => by
    cases v <;> simp only [Fits] at hv
    cases w <;> simp only [Fits] at hw
    rfl
  | .list t, p, v, w, ht, hv, hw => by
    cases v <;> simp only [Fits] at hv
    cases w <;> simp only [Fits] at hw
    apply pyLtList_isSome
    intro a ha b hb
    exact pyLt_isSome t (innerProto p) a b ht (hv.2 a ha).1 (hw.2 b hb).1
  | .tuple ts, p, v, w, ht, hv, hw => by
    cases v <;> simp only [Fits] at hv
    cases w <;> simp only [Fits] at hw
    exact pyLtList_isSome_of_fits ts p _ _ ht (hv.2.2.1 trivial) (hw.2.2.1 trivial) hv.2.2.2 hw.2.2.2
  | .udt ts, p, v, w, ht, hv, hw => by
    cases v <;> simp only [Fits] at hv
    cases w <;> simp only [Fits] at hw
    exact pyLtList_isSome_of_fits ts p _ _ ht hv.1 hw.1 hv.2 hw.2
  | .frozen t, p, v, w, ht, hv, hw | .reversed t, p, v, w, ht, hv, hw => by
    simp only [Fits] at hv hw
    exact pyLt_isSome t p v w ht hv hw

theorem pyLtList_isSome_of_fits : ∀ (ts : List CqlType) (p : Nat) (vs ws : List Value), anyHasSetOrMap ts = false →
    vs.length = ts.length → ws.length = ts.length → FitsAll true ts p vs → FitsAll true ts p ws →
    (pyLtList vs ws).isSome
  | [], _, [], [], _, _, _, _, _ => rfl
  | t :: ts, p, v :: vs, w :: ws, ht, hv, hw, hvs, hws => by
    simp only [anyHasSetOrMap, Bool.or_eq_false_iff] at ht
    simp only [FitsAll, Bool.true_eq_false, and_false, false_or] at hvs hws
    unfold pyLtList
    split
    · exact pyLtList_isSome_of_fits ts p vs ws ht.2 (by simpa using hv) (by simpa using hw) hvs.2 hws.2
    · exact pyLt_isSome t (innerProto p) v w ht.1 hvs.1.1 hws.1.1

end

mutual

theorem eq_of_readsBack : ∀ (t : CqlType) (p : Nat) (v w : Value), hasSetOrMap t = false →
    Fits true t p v → ReadsBack t v w → w = v
  | .ascii, p, v, w, _, _, h | .text, p, v, w, _, _, h | .blob, p, v, w, _, _, h
  | .boolean, p, v, w, _, _, h | .tinyint, p, v, w, _, _, h | .smallint, p, v, w, _, _, h
  | .int, p, v, w, _, _, h | .bigint, p, v, w, _, _, h | .varint, p, v, w, _, _, h
  | .uuid, p, v, w, _, _, h => by simpa only [ReadsBack] using h
  | .list t, p, v, w, ht, hv, h => by
    cases v <;> simp only [Fits] at hv
    cases w <;> simp only [ReadsBack, reduceCtorEq] at h
    have hi : ∀ a ∈ _, ∀ b, ReadsBack t a b → b = a := fun a ha b =>
      eq_of_readsBack t (innerProto p) a b ht (hv.2 a ha).1
    rw [forall₂_eq hi h]
  | .tuple ts, p, v, w, ht, hv, h => by
    cases v <;> simp only [Fits] at hv
    cases w <;> simp only [ReadsBack, reduceCtorEq] at h
    rw [eq_of_readsBackAll ts p _ _ ht (hv.2.2.1 trivial) hv.2.2.2 h]
  | .udt ts, p, v, w, ht, hv, h => by
    cases v <;> simp only [Fits] at hv
    cases w <;> simp only [ReadsBack, reduceCtorEq] at h
    rw [eq_of_readsBackAll ts p _ _ ht hv.1 hv.2 h]
  | .frozen t, p, v, w, ht, hv, h | .reversed t, p, v, w, ht, hv, h => by
    simp only [Fits, ReadsBack] at hv h
    exact eq_of_readsBack t p v w ht hv h

theorem eq_of_readsBackAll : ∀ (ts : List CqlType) (p : Nat) (vs ws : List Value), anyHasSetOrMap ts = false →
    vs.length = ts.length → FitsAll true ts p vs → ReadsBackAll ts vs ws → ws = vs
  | [], _, _, _, _, _, _, h => by
    simp only [ReadsBackAll] at h
    rw [h.1, h.2]
  | t :: ts, p, v :: vs, [], _, _, _, h => by simp [ReadsBackAll] at h
  | t :: ts, p, v :: vs, w :: ws, ht, hv, hvs, h => by
    simp only [anyHasSetOrMap, Bool.or_eq_false_iff] at ht
    simp only [FitsAll, Bool.true_eq_false, and_false, false_or] at hvs
    simp only [ReadsBackAll] at h
    rw [eq_of_readsBackAll ts p vs ws ht.2 (by simpa using hv) hvs.2 h.2]
    rcases h.1 with ⟨hv, hw⟩ | ⟨_, h⟩
    · rw [hv, hw]
    · rw [eq_of_readsBack t (innerProto p) v w ht.1 hvs.1.1 h]

end

end CqlDriver.Types
