import CqlDriver.Decoding.Parts
import Mathlib.Logic.Relation

/-! # Well-formed encodings -/

namespace CqlDriver.Decoding

open Lib CqlDriver.Types List Option

structure Reading where
  type : CqlType
  version : Nat
  bytes : Bytes

namespace Reading

def children (r : Reading) : Option (List Reading) :=
  if r.bytes = [] then some []
  else
    match r.type with
    | .scalar _ => some []
    | .list t | .set t =>
      (takeCounted r.version (takeItems r.version) r.bytes).map fun xs => xs.map fun x => ⟨t, innerProto r.version, x⟩
    | .map k v =>
      (takeCounted r.version (takeEntries r.version) r.bytes).map fun es =>
        es.flatMap fun e => [⟨k, innerProto r.version, e.1⟩, ⟨v, innerProto r.version, e.2⟩]
    | .tuple ts | .user _ ts =>
      if ts = [] then none
      else
        (takeFields ts.length r.bytes).map fun fs =>
          (ts.zip fs).filterMap fun f => f.2.map fun x => ⟨f.1, innerProto r.version, x⟩
    | .composite ts =>
      (takeComponents ts.length r.bytes).map fun cs => (ts.zip cs).map fun c => ⟨c.1, r.version, c.2⟩
    | .reversed t | .frozen t => some [⟨t, r.version, r.bytes⟩]

def Reads (r r' : Reading) : Prop := ∃ cs, r.children = some cs ∧ r' ∈ cs

def Visits : Reading → Reading → Prop := Relation.ReflTransGen Reads

def python (env : Env) (r : Reading) : Option Value := Python.fromBinary env r.type (some r.bytes) r.version

end Reading

/-- The elements of a set are different, and sorting keeps each of them. -/
def IsSet (env : Env) (vs : List Value) : Prop := vs.Nodup ∧ ∃ s, SortedSet.update env.lt env.eq [] vs = some s ∧ s.Perm vs

/-- It can be taken apart, with each element of a set once. -/
structure Shape (env : Env) (r : Reading) : Prop where
  size : r.bytes.length < 2 ^ 31
  children : r.children.isSome
  scalar : ∀ s, r.type = .scalar s → (r.python env).isSome
  set : ∀ t, r.type = .set t → ∀ cs, r.children = some cs → ∀ vs, cs.mapM (Reading.python env) = some vs → IsSet env vs

def WellFormed (env : Env) (r : Reading) : Prop := ∀ r', r.Visits r' → Shape env r'

/-! ## Python on the parts -/

namespace Python

variable (env : Env) {p : Nat} {b : Bytes}

theorem fromBinary_none (t : CqlType) : fromBinary env t none p = some .none := by
  rw [fromBinary_eq]
  rfl

variable {t : CqlType} {xs : List Bytes} {fs : List (Option Bytes)} {ts : List CqlType}

theorem fromBinary_nil (ht : t.emptyBinaryOk = false) :
    fromBinary env t (some []) p = some (if env.supportEmptyValues t then .empty else .none) := by
  rw [fromBinary_eq, fromBinaryWith, if_pos ⟨rfl, ht⟩]

theorem fromBinary_some (hb : b ≠ []) :
    fromBinary env t (some b) p = deserializeWith env t (t.subtypes.map (fromBinary env)) b p := by
  rw [fromBinary_eq, fromBinaryWith, if_neg (fun h => hb h.1)]

section

variable (h : takeCounted p (takeItems p) b = some xs)
include h

theorem fromBinary_list :
    fromBinary env (.list t) (some b) p = (xs.mapM fun x => fromBinary env t (some x) (innerProto p)).map .list := by
  obtain ⟨n, hn, hw, hi⟩ := takeCounted_eq_some h
  rw [fromBinary_some env (ne_nil_of_takeCounted h)]
  simp only [deserializeWith, CqlType.subtypes, map_cons, map_nil, bind_eq_bind]
  rw [unpackLength_take hw, hn, bind_some, Int.toNat_natCast, python_readItems _ n hw hi]
  cases xs.mapM fun x => fromBinary env t (some x) (innerProto p) <;> rfl

theorem fromBinary_set :
    fromBinary env (.set t) (some b) p = (xs.mapM fun x => fromBinary env t (some x) (innerProto p)).bind fun vs =>
      (SortedSet.update env.lt env.eq [] vs).map .set := by
  obtain ⟨n, hn, hw, hi⟩ := takeCounted_eq_some h
  rw [fromBinary_some env (ne_nil_of_takeCounted h)]
  simp only [deserializeWith, CqlType.subtypes, map_cons, map_nil, bind_eq_bind]
  rw [unpackLength_take hw, hn, bind_some, Int.toNat_natCast, python_readItems _ n hw hi]
  cases xs.mapM fun x => fromBinary env t (some x) (innerProto p) with
  | none => rfl
  | some vs =>
    rw [bind_some, bind_some]
    cases SortedSet.update env.lt env.eq [] vs <;> rfl

end

theorem fromBinary_map {k v : CqlType} {es : List (Bytes × Bytes)} (h : takeCounted p (takeEntries p) b = some es) :
    fromBinary env (.map k v) (some b) p = (es.mapM (entry p (fromBinary env k) (fromBinary env v))).map fun l =>
      .map k p (Entries.insertAll {} l).items (Entries.insertAll {} l).index := by
  obtain ⟨n, hn, hw, he⟩ := takeCounted_eq_some h
  rw [fromBinary_some env (ne_nil_of_takeCounted h)]
  simp only [deserializeWith, CqlType.subtypes, map_cons, map_nil, bind_eq_bind]
  rw [unpackLength_take hw, hn, bind_some, Int.toNat_natCast, python_readEntries _ _ n _ hw he]
  cases es.mapM (entry p (fromBinary env k) (fromBinary env v)) <;> rfl

theorem tuple_fields (h : takeFields ts.length b = some fs) : deserializeTuple (ts.map (fromBinary env)) b p =
      (ts.zip fs).mapM fun f => fromBinary env f.1 f.2 (innerProto p) := by
  have hn : ∀ d ∈ ts.map (fromBinary env), ∀ p, d none p = some .none := by
    intro d hd p
    obtain ⟨t, -, rfl⟩ := mem_map.mp hd
    exact fromBinary_none env t
  have hr := @python_readFields p b _ hn 0 fs (Nat.zero_le _) (by simpa using h)
  have hzip : (ts.map (fromBinary env)).zip fs = (ts.zip fs).map fun f => (fromBinary env f.1, f.2) := by
    rw [zip_map_left]
    rfl
  rw [hzip, mapM_map] at hr
  unfold deserializeTuple
  refine Eq.trans ?_ hr
  cases readFields b p (ts.map (fromBinary env)) 0 <;> rfl

variable (hb : b ≠ [])
include hb

theorem fromBinary_tuple (hts : ts ≠ []) (h : takeFields ts.length b = some fs) :
    fromBinary env (.tuple ts) (some b) p =
      ((ts.zip fs).mapM fun f => fromBinary env f.1 f.2 (innerProto p)).map .tuple := by
  rw [fromBinary_some env hb, ← tuple_fields env h]
  obtain ⟨t, ts, rfl⟩ := exists_cons_of_ne_nil hts
  rfl

theorem fromBinary_user {u : UserType} (hts : ts ≠ []) (h : takeFields ts.length b = some fs) :
    fromBinary env (.user u ts) (some b) p =
      ((ts.zip fs).mapM fun f => fromBinary env f.1 f.2 (innerProto p)).map u.construct := by
  rw [fromBinary_some env hb, ← tuple_fields env h]
  obtain ⟨t, ts, rfl⟩ := exists_cons_of_ne_nil hts
  rfl

theorem fromBinary_composite {cs : List Bytes} (h : takeComponents ts.length b = some cs) :
    fromBinary env (.composite ts) (some b) p =
      ((ts.zip cs).mapM fun c => fromBinary env c.1 (some c.2) p).map .tuple := by
  have hts : ts ≠ [] := by
    rintro rfl
    rw [length_nil, takeComponents, if_neg hb] at h
    cases h
  have hr := @python_readComponents p (ts.map (fromBinary env)) b cs (by simpa using h)
  have hzip : (ts.map (fromBinary env)).zip cs = (ts.zip cs).map fun c => (fromBinary env c.1, c.2) := by
    rw [zip_map_left]
    rfl
  rw [hzip, mapM_map] at hr
  rw [fromBinary_some env hb]
  obtain ⟨t, ts, rfl⟩ := exists_cons_of_ne_nil hts
  exact congrArg (Option.map Value.tuple) hr

theorem fromBinary_reversed : fromBinary env (.reversed t) (some b) p = fromBinary env t (some b) p := by
  rw [fromBinary_some env hb]
  rfl

theorem fromBinary_frozen : fromBinary env (.frozen t) (some b) p = fromBinary env t (some b) p := by
  rw [fromBinary_some env hb]
  rfl

end Python

end CqlDriver.Decoding
