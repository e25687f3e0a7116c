import CqlDriver.Decoding.Dispatch

/-! # A value from its parts -/

namespace CqlDriver.Decoding

open Lib CqlDriver.Types List Cython Python
open Option (bind_some map_eq_bind map_eq_some_iff)

/-! ## Parts -/

def entriesOf : List (Value × Bytes) → List (Value × Bytes × Value)
  | key :: val :: rest => (key.1, key.2, val.1) :: entriesOf rest
  | _ => []

def refill : List (Option Bytes) → List Value → List Value
  | none :: fs, vs => .none :: refill fs vs
  | some _ :: fs, v :: vs => v :: refill fs vs
  | _, _ => []

namespace Reading

/-- The value, from the values and bytes of its parts. -/
def assemble (env : Env) (r : Reading) (vs : List (Value × Bytes)) : Option Value :=
  match r.type with
  | .scalar _ => none
  | .list _ => some (.list (vs.map Prod.fst))
  | .set _ => (SortedSet.update env.lt env.eq [] (vs.map Prod.fst)).map .set
  | .map k _ => some (.map k r.version (Entries.insertAll {} (entriesOf vs)).items (Entries.insertAll {} (entriesOf vs)).index)
  | .tuple ts => (takeFields ts.length r.bytes).map fun fs => .tuple (refill fs (vs.map Prod.fst))
  | .user u ts => (takeFields ts.length r.bytes).map fun fs => u.construct (refill fs (vs.map Prod.fst))
  | .composite _ => some (.tuple (vs.map Prod.fst))
  | .reversed _ | .frozen _ => vs.head?.map Prod.fst

def left (r : Reading) (vs : List (Value × Bytes)) : Bytes :=
  match r.type with
  | .composite _ => []
  | .reversed _ | .frozen _ => (vs.head?.map Prod.snd).getD r.bytes
  | _ => r.bytes

def pythonPair (env : Env) (r : Reading) : Option (Value × Bytes) := (r.python env).map (·, r.bytes)

def cython (env : Env) (r : Reading) : Option (Value × Bytes) :=
  (findDeserializer r.type).bind fun d => fromBuffer env d r.bytes r.version

def IsLeaf (r : Reading) : Prop := r.bytes = [] ∨ ∃ s, r.type = .scalar s

theorem bytes_ne_nil {r : Reading} (hl : ¬ r.IsLeaf) : r.bytes ≠ [] := fun h => hl (.inl h)

end Reading

section Decode

variable (f : Reading → Option (Value × Bytes)) (q : Nat)

theorem mapM_items (t : CqlType) (xs : List Bytes) : (xs.mapM fun x => (f ⟨t, q, x⟩).map Prod.fst) =
      ((xs.map fun x => (⟨t, q, x⟩ : Reading)).mapM f).map (map Prod.fst) := by
  rw [mapM_map_result, mapM_map]
  rfl

theorem mapM_entries (k v : CqlType) (es : List (Bytes × Bytes)) :
    (es.mapM fun e => (f ⟨k, q, e.1⟩).bind fun key => (f ⟨v, q, e.2⟩).map fun val => (key.1, key.2, val.1)) =
      ((es.flatMap fun e => [(⟨k, q, e.1⟩ : Reading), ⟨v, q, e.2⟩]).mapM f).map entriesOf := by
  induction es with
  | nil => rfl
  | cons e es ih =>
    rw [flatMap_cons, cons_append, cons_append, nil_append, mapM_cons, mapM_cons, mapM_cons, ih]
    generalize (es.flatMap fun e => [(⟨k, q, e.1⟩ : Reading), ⟨v, q, e.2⟩]).mapM f = rest
    cases f ⟨k, q, e.1⟩ with
    | none => rfl
    | some key =>
      cases f ⟨v, q, e.2⟩ with
      | none => rfl
      | some val => cases rest <;> rfl

theorem mapM_components (ts : List CqlType) (xs : List Bytes) :
    ((ts.zip xs).mapM fun c => (f ⟨c.1, q, c.2⟩).map Prod.fst) =
      (((ts.zip xs).map fun c => (⟨c.1, q, c.2⟩ : Reading)).mapM f).map (map Prod.fst) := by
  rw [mapM_map_result, mapM_map]
  rfl

def fieldWith (x : CqlType × Option Bytes) : Option Value :=
  match x.2 with
  | none => some .none
  | some b => (f ⟨x.1, q, b⟩).map Prod.fst

theorem mapM_fields (ts : List CqlType) : ∀ {fs : List (Option Bytes)}, fs.length = ts.length →
    (ts.zip fs).mapM (fieldWith f q) =
      (((ts.zip fs).filterMap fun x => x.2.map fun b => (⟨x.1, q, b⟩ : Reading)).mapM f).map fun vs =>
        refill fs (vs.map Prod.fst) := by
  induction ts with
  | nil =>
    intro fs h
    obtain rfl := length_eq_zero_iff.mp h
    rfl
  | cons t ts ih =>
    intro fs h
    obtain ⟨x, fs, rfl⟩ := exists_cons_of_length_eq_add_one h
    have hr := ih (Nat.succ.inj h)
    rw [zip_cons_cons, mapM_cons, hr, filterMap_cons]
    cases x with
    | none =>
      simp only [Option.map_none]
      generalize ((ts.zip fs).filterMap fun x => x.2.map fun b => (⟨x.1, q, b⟩ : Reading)).mapM f = rest
      cases rest <;> rfl
    | some b =>
      have hf : fieldWith f q (t, some b) = (f ⟨t, q, b⟩).map Prod.fst := rfl
      simp only [Option.map_some]
      rw [mapM_cons, hf]
      generalize ((ts.zip fs).filterMap fun x => x.2.map fun b => (⟨x.1, q, b⟩ : Reading)).mapM f = rest
      cases f ⟨t, q, b⟩ with
      | none => rfl
      | some v => cases rest <;> rfl

end Decode

/-! ## Python -/

section Python

variable (env : Env)

open Reading

theorem pythonPair_fst {r : Reading} : (r.pythonPair env).map Prod.fst = r.python env := by
  unfold pythonPair
  cases r.python env <;> rfl

theorem fieldWith_python {q : Nat} : fieldWith (pythonPair env) q = fun f => Python.fromBinary env f.1 f.2 q := by
  funext ⟨t, x⟩
  cases x with
  | none => exact (fromBinary_none env t).symm
  | some b => exact pythonPair_fst env

theorem entry_python {q : Nat} {k v : CqlType} (e : Bytes × Bytes) :
    ((pythonPair env ⟨k, q, e.1⟩).bind fun key => (pythonPair env ⟨v, q, e.2⟩).map fun val => (key.1, key.2, val.1)) =
      (Python.fromBinary env k (some e.1) q).bind fun key =>
        (Python.fromBinary env v (some e.2) q).map fun val => (key, e.1, val) := by
  unfold pythonPair python
  cases Python.fromBinary env k (some e.1) q with
  | none => rfl
  | some key => cases Python.fromBinary env v (some e.2) q <;> rfl

theorem python_eq_assemble {r : Reading} (hl : ¬ r.IsLeaf) {cs : List Reading} (hcs : r.children = some cs) :
    r.python env = (cs.mapM (pythonPair env)).bind (r.assemble env) := by
  obtain ⟨t, p, b⟩ := r
  have hb : b ≠ [] := bytes_ne_nil hl
  simp only [children, if_neg hb] at hcs
  unfold python assemble
  cases t with
  | scalar s => exact absurd (.inr ⟨s, rfl⟩) hl
  | list t =>
    obtain ⟨xs, hxs, rfl⟩ := map_eq_some_iff.mp hcs
    have hi := mapM_items (pythonPair env) (innerProto p) t xs
    simp only [pythonPair_fst, python] at hi
    rw [Python.fromBinary_list env hxs, hi, Option.map_map]
    exact map_eq_bind
  | set t =>
    obtain ⟨xs, hxs, rfl⟩ := map_eq_some_iff.mp hcs
    have hi := mapM_items (pythonPair env) (innerProto p) t xs
    simp only [pythonPair_fst, python] at hi
    rw [fromBinary_set env hxs, hi, Option.bind_map]
    rfl
  | map k v =>
    obtain ⟨es, hes, rfl⟩ := map_eq_some_iff.mp hcs
    have he := mapM_entries (pythonPair env) (innerProto p) k v es
    simp only [entry_python] at he
    rw [fromBinary_map env hes]
    unfold Python.entry
    rw [he, Option.map_map]
    exact map_eq_bind
  | tuple ts | user u ts =>
    dsimp only at hcs ⊢
    split_ifs at hcs with hts
    obtain ⟨fs, hfs, rfl⟩ := map_eq_some_iff.mp hcs
    have hf := mapM_fields (pythonPair env) (innerProto p) ts (length_takeFields _ hfs)
    rw [fieldWith_python] at hf
    simp only [fromBinary_tuple env hb hts hfs, fromBinary_user env hb hts hfs, hf, hfs, Option.map_map]
    exact map_eq_bind
  | composite ts =>
    obtain ⟨xs, hxs, rfl⟩ := map_eq_some_iff.mp hcs
    have hc := mapM_components (pythonPair env) p ts xs
    simp only [pythonPair_fst, python] at hc
    rw [Python.fromBinary_composite env hb hxs, hc, Option.map_map]
    exact map_eq_bind
  | reversed t | frozen t =>
    cases hcs
    simp only [fromBinary_reversed env hb, fromBinary_frozen env hb, mapM_cons, pythonPair, python]
    cases Python.fromBinary env t (some b) p <;> rfl

end Python

/-! ## Cython -/

section Cython

variable (env : Env)

open Reading

def Cython.decoder (t : CqlType) : BufDecoder := fun b p => cython env ⟨t, p, b⟩

variable {ts : List CqlType} {r : Reading} {b : Bytes} {p : Nat} {xs : List Bytes} {cs : List Reading}

theorem map_fromBuffer {ds : List Deserializer} (h : Forall₂ (fun t d => findDeserializer t = some d) ts ds) :
    ds.map (fromBuffer env) = ts.map (decoder env) := by
  induction h with
  | nil => rfl
  | cons hf _ ih =>
    rw [map_cons]
    congr 1
    funext b p
    unfold decoder cython
    rw [hf]
    rfl

variable {t : CqlType} {fs : List (Option Bytes)}

theorem isParameterized_ownClass (h : ∀ s, t ≠ .scalar s) : t.ownClass.isParameterized := by
  cases t with
  | scalar s => exact absurd rfl (h s)
  | list t | set t | map k v | tuple ts | user u ts | composite ts | reversed t | frozen t => rfl

theorem cython_eq (hl : ¬ r.IsLeaf) (hcon : Constructible r.type) (hn : ∀ u ts, r.type = .user u ts → ¬ u.Misnamed) :
    r.cython env =
      Cython.deserializeWith env r.type.ownClass r.type (r.type.subtypes.map (Cython.decoder env)) r.bytes r.version := by
  obtain ⟨t, p, b⟩ := r
  obtain ⟨d, hd⟩ := Option.isSome_iff_exists.mp ((findDeserializer_isSome t).mpr hcon)
  have hown : findClass t = t.ownClass := findClass_eq t hn
  have hp : (findClass t).isParameterized := by
    rw [hown]
    exact isParameterized_ownClass fun s hs => hl (.inr ⟨s, hs⟩)
  obtain ⟨ds, hds, -, rfl⟩ := (findDeserializer_parameterized hp).mp hd
  unfold cython
  rw [hd, bind_some, fromBuffer, fromBuffers_eq, map_fromBuffer env hds, hown,
    Cython.fromBinaryWith, if_neg (fun h => hl (.inl h.1))]

theorem cython_listOrSet (hs : b.length < 2 ^ 31) (h : takeCounted p (takeItems p) b = some xs) :
    deserializeListOrSet env p (decoder env t) b =
      ((xs.map fun x => (⟨t, innerProto p, x⟩ : Reading)).mapM (cython env)).map (map Prod.fst) := by
  obtain ⟨n, hn, hw, hi⟩ := takeCounted_eq_some h
  have hlen := @unpackLen_eq env p b 0 (by omega)
  have hr := cython_readItems env (decoder env t) hs n hw hi
  rw [drop_zero, hn] at hlen
  unfold deserializeListOrSet
  push_cast at hlen
  rw [hlen, ← mapM_items, Option.bind_eq_bind, bind_some, Int.toNat_natCast, hr]
  rfl

theorem cython_map (hs : b.length < 2 ^ 31) {k v : CqlType} {es : List (Bytes × Bytes)}
    (h : takeCounted p (takeEntries p) b = some es) :
    deserializeWith env .map (.map k v) [decoder env k, decoder env v] b p =
      ((es.flatMap fun e => [(⟨k, innerProto p, e.1⟩ : Reading), ⟨v, innerProto p, e.2⟩]).mapM (cython env)).map fun vs =>
        (.map k p (Entries.insertAll {} (entriesOf vs)).items (Entries.insertAll {} (entriesOf vs)).index, b) := by
  obtain ⟨n, hn, hw, he⟩ := takeCounted_eq_some h
  have hlen := @unpackLen_eq env p b 0 (by omega)
  have hr := cython_readEntries env (decoder env k) (decoder env v) hs n {} hw he
  have hall := mapM_entries (cython env) (innerProto p) k v es
  rw [drop_zero, hn] at hlen
  push_cast at hlen
  unfold Cython.entry Cython.decoder at hr
  rw [hall] at hr
  simp only [Cython.deserializeWith, hlen, Option.bind_eq_bind, bind_some, Int.toNat_natCast]
  unfold Cython.decoder
  rw [hr]
  generalize (es.flatMap fun e => [(⟨k, innerProto p, e.1⟩ : Reading), ⟨v, innerProto p, e.2⟩]).mapM (cython env) = vs
  cases vs <;> rfl

theorem field_decoder {p : Nat} {ts : List CqlType} :
    ((ts.map (Cython.decoder env)).zip fs).mapM (Cython.field p) = (ts.zip fs).mapM (fieldWith (cython env) (innerProto p)) := by
  rw [zip_map_left, mapM_map]
  congr 1

theorem cython_fields (h : takeFields ts.length b = some fs) :
    Cython.readFields env b p (ts.map (Cython.decoder env)) 0 =
      (((ts.zip fs).filterMap fun x => x.2.map fun b => (⟨x.1, innerProto p, b⟩ : Reading)).mapM (cython env)).map fun vs =>
        refill fs (vs.map Prod.fst) := by
  have hr := @cython_readFields env p b (ts.map (decoder env)) 0 fs (Nat.zero_le _) (by simpa using h)
  rw [field_decoder, mapM_fields _ _ _ (length_takeFields _ h)] at hr
  exact hr

theorem cython_composite (ts : List CqlType) (h : takeComponents ts.length b = some xs) :
    readComponents env p (ts.map (decoder env)) b = if ∀ x ∈ xs, x.length < 2 ^ 15 then
        (((ts.zip xs).map fun c => (⟨c.1, p, c.2⟩ : Reading)).mapM (cython env)).map fun vs => (vs.map Prod.fst, [])
      else none := by
  rw [cython_readComponents env _ (by simpa using h)]
  have hc := mapM_components (cython env) p ts xs
  have hzip : ((ts.map (Cython.decoder env)).zip xs).mapM (Cython.component p) =
      (ts.zip xs).mapM fun c => (cython env ⟨c.1, p, c.2⟩).map Prod.fst := by
    rw [zip_map_left, mapM_map]
    rfl
  rw [hzip, hc, Option.map_map]
  rfl

theorem length_takeComponents (n : Nat) : ∀ {b : Bytes} {xs : List Bytes}, takeComponents n b = some xs → xs.length ≤ n := by
  induction n with
  | zero =>
    intro b xs h
    rw [takeComponents] at h
    split_ifs at h
    cases h
    rfl
  | succ n ih =>
    intro b xs h
    by_cases hb : b = []
    · rw [takeComponents, if_pos hb] at h
      cases h
      exact Nat.zero_le _
    obtain ⟨xs', -, hr, rfl⟩ := takeComponents_succ hb h
    exact Nat.succ_le_succ (ih hr)

theorem components_children (h : takeComponents ts.length b = some xs) (P : Bytes → Prop) :
    (∀ x ∈ xs, P x) ↔ ∀ c ∈ (ts.zip xs).map fun c => (⟨c.1, p, c.2⟩ : Reading), P c.bytes := by
  have hsnd : (ts.zip xs).map Prod.snd = xs := map_snd_zip (length_takeComponents _ h)
  conv_lhs => rw [← hsnd]
  rw [forall_mem_map, forall_mem_map]

theorem cython_eq_assemble (hl : ¬ r.IsLeaf) (hcon : Constructible r.type)
    (hn : ∀ u ts, r.type = .user u ts → ¬ u.Misnamed) (hsz : r.bytes.length < 2 ^ 31)
    (hcs : r.children = some cs) (hs : ∀ ts, r.type = .composite ts → ∀ c ∈ cs, c.bytes.length < 2 ^ 15) :
    r.cython env = (cs.mapM (cython env)).bind fun vs => (r.assemble env vs).map (·, r.left vs) := by
  rw [cython_eq env hl hcon hn]
  obtain ⟨t, p, b⟩ := r
  simp only [children, if_neg (bytes_ne_nil hl)] at hcs
  unfold assemble
  cases t with
  | scalar s => exact absurd (.inr ⟨s, rfl⟩) hl
  | list t =>
    obtain ⟨xs, hxs, rfl⟩ := map_eq_some_iff.mp hcs
    simp only [CqlType.ownClass, CqlType.subtypes, map_cons, map_nil, Cython.deserializeWith,
      cython_listOrSet env hsz hxs]
    generalize (xs.map fun x => (⟨t, innerProto p, x⟩ : Reading)).mapM (cython env) = vs
    cases vs <;> rfl
  | set t =>
    obtain ⟨xs, hxs, rfl⟩ := map_eq_some_iff.mp hcs
    simp only [CqlType.ownClass, CqlType.subtypes, map_cons, map_nil, Cython.deserializeWith,
      cython_listOrSet env hsz hxs]
    generalize (xs.map fun x => (⟨t, innerProto p, x⟩ : Reading)).mapM (cython env) = vs
    cases vs with
    | none => rfl
    | some vs =>
      simp only [Option.map_some, Option.bind_eq_bind, bind_some]
      cases SortedSet.update env.lt env.eq [] (vs.map Prod.fst) <;> rfl
  | map k v =>
    obtain ⟨es, hes, rfl⟩ := map_eq_some_iff.mp hcs
    exact (cython_map env hsz hes).trans map_eq_bind
  | tuple ts | user u ts =>
    dsimp only at hcs ⊢
    split_ifs at hcs with hts
    obtain ⟨fs, hfs, rfl⟩ := map_eq_some_iff.mp hcs
    simp only [CqlType.ownClass, CqlType.subtypes, Cython.deserializeWith, cython_fields env hfs, hfs]
    generalize ((ts.zip fs).filterMap fun x => x.2.map fun b => (⟨x.1, innerProto p, b⟩ : Reading)).mapM (cython env) = vs
    cases vs <;> rfl
  | composite ts =>
    obtain ⟨xs, hxs, rfl⟩ := map_eq_some_iff.mp hcs
    have hall := (components_children hxs fun x => x.length < 2 ^ 15).mpr (hs ts rfl)
    simp only [CqlType.ownClass, CqlType.subtypes, deserializeWith_composite, cython_composite env ts hxs]
    rw [if_pos hall]
    generalize ((ts.zip xs).map fun c => (⟨c.1, p, c.2⟩ : Reading)).mapM (cython env) = vs
    cases vs <;> rfl
  | reversed t | frozen t =>
    cases hcs
    rw [mapM_cons]
    simp only [CqlType.ownClass, CqlType.subtypes, map_cons, map_nil, Cython.deserializeWith, Cython.decoder]
    cases cython env ⟨t, p, b⟩ <;> rfl

theorem cython_long (ht : r.type = .composite ts) (hcon : Constructible r.type) (hcs : r.children = some cs)
    {c : Reading} (hc : c ∈ cs) (hln : 2 ^ 15 ≤ c.bytes.length) : r.cython env = none := by
  obtain ⟨t, p, b⟩ := r
  subst ht
  have hb : b ≠ [] := by
    rintro rfl
    cases hcs
    cases hc
  have hl : ¬ IsLeaf ⟨.composite ts, p, b⟩ := by
    rintro (h | ⟨s, h⟩)
    · exact hb h
    · cases h
  simp only [children, if_neg hb] at hcs
  obtain ⟨xs, hxs, rfl⟩ := map_eq_some_iff.mp hcs
  rw [cython_eq env hl hcon (fun u ts h => nomatch h)]
  simp only [CqlType.ownClass, CqlType.subtypes, deserializeWith_composite, cython_composite env ts hxs]
  rw [if_neg]
  · rfl
  intro hall
  exact absurd ((components_children hxs fun x => x.length < 2 ^ 15).mp hall c hc) (not_lt.mpr hln)

end Cython

end CqlDriver.Decoding
