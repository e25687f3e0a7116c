import CqlDriver.Decoding.Scalars

/-! # Marks in a value -/

namespace CqlDriver.Decoding

open Lib CqlDriver.Types List Cython
open Option (bind_eq_bind bind_eq_some_iff map_eq_some_iff map_some)

namespace Value

def parts : Value → List Value
  | .list vs | .set vs | .tuple vs | .user _ vs => vs
  | .map _ _ items _ => items.flatMap fun e => [e.1, e.2]
  | _ => []

/-- The value or a part of it is marked. -/
inductive Has (P : Value → Prop) : Value → Prop
  | here {v : Value} (h : P v) : Has P v
  | part {v x : Value} (hx : x ∈ v.parts) (h : Has P x) : Has P v

theorem not_has {P : Value → Prop} {v : Value} (hv : ¬ P v) (hp : ∀ x ∈ v.parts, ¬ Has P x) : ¬ Has P v := by
  rintro (h | ⟨hx, h⟩)
  · exact hv h
  · exact hp _ hx h

def isScalar : Value → Bool
  | .list _ | .set _ | .map _ _ _ _ | .tuple _ | .user _ _ => false
  | _ => true

theorem parts_of_isScalar {v : Value} (h : v.isScalar) : v.parts = [] := by
  cases v with
  | list vs | set vs | map k p xs idx | tuple vs | user u vs => cases h
  | none | empty | bytes b | bytearray b | str s | bool b | int n | float x | double x | decimal n e | uuid b | inet b
  | datetime d | date d | time n => rfl

end Value

open Value

/-! ## Parts that are assembled -/

theorem mem_update {lt : Value → Value → Option Bool} {eq : Value → Value → Bool} (xs : List Value) :
    ∀ {its s : List Value}, SortedSet.update lt eq its xs = some s → ∀ x ∈ s, x ∈ its ∨ x ∈ xs := by
  induction xs with
  | nil =>
    intro its s h x hx
    cases h
    exact .inl hx
  | cons y xs ih =>
    intro its s h x hx
    simp only [SortedSet.update, bind_eq_bind, bind_eq_some_iff] at h
    obtain ⟨xs', hadd, hr⟩ := h
    have hi : ∀ x ∈ xs', x ∈ its ∨ x = y := by
      simp only [SortedSet.add, bind_eq_bind, bind_eq_some_iff] at hadd
      obtain ⟨i, -, hadd⟩ := hadd
      intro x hx
      split at hadd
      · split_ifs at hadd
        · cases hadd
          exact .inl hx
        cases hadd
        exact (eq_or_mem_of_mem_insertIdx hx).symm
      cases hadd
      simpa using hx
    rcases ih hr x hx with hx | hx
    · rcases hi x hx with hx | rfl
      · exact .inl hx
      · exact .inr mem_cons_self
    · exact .inr (mem_cons_of_mem _ hx)

theorem insertAll_items {l : List (Value × Bytes × Value)} : ∀ m : Entries,
    (m.insertAll l).items = m.items ++ l.map fun e => (e.1, e.2.2) := by
  induction l with
  | nil => exact fun m => (append_nil _).symm
  | cons e l ih =>
    intro m
    rw [Entries.insertAll, foldl_cons, ← Entries.insertAll, ih]
    simp [Entries.insertUnchecked]

theorem mem_keys_insertAll (l : List (Value × Bytes × Value)) (key : Bytes) : ∀ m : Entries,
    key ∈ (m.insertAll l).index.keys ↔ key ∈ m.index.keys ∨ ∃ e ∈ l, e.2.1 = key := by
  induction l with
  | nil => simp [Entries.insertAll]
  | cons e l ih =>
    intro m
    rw [Entries.insertAll, foldl_cons, ← Entries.insertAll, ih]
    simp only [Entries.insertUnchecked, Dict.mem_keys_set]
    grind

@[simp] theorem parts_tuple {vs : List Value} : (Value.tuple vs).parts = vs := rfl

@[simp] theorem parts_construct (u : UserType) {vs : List Value} : (u.construct vs).parts = vs := by
  unfold UserType.construct
  split <;> rfl

section Assemble

open Reading

variable {env : Env} {f : Reading → Option (Value × Bytes)} {r : Reading} {cs : List Reading} {vs : List (Value × Bytes)}
  {v : Value}

section Entries

variable {k w : CqlType} {q : Nat} {es : List (Bytes × Bytes)}

variable (hvs : (es.flatMap fun e => [(⟨k, q, e.1⟩ : Reading), ⟨w, q, e.2⟩]).mapM f = some vs)
include hvs

theorem mapM_entriesOf :
    (es.mapM fun e => (f ⟨k, q, e.1⟩).bind fun key => (f ⟨w, q, e.2⟩).map fun val => (key.1, key.2, val.1)) =
      some (entriesOf vs) := by
  rw [mapM_entries, hvs]
  rfl

theorem children_of_entry
    {x : Value × Bytes × Value} (hx : x ∈ entriesOf vs) :
    ∃ e ∈ es, ∃ key val, f ⟨k, q, e.1⟩ = some key ∧ f ⟨w, q, e.2⟩ = some val ∧ x = (key.1, key.2, val.1) := by
  obtain ⟨e, he, hen⟩ := exists_of_mem_result (mapM_entriesOf hvs) hx
  obtain ⟨key, hkey, hr⟩ := bind_eq_some_iff.mp hen
  obtain ⟨val, hval, hres⟩ := map_eq_some_iff.mp hr
  exact ⟨e, he, key, val, hkey, hval, hres.symm⟩

theorem entry_of_children
    {e : Bytes × Bytes} (he : e ∈ es) :
    ∃ key val, f ⟨k, q, e.1⟩ = some key ∧ f ⟨w, q, e.2⟩ = some val ∧ (key.1, key.2, val.1) ∈ entriesOf vs := by
  have hall := mapM_entriesOf hvs
  obtain ⟨x, hen⟩ := Option.isSome_iff_exists.mp (mapM_isSome.mp (Option.isSome_iff_exists.mpr ⟨_, hall⟩) e he)
  have hmem := mem_result hall he hen
  obtain ⟨key, hkey, hr⟩ := bind_eq_some_iff.mp hen
  obtain ⟨val, hval, rfl⟩ := map_eq_some_iff.mp hr
  exact ⟨key, val, hkey, hval, hmem⟩

end Entries

theorem refill_children {ts : List CqlType} {q n : Nat} {b : Bytes} {fs : List (Option Bytes)} (hn : n = ts.length)
    (hfs : takeFields n b = some fs)
    (hvs : ((ts.zip fs).filterMap fun x => x.2.map fun b => (⟨x.1, q, b⟩ : Reading)).mapM f = some vs) :
    (ts.zip fs).mapM (fieldWith f q) = some (refill fs (vs.map Prod.fst)) := by
  rw [mapM_fields f q ts ((length_takeFields n hfs).trans hn), hvs]
  rfl

theorem part_of_child (hl : ¬ r.IsLeaf) (hcs : r.children = some cs) (hvs : cs.mapM f = some vs)
    (hv : r.assemble env vs = some v)
    (hset : ∀ t, r.type = .set t → ∀ s, SortedSet.update env.lt env.eq [] (vs.map Prod.fst) = some s →
      ∀ x ∈ vs.map Prod.fst, x ∈ s)
    {c : Reading} (hc : c ∈ cs) {y : Value × Bytes} (hy : f c = some y) : v = y.1 ∨ y.1 ∈ v.parts := by
  obtain ⟨t, p, b⟩ := r
  have hmem : y.1 ∈ vs.map Prod.fst := mem_map_of_mem (mem_result hvs hc hy)
  simp only [children, if_neg (bytes_ne_nil hl)] at hcs
  unfold assemble at hv
  cases t with
  | scalar s => cases hv
  | list t | composite ts =>
    cases hv
    exact .inr hmem
  | set t =>
    obtain ⟨s, hs, rfl⟩ := map_eq_some_iff.mp hv
    exact .inr (hset t rfl s hs _ hmem)
  | map k w =>
    obtain ⟨es, hes, rfl⟩ := map_eq_some_iff.mp hcs
    cases hv
    right
    obtain ⟨e, he, hc⟩ := mem_flatMap.mp hc
    obtain ⟨key, val, hkey, hval, hen⟩ := entry_of_children hvs he
    simp only [parts, insertAll_items, nil_append, mem_flatMap, mem_map, mem_pair]
    refine ⟨_, ⟨_, hen, rfl⟩, ?_⟩
    rcases mem_pair.mp hc with rfl | rfl
    · rw [hkey, Option.some.injEq] at hy
      exact .inl (congrArg Prod.fst hy.symm)
    rw [hval, Option.some.injEq] at hy
    exact .inr (congrArg Prod.fst hy.symm)
  | tuple ts | user u ts =>
    dsimp only at hcs hv
    split_ifs at hcs with hts
    obtain ⟨fs, hfs, rfl⟩ := map_eq_some_iff.mp hcs
    rw [hfs, map_some] at hv
    cases hv
    obtain ⟨⟨t, x⟩, hzip, hx⟩ := mem_filterMap.mp hc
    obtain ⟨b', rfl, rfl⟩ := map_eq_some_iff.mp hx
    have hm := mem_result (refill_children rfl hfs hvs) hzip (congrArg (Option.map Prod.fst) hy)
    first
    | exact .inr hm
    | exact .inr (by rwa [parts_construct])
  | reversed t | frozen t =>
    cases hcs
    obtain rfl := mem_singleton.mp hc
    rw [mapM_cons, hy] at hvs
    cases hvs
    exact .inl (Option.some.inj hv).symm

theorem child_of_part (hl : ¬ r.IsLeaf) (hcs : r.children = some cs) (hvs : cs.mapM f = some vs)
    (hv : r.assemble env vs = some v) : (∃ c ∈ cs, ∃ y, f c = some y ∧ v = y.1) ∨
      ∀ x ∈ v.parts, x = .none ∨ ∃ c ∈ cs, ∃ y, f c = some y ∧ x = y.1 := by
  have hall : ∀ x ∈ vs.map Prod.fst, ∃ c ∈ cs, ∃ y, f c = some y ∧ x = y.1 := by
    intro x hx
    obtain ⟨y, hy, rfl⟩ := mem_map.mp hx
    obtain ⟨c, hc, hfc⟩ := exists_of_mem_result hvs hy
    exact ⟨c, hc, y, hfc, rfl⟩
  obtain ⟨t, p, b⟩ := r
  simp only [children, if_neg (bytes_ne_nil hl)] at hcs
  unfold assemble at hv
  cases t with
  | scalar s => cases hv
  | list t | composite ts =>
    cases hv
    exact .inr fun x hx => .inr (hall x hx)
  | set t =>
    obtain ⟨s, hs, rfl⟩ := map_eq_some_iff.mp hv
    refine .inr fun x hx => .inr (hall x ?_)
    exact (mem_update _ hs x hx).resolve_left not_mem_nil
  | map k w =>
    obtain ⟨es, hes, rfl⟩ := map_eq_some_iff.mp hcs
    cases hv
    refine .inr fun x hx => .inr ?_
    simp only [parts, insertAll_items, nil_append, mem_flatMap, mem_map, mem_pair] at hx
    obtain ⟨_, ⟨e, he, rfl⟩, hx⟩ := hx
    obtain ⟨e', he', key, val, hkey, hval, rfl⟩ := children_of_entry hvs he
    rcases hx with rfl | rfl
    · exact ⟨_, mem_flatMap.mpr ⟨e', he', mem_cons_self⟩, key, hkey, rfl⟩
    · exact ⟨_, mem_flatMap.mpr ⟨e', he', mem_cons_of_mem _ mem_cons_self⟩, val, hval, rfl⟩
  | tuple ts | user u ts =>
    dsimp only at hcs hv
    split_ifs at hcs with hts
    obtain ⟨fs, hfs, rfl⟩ := map_eq_some_iff.mp hcs
    rw [hfs, map_some] at hv
    cases hv
    refine .inr fun x hx => ?_
    have hx' : x ∈ refill fs (vs.map Prod.fst) := by simpa using hx
    obtain ⟨⟨t, b'⟩, hzip, hf⟩ := exists_of_mem_result (refill_children rfl hfs hvs) hx'
    cases b' with
    | none => exact .inl (Option.some.inj hf).symm
    | some b' =>
      obtain ⟨y, hy, rfl⟩ := map_eq_some_iff.mp hf
      exact .inr ⟨_, mem_filterMap.mpr ⟨_, hzip, rfl⟩, y, hy, rfl⟩
  | reversed t | frozen t =>
    obtain ⟨y, hy, rfl⟩ := map_eq_some_iff.mp hv
    exact .inl (hall _ (mem_map_of_mem (mem_of_head? hy)))

end Assemble

/-! ## What Cython never returns -/

/-- A decimal of the lowest scale, or a user type named like a deserializer. -/
def Marked : Value → Prop
  | .decimal _ exponent => exponent = 2 ^ 31
  | .user u _ => u.Misnamed
  | _ => False

def Gives (ds : List BufDecoder) (v : Value) : Prop := ∃ d ∈ ds, ∃ b p left, d b p = some (v, left)

variable {ds : List BufDecoder} {v : Value}

theorem Gives.mono {ds' : List BufDecoder} (h : Gives ds v) (hsub : ds ⊆ ds') : Gives ds' v := by
  obtain ⟨d, hd, hg⟩ := h
  exact ⟨d, hsub hd, hg⟩

section Loops

variable (env : Env) {p : Nat}

variable {buf : Bytes} {n : Nat}

theorem gives_readItems (d : BufDecoder) : ∀ {off : ℤ} {vs : List Value},
    readItems env p d buf n off = some vs → ∀ v ∈ vs, Gives [d] v := by
  induction n with
  | zero =>
    intro off vs h v hv
    cases h
    cases hv
  | succ n ih =>
    intro off vs h v hv
    simp only [Cython.readItems, bind_eq_bind, bind_eq_some_iff, Option.pure_def, Option.some.injEq] at h
    obtain ⟨⟨elem, next⟩, -, ⟨item, left⟩, hi, rest, hr, rfl⟩ := h
    rcases mem_cons.mp hv with rfl | hv
    · exact ⟨d, mem_cons_self, _, _, _, hi⟩
    · exact ih hr v hv

theorem gives_readEntries (d₁ d₂ : BufDecoder) : ∀ {off : ℤ} {m m' : Entries},
    readEntries env p d₁ d₂ buf n off m = some m' →
      ∀ e ∈ m'.items, e ∈ m.items ∨ Gives [d₁, d₂] e.1 ∧ Gives [d₁, d₂] e.2 := by
  induction n with
  | zero =>
    intro off m m' h e he
    cases h
    exact .inl he
  | succ n ih =>
    intro off m m' h e he
    simp only [readEntries, bind_eq_bind, bind_eq_some_iff] at h
    obtain ⟨⟨keyBuf, off₁⟩, -, ⟨valBuf, off₂⟩, -, ⟨key, keyLeft⟩, hkey, ⟨val, valLeft⟩, hval, hr⟩ := h
    rcases ih hr e he with he | he
    · rcases mem_append.mp he with he | he
      · exact .inl he
      obtain rfl := mem_singleton.mp he
      exact .inr ⟨⟨d₁, mem_cons_self, _, _, _, hkey⟩, ⟨d₂, mem_cons_of_mem _ mem_cons_self, _, _, _, hval⟩⟩
    · exact .inr he

theorem gives_readFields {ds : List BufDecoder} : ∀ {pos : ℤ} {vs : List Value},
    readFields env buf p ds pos = some vs → ∀ v ∈ vs, v = .none ∨ Gives ds v := by
  induction ds with
  | nil =>
    intro pos vs h v hv
    cases h
    cases hv
  | cons d ds ih =>
    intro pos vs h v hv
    have hrs : ∀ {pos} {rest}, readFields env buf p ds pos = some rest → v ∈ rest →
        v = .none ∨ Gives (d :: ds) v := fun hrs hv => (ih hrs v hv).imp_right fun h => h.mono (subset_cons_self d ds)
    simp only [readFields] at h
    split_ifs at h
    · simp only [bind_eq_bind, bind_eq_some_iff] at h
      obtain ⟨lenBuf, -, h⟩ := h
      split_ifs at h
      · simp only [bind_eq_some_iff, Option.pure_def, Option.some.injEq] at h
        obtain ⟨itemBuf, -, ⟨item, left⟩, hi, rest, hr, rfl⟩ := h
        rcases mem_cons.mp hv with rfl | hv
        · exact .inr ⟨d, mem_cons_self, _, _, _, hi⟩
        · exact hrs hr hv
      simp only [bind_eq_some_iff, Option.pure_def, Option.some.injEq] at h
      obtain ⟨rest, hr, rfl⟩ := h
      rcases mem_cons.mp hv with rfl | hv
      · exact .inl rfl
      · exact hrs hr hv
    simp only [bind_eq_bind, bind_eq_some_iff, Option.pure_def, Option.some.injEq] at h
    obtain ⟨rest, hr, rfl⟩ := h
    rcases mem_cons.mp hv with rfl | hv
    · exact .inl rfl
    · exact hrs hr hv

theorem gives_readComponents {ds : List BufDecoder} : ∀ {buf left : Bytes} {vs : List Value},
    readComponents env p ds buf = some (vs, left) → ∀ v ∈ vs, Gives ds v := by
  induction ds with
  | nil =>
    intro buf left vs h v hv
    cases h
    cases hv
  | cons d ds ih =>
    intro buf left vs h v hv
    rw [readComponents] at h
    split_ifs at h
    · cases h
      cases hv
    simp only [bind_eq_bind, bind_eq_some_iff] at h
    obtain ⟨elem, -, ⟨item, itemLeft⟩, hi, next, -, ⟨rest, restLeft⟩, hr, rfl, -⟩ := h
    rcases mem_cons.mp hv with rfl | hv
    · exact ⟨d, mem_cons_self, _, _, _, hi⟩
    · exact (ih hr v hv).mono (subset_cons_self d ds)

end Loops

theorem int32_lt (n : ℤ) : int32 n < 2 ^ 31 := by
  have h := @Int.bmod_lt n (2 ^ 32) (by norm_num)
  exact h

theorem unmarked_of_isScalar (h : v.isScalar) (hd : ∀ n e, v = .decimal n e → e < 2 ^ 31) : ¬ Has Marked v := by
  apply not_has
  · cases v with
    | decimal n e => exact (hd n e rfl).ne
    | list vs | set vs | map k p xs idx | tuple vs | user u vs => cases h
    | none | empty | bytes b | bytearray b | str s | bool b | int n | float x | double x | uuid b | inet b | datetime d
    | date d | time n => exact id
  rw [parts_of_isScalar h]
  exact fun x hx => nomatch hx

variable {b : Bytes} {env : Env}

theorem isScalar_deserializeScalar {s : Scalar} (h : Python.deserializeScalar env s b = some v) : v.isScalar := by
  cases s with
  | bytes =>
    cases h
    rfl
  | boolean | byte | short | int32 | long | counterColumn | integer | float | double | utf8 | varchar | simpleDate =>
    obtain ⟨n, -, rfl⟩ := map_eq_some_iff.mp h
    rfl
  | uuid | timeUUID | ascii | inetAddress =>
    simp only [Python.deserializeScalar, Option.ite_none_right_eq_some, Option.some.injEq] at h
    obtain ⟨-, rfl⟩ := h
    rfl
  | decimal | date | timestamp =>
    simp only [Python.deserializeScalar, bind_eq_bind, bind_eq_some_iff, Option.pure_def,
      Option.some.injEq] at h
    obtain ⟨_, -, _, -, rfl⟩ := h
    rfl
  | time =>
    simp only [Python.deserializeScalar, bind_eq_bind, bind_eq_some_iff] at h
    obtain ⟨n, -, hv⟩ := h
    split_ifs at hv
    cases hv
    rfl

variable {cls : DesClass} {left : Bytes} {p : Nat} {t : CqlType}

theorem unmarked_scalar (hcls : cls.isParameterized = false) (hgen : cls ≠ .generic)
    (h : deserializeWith env cls t ds b p = some (v, left)) : ¬ Has Marked v := by
  cases cls with
  | generic => exact absurd rfl hgen
  | list | set | map | tuple | user | composite | reversed | frozen => cases hcls
  | deserializer => cases h
  | bytes | bytesByteArray | boolean | byte | float | double | long | int32 | simpleDate | short =>
    cases h
    exact unmarked_of_isScalar rfl (by simp)
  | uuid | ascii | inetAddress =>
    simp only [deserializeWith, Option.ite_none_right_eq_some] at h
    obtain ⟨-, rfl, -⟩ := h
    exact unmarked_of_isScalar rfl (by simp)
  | time =>
    simp only [deserializeWith, Option.ite_none_left_eq_some] at h
    obtain ⟨-, rfl, -⟩ := h
    exact unmarked_of_isScalar rfl (by simp)
  | integer | date | utf8 =>
    obtain ⟨x, -, hx⟩ := map_eq_some_iff.mp h
    cases hx
    exact unmarked_of_isScalar rfl (by simp)
  | decimal =>
    simp only [Cython.deserializeWith, bind_eq_bind, bind_eq_some_iff] at h
    obtain ⟨varintBuf, -, unscaled, -, rfl, -⟩ := h
    refine unmarked_of_isScalar rfl fun n e hne => ?_
    obtain ⟨-, rfl⟩ := Value.decimal.inj hne
    exact int32_lt _

theorem unmarked_parameterized (hcls : cls.isParameterized) (ht : cls.Takes ds.length)
    (hds : ∀ x, Gives ds x → ¬ Has Marked x) (hu : cls = .user → ∀ u ts, t = .user u ts → ¬ u.Misnamed)
    (h : deserializeWith env cls t ds b p = some (v, left)) : ¬ Has Marked v := by
  have hn : ¬ Has Marked .none := unmarked_of_isScalar rfl fun n e hne => nomatch hne
  have hf : ∀ x, x = .none ∨ Gives ds x → ¬ Has Marked x := by
    rintro x (rfl | hx)
    · exact hn
    · exact hds x hx
  cases cls with
  | deserializer | bytes | bytesByteArray | decimal | uuid | boolean | byte | ascii | float | double | long | int32
  | integer | inetAddress | date | simpleDate | short | time | utf8 | generic => cases hcls
  | list =>
    obtain ⟨d, rfl⟩ := length_eq_one_iff.mp ht
    simp only [deserializeWith, deserializeListOrSet, bind_eq_bind, bind_eq_some_iff] at h
    obtain ⟨vs, ⟨n, -, hr⟩, rfl, -⟩ := h
    exact not_has id fun x hx => hds x (gives_readItems env d hr x hx)
  | set =>
    obtain ⟨d, rfl⟩ := length_eq_one_iff.mp ht
    simp only [deserializeWith, deserializeListOrSet, bind_eq_bind, bind_eq_some_iff] at h
    obtain ⟨vs, ⟨n, -, hr⟩, s, hs, rfl, -⟩ := h
    refine not_has id fun x hx => hds x (gives_readItems env d hr x ?_)
    exact (mem_update _ hs x hx).resolve_left not_mem_nil
  | map =>
    obtain ⟨d₁, l, rfl⟩ := exists_cons_of_length_pos (lt_of_lt_of_le Nat.zero_lt_two ht)
    obtain ⟨d₂, rest, rfl⟩ := exists_cons_of_length_pos (Nat.le_of_succ_le_succ ht)
    simp only [deserializeWith] at h
    split at h
    · simp only [bind_eq_bind, bind_eq_some_iff] at h
      obtain ⟨n, -, m, hr, rfl, -⟩ := h
      refine not_has id fun x hx => ?_
      obtain ⟨e, he, hx⟩ := mem_flatMap.mp hx
      have hg := (gives_readEntries env d₁ d₂ hr e he).resolve_left not_mem_nil
      rcases mem_pair.mp hx with rfl | rfl
      · exact hds _ (hg.1.mono (by simp))
      · exact hds _ (hg.2.mono (by simp))
    · cases h
  | tuple =>
    simp only [Cython.deserializeWith, bind_eq_bind, bind_eq_some_iff] at h
    obtain ⟨vs, hr, rfl, -⟩ := h
    exact not_has id fun x hx => hf x (gives_readFields env hr x hx)
  | user =>
    simp only [deserializeWith] at h
    split at h
    · rename_i u ts
      simp only [bind_eq_bind, bind_eq_some_iff] at h
      obtain ⟨vs, hr, rfl, -⟩ := h
      apply not_has
      · unfold UserType.construct
        split
        · exact hu rfl u ts rfl
        · exact id
      rw [parts_construct]
      exact fun x hx => hf x (gives_readFields env hr x hx)
    · cases h
  | composite =>
    simp only [Cython.deserializeWith, bind_eq_bind, bind_eq_some_iff] at h
    obtain ⟨⟨vs, rest⟩, hr, rfl, -⟩ := h
    exact not_has id fun x hx => hds x (gives_readComponents env hr x hx)
  | reversed | frozen =>
    obtain ⟨d, rfl⟩ := length_eq_one_iff.mp ht
    exact hds v ⟨d, mem_cons_self, b, p, left, h⟩

theorem findClass_generic (h : findClass t = .generic) : ∃ s, t = .scalar s := by
  have hn : ∀ c ∈ classes, c.2 ≠ .generic := by decide
  unfold findClass at h
  cases hlk : classes.lookup t.name with
  | some cls =>
    rw [hlk] at h
    obtain ⟨l₁, l₂, hc, -⟩ := lookup_eq_some_iff.mp hlk
    exact absurd h (hn (t.name, cls) (by rw [hc]; simp))
  | none =>
    rw [hlk] at h
    cases t with
    | scalar s => exact ⟨s, rfl⟩
    | list t | set t | map k v | tuple ts | user u ts | composite ts | reversed t | frozen t => cases h

theorem unmarked_generic (hcls : findClass t = .generic) (h : Python.deserialize env t b p = some v) :
    ¬ Has Marked v := by
  obtain ⟨s, rfl⟩ := findClass_generic hcls
  have hsc := isScalar_deserializeScalar h
  refine unmarked_of_isScalar hsc ?_
  rintro n e rfl
  cases s with
  | timestamp | timeUUID => simp [Python.deserialize, Python.deserializeWith, Python.deserializeScalar, bind_eq_some_iff] at h
  | bytes | decimal | uuid | boolean | byte | ascii | float | double | long | int32 | integer | inetAddress
  | counterColumn | date | simpleDate | short | time | utf8 | varchar => cases hcls

theorem cython_unmarked (env : Env) (t : CqlType) : ∀ {p : Nat} {b left : Bytes} {v : Value},
    Reading.cython env ⟨t, p, b⟩ = some (v, left) → ¬ Has Marked v := by
  induction t using CqlType.subtypes_induction with
  | h t ih =>
    intro p b left v h
    obtain ⟨d, hd, hbuf⟩ := bind_eq_some_iff.mp h
    obtain ⟨ds, rfl⟩ := findDeserializer_type hd
    rw [Cython.fromBuffer, Cython.fromBuffers_eq, Cython.fromBinaryWith] at hbuf
    by_cases hnil : b = [] ∧ t.emptyBinaryOk = false
    · rw [if_pos hnil] at hbuf
      cases hbuf
      split <;> exact unmarked_of_isScalar rfl (by simp)
    rw [if_neg hnil] at hbuf
    cases hcls : (findClass t).isParameterized with
    | false =>
      by_cases hgen : findClass t = .generic
      · rw [hgen] at hbuf
        obtain ⟨x, hx, hp⟩ := map_eq_some_iff.mp hbuf
        cases hp
        exact unmarked_generic hgen hx
      · exact unmarked_scalar hcls hgen hbuf
    | true =>
      obtain ⟨ds', hds, ht, hmk⟩ := (findDeserializer_parameterized hcls).mp hd
      obtain rfl := (Deserializer.mk.inj hmk).2.2
      rw [map_fromBuffer env hds] at hbuf
      refine unmarked_parameterized hcls (by rwa [length_map]) ?_ ?_ hbuf
      · rintro x ⟨d, hd, b, p, left, hg⟩
        obtain ⟨s, hs, rfl⟩ := mem_map.mp hd
        exact ih s hs hg
      rintro hu u ts rfl ⟨cls, hlk, hne⟩
      simp only [findClass, CqlType.name, hlk] at hu
      exact hne hu

end CqlDriver.Decoding
