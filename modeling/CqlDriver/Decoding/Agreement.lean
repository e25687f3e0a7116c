import CqlDriver.Decoding.Marks

/-! # Both decoders -/

namespace CqlDriver.Decoding

open Lib CqlDriver.Types List Option Python Reading

def CqlType.isComposite : CqlType → Bool
  | .composite _ => true
  | .reversed t | .frozen t => t.isComposite
  | _ => false

def WellNamed (r : Reading) : Prop := ∀ u ts, r.type = .user u ts → r.bytes ≠ [] → ¬ u.Misnamed

structure Readable (r : Reading) : Prop where
  /-- The scale can be negated in 32 bits. -/
  decimal : r.type = .scalar .decimal → r.bytes ≠ [] → signedValue (r.bytes.take 4) ≠ -2 ^ 31
  /-- The name of a user type does not belong to another deserializer. -/
  user : WellNamed r
  /-- The length of a component fits in 16 bits with a sign. -/
  composite : ∀ ts, r.type = .composite ts → ∀ c, r.Reads c → c.bytes.length < 2 ^ 15

structure Plain (r : Reading) : Prop extends Readable r where
  /-- No key of a map is a composite, an empty one apart. -/
  map : ∀ k v, r.type = .map k v → k.isComposite → ∀ es,
    takeCounted r.version (takeEntries r.version) r.bytes = some es → ∀ e ∈ es, e.1 = []

variable {env : Env} {r : Reading}

/-! ## What is read next -/

variable {c r' : Reading} {P : Reading → Prop} {v x : Value} {cs : List Reading} {vs : List (Value × Bytes)}
  {ts : List CqlType} {s : Scalar}

theorem Reading.IsLeaf.not_reads (h : r.IsLeaf) (hc : r.Reads c) : False := by
  obtain ⟨cs, hcs, hmem⟩ := hc
  obtain ⟨t, p, b⟩ := r
  have hnil : some [] = some cs := by
    rw [← hcs]
    rcases h with rfl | ⟨s, rfl⟩
    · rfl
    unfold children
    split <;> rfl
  cases hnil
  cases hmem

theorem Reading.Reads.mem_subtypes (h : r.Reads c) : c.type ∈ r.type.subtypes := by
  by_cases hl : r.IsLeaf
  · exact (hl.not_reads h).elim
  obtain ⟨cs, hcs, hmem⟩ := h
  obtain ⟨t, p, b⟩ := r
  simp only [children, if_neg (bytes_ne_nil hl)] at hcs
  cases t with
  | scalar s => exact absurd (.inr ⟨s, rfl⟩) hl
  | list t | set t =>
    obtain ⟨xs, -, rfl⟩ := map_eq_some_iff.mp hcs
    obtain ⟨x, -, rfl⟩ := mem_map.mp hmem
    exact mem_cons_self
  | map k v =>
    obtain ⟨es, -, rfl⟩ := map_eq_some_iff.mp hcs
    obtain ⟨e, -, hmem⟩ := mem_flatMap.mp hmem
    rcases mem_pair.mp hmem with rfl | rfl
    · exact mem_cons_self
    · exact mem_cons_of_mem _ mem_cons_self
  | tuple ts | user u ts =>
    dsimp only at hcs
    split_ifs at hcs
    obtain ⟨fs, -, rfl⟩ := map_eq_some_iff.mp hcs
    obtain ⟨x, hx, hc⟩ := mem_filterMap.mp hmem
    obtain ⟨b', -, rfl⟩ := map_eq_some_iff.mp hc
    exact (of_mem_zip hx).1
  | composite ts =>
    obtain ⟨xs, -, rfl⟩ := map_eq_some_iff.mp hcs
    obtain ⟨x, hx, rfl⟩ := mem_map.mp hmem
    exact (of_mem_zip hx).1
  | reversed t | frozen t =>
    cases hcs
    obtain rfl := mem_singleton.mp hmem
    exact mem_cons_self

theorem Reading.induction {motive : Reading → Prop} (h : ∀ r, (∀ c, r.Reads c → motive c) → motive r) (r : Reading) :
    motive r := by
  obtain ⟨t, p, b⟩ := r
  induction t using CqlType.subtypes_induction generalizing p b with
  | h t ih => exact h _ fun c hc => ih c.type hc.mem_subtypes c.version c.bytes

theorem WellFormed.shape (h : WellFormed env r) : Shape env r := h r .refl

theorem WellFormed.child (h : WellFormed env r) (hc : r.Reads c) : WellFormed env c :=
  fun r' hr' => h r' (.head hc hr')

theorem forall_visits (h : P r) (hcl : ∀ c, r.Reads c → ∀ r', c.Visits r' → P r') : ∀ r', r.Visits r' → P r' := by
  intro r' hr'
  rcases Relation.ReflTransGen.cases_head hr' with rfl | ⟨c, hc, hr'⟩
  · exact h
  · exact hcl c hc r' hr'

/-! ## Python -/

theorem python_leaf_isSome (hl : r.IsLeaf) (hsp : Shape env r) : (r.python env).isSome := by
  by_cases hsc : ∃ s, r.type = .scalar s
  · obtain ⟨s, hs⟩ := hsc
    exact hsp.scalar s hs
  obtain ⟨t, p, b⟩ := r
  obtain rfl : b = [] := hl.resolve_right hsc
  have he : t.emptyBinaryOk = false := by
    cases hok : t.emptyBinaryOk with
    | false => rfl
    | true => exact absurd (emptyBinaryOk_scalar hok) hsc
  rw [python, fromBinary_nil env he]
  rfl

theorem isScalar_of_leaf (hl : r.IsLeaf) (hv : r.python env = some v) : v.isScalar := by
  obtain ⟨t, p, b⟩ := r
  unfold python at hv
  by_cases hnil : b = [] ∧ t.emptyBinaryOk = false
  · obtain ⟨rfl, he⟩ := hnil
    rw [fromBinary_nil env he] at hv
    cases hv
    split <;> rfl
  obtain ⟨s, rfl⟩ : ∃ s, t = .scalar s := by
    rcases hl with hb | hsc
    · exact emptyBinaryOk_scalar (by simpa using fun h => hnil ⟨hb, h⟩)
    · exact hsc
  rw [Python.fromBinary_eq, Python.fromBinaryWith, if_neg hnil] at hv
  exact isScalar_deserializeScalar hv

theorem python_values {g : Reading → Bytes} (h : (cs.mapM fun c => (c.python env).map (·, g c)) = some vs) :
    cs.mapM (python env) = some (vs.map Prod.fst) := by
  have hfst : python env = fun r => ((r.python env).map (·, g r)).map Prod.fst := by
    funext r
    cases r.python env <;> rfl
  rw [hfst, mapM_map_result, h]
  rfl

theorem assemble_isSome (hsp : Shape env r) (hl : ¬ r.IsLeaf) (hcs : r.children = some cs)
    (hvs : cs.mapM (pythonPair env) = some vs) : (r.assemble env vs).isSome := by
  have hset := hsp.set
  obtain ⟨t, p, b⟩ := r
  have hb : b ≠ [] := fun h => hl (.inl h)
  unfold assemble
  cases t with
  | scalar s => exact absurd (.inr ⟨s, rfl⟩) hl
  | list t | map k v | composite ts => rfl
  | set t =>
    obtain ⟨-, s, hs, -⟩ := hset t rfl cs hcs _ (python_values hvs)
    rw [hs]
    rfl
  | tuple ts | user u ts =>
    simp only [children, if_neg hb] at hcs
    split_ifs at hcs with hts
    obtain ⟨fs, hfs, -⟩ := map_eq_some_iff.mp hcs
    dsimp only
    rw [hfs]
    rfl
  | reversed t | frozen t =>
    simp only [children, if_neg hb] at hcs
    cases hcs
    have hlen := (mapM_eq_some.mp hvs).length_eq
    obtain ⟨y, rest, rfl⟩ := exists_cons_of_length_eq_add_one hlen.symm
    rfl

theorem WellFormed.python_isSome (h : WellFormed env r) : (r.python env).isSome := by
  induction r using induction with
  | h r ih =>
    obtain ⟨cs, hcs⟩ := isSome_iff_exists.mp h.shape.children
    by_cases hl : r.IsLeaf
    · exact python_leaf_isSome hl h.shape
    have hall : (cs.mapM (pythonPair env)).isSome := by
      rw [mapM_isSome]
      intro c hc
      have hr : r.Reads c := ⟨cs, hcs, hc⟩
      rw [pythonPair, isSome_map]
      exact ih c hr (h.child hr)
    obtain ⟨vs, hvs⟩ := isSome_iff_exists.mp hall
    rw [python_eq_assemble env hl hcs, hvs]
    exact assemble_isSome h.shape hl hcs hvs

/-! ## Marks -/

theorem has_of_child {P : Value → Prop} (hsp : Shape env r) (hc : r.Reads c) (hx : c.python env = some x)
    (hv : r.python env = some v) (h : Value.Has P x) : Value.Has P v := by
  have hl : ¬ r.IsLeaf := fun hl => hl.not_reads hc
  obtain ⟨cs, hcs, hmem⟩ := hc
  rw [python_eq_assemble env hl hcs] at hv
  obtain ⟨vs, hvs, hasm⟩ := bind_eq_some_iff.mp hv
  have hset : ∀ t, r.type = .set t → ∀ s, SortedSet.update env.lt env.eq [] (vs.map Prod.fst) = some s →
      ∀ x ∈ vs.map Prod.fst, x ∈ s := by
    intro t ht s hs x hx
    obtain ⟨-, s', hs', hpm⟩ := hsp.set t ht cs hcs _ (python_values hvs)
    rw [hs', some.injEq] at hs
    exact hs ▸ hpm.mem_iff.mpr hx
  have hp : c.pythonPair env = some (x, c.bytes) := by rw [pythonPair, hx, map_some]
  rcases part_of_child hl hcs hvs hasm hset hmem hp with rfl | hpr
  · exact h
  · exact .part hpr h

theorem has_of_visits {P : Value → Prop} (hvs : r.Visits r') (hw : WellFormed env r)
    (hx : r'.python env = some x) (h : Value.Has P x) : ∀ v, r.python env = some v → Value.Has P v := by
  induction hvs using Relation.ReflTransGen.head_induction_on with
  | refl =>
    intro v hv
    rw [hx, some.injEq] at hv
    exact hv ▸ h
  | head hc _ ih =>
    intro v hv
    obtain ⟨y, hy⟩ := isSome_iff_exists.mp (hw.child hc).python_isSome
    exact has_of_child hw.shape hc hy hv (ih (hw.child hc) y hy)

def KeyMarked : Value → Prop
  | .map k _ _ index => k.isComposite ∧ ∃ key ∈ index.keys, key ≠ []
  | _ => False

theorem marked_decimal (ht : r.type = .scalar .decimal) (hb : r.bytes ≠ [])
    (hs : signedValue (r.bytes.take 4) = -2 ^ 31) (hv : r.python env = some v) : Value.Has Marked v := by
  obtain ⟨t, p, b⟩ := r
  subst ht
  rw [python, fromBinary_some env hb] at hv
  simp only [deserializeWith, deserializeScalar, bind_eq_bind, bind_eq_some_iff,
    Option.pure_def, some.injEq] at hv
  obtain ⟨scale, hunp, unscaled, -, rfl⟩ := hv
  unfold unpackSigned at hunp
  split_ifs at hunp
  rw [hs] at hunp
  cases hunp
  exact .here rfl

theorem marked_user {u : UserType} (ht : r.type = .user u ts) (hb : r.bytes ≠ []) (hn : u.Misnamed)
    (hcs : r.children = some cs) (hv : r.python env = some v) : Value.Has Marked v := by
  have hl : ¬ r.IsLeaf := by
    rintro (h | ⟨s, h⟩)
    · exact hb h
    rw [ht] at h
    cases h
  rw [python_eq_assemble env hl hcs] at hv
  obtain ⟨vs, -, hasm⟩ := bind_eq_some_iff.mp hv
  simp only [assemble, ht] at hasm
  obtain ⟨fs, -, rfl⟩ := map_eq_some_iff.mp hasm
  have hc : u.hasClass := by
    by_contra hno
    obtain ⟨cls, hlk, -⟩ := hn
    rw [u.named (by simpa using hno)] at hlk
    cases hlk
  unfold UserType.construct
  rw [if_pos hc]
  exact .here hn

theorem keyMarked_map {k w : CqlType} (ht : r.type = .map k w) (hkey : k.isComposite) {es : List (Bytes × Bytes)}
    (hes : takeCounted r.version (takeEntries r.version) r.bytes = some es) {e : Bytes × Bytes} (he : e ∈ es)
    (hne : e.1 ≠ []) (hv : r.python env = some v) : Value.Has KeyMarked v := by
  obtain ⟨t, p, b⟩ := r
  subst ht
  have hb : b ≠ [] := ne_nil_of_takeCounted hes
  have hcs : children ⟨.map k w, p, b⟩ =
      some (es.flatMap fun e => [⟨k, innerProto p, e.1⟩, ⟨w, innerProto p, e.2⟩]) := by
    simp only [children, if_neg hb, hes, map_some]
  have hl : ¬ Reading.IsLeaf ⟨.map k w, p, b⟩ := by
    rintro (h | ⟨s, h⟩)
    · exact hb h
    · cases h
  rw [python_eq_assemble env hl hcs] at hv
  obtain ⟨vs, hvs, hasm⟩ := bind_eq_some_iff.mp hv
  cases hasm
  obtain ⟨key, val, hk, -, hen⟩ := entry_of_children hvs he
  obtain ⟨x, -, rfl⟩ := map_eq_some_iff.mp hk
  refine .here ⟨hkey, e.1, ?_, hne⟩
  exact (mem_keys_insertAll _ _ _).mpr (.inr ⟨_, hen, rfl⟩)

/-! ## Cython -/

theorem WellNamed.of_not_leaf (h : WellNamed r) (hl : ¬ r.IsLeaf) : ∀ u ts, r.type = .user u ts → ¬ u.Misnamed :=
  fun u ts ht => h u ts ht fun hb => hl (.inl hb)

theorem Constructible.child (h : Constructible r.type) (hn : WellNamed r) (hc : r.Reads c) : Constructible c.type := by
  have hl : ¬ r.IsLeaf := fun hl => hl.not_reads hc
  obtain ⟨-, hsub⟩ := h
  refine hsub ?_ c.type hc.mem_subtypes
  rw [findClass_eq r.type (hn.of_not_leaf hl)]
  exact isParameterized_ownClass fun s hs => hl (.inr ⟨s, hs⟩)

theorem cython_none_of_long (hv : r.Visits r') (hw : WellFormed env r) (hcon : Constructible r.type)
    (hn : ∀ r'', r.Visits r'' → WellNamed r'') (htp : r'.type = .composite ts) (hc : r'.Reads c)
    (hln : 2 ^ 15 ≤ c.bytes.length) : r.cython env = none := by
  induction hv using Relation.ReflTransGen.head_induction_on with
  | refl =>
    obtain ⟨cs, hcs, hmem⟩ := hc
    exact cython_long env htp hcon hcs hmem hln
  | @head r d hd _ ih =>
    have hl : ¬ r.IsLeaf := fun hl => hl.not_reads hd
    have hnn := ih (hw.child hd) (hcon.child (hn r .refl) hd) fun r'' hr'' => hn r'' (.head hd hr'')
    obtain ⟨cs, hcs, hmem⟩ := hd
    by_cases hs : ∀ ts, r.type = .composite ts → ∀ c ∈ cs, c.bytes.length < 2 ^ 15
    · have hall : cs.mapM (cython env) = none := by
        rw [← not_isSome_iff_eq_none, mapM_isSome]
        intro hall
        have hsm := hall d hmem
        rw [hnn] at hsm
        cases hsm
      rw [cython_eq_assemble env hl hcon ((hn r .refl).of_not_leaf hl) hw.shape.size hcs hs, hall]
      rfl
    push Not at hs
    obtain ⟨ts, ht, c, hc, hln⟩ := hs
    exact cython_long env ht hcon hcs hc hln

theorem cython_of_readable (hs : Shape env r) (hl : ¬ r.IsLeaf) (hcon : Constructible r.type)
    (hr : Readable r) (hcs : r.children = some cs) :
    r.cython env = (cs.mapM (cython env)).bind fun vs => (r.assemble env vs).map (·, r.left vs) :=
  cython_eq_assemble env hl hcon (hr.user.of_not_leaf hl) hs.size hcs
    fun ts ht c hc => hr.composite ts ht c ⟨cs, hcs, hc⟩

theorem not_keyMarked_of_isScalar (h : v.isScalar) : ¬ KeyMarked v := by
  cases v with
  | map k p xs idx => cases h
  | _ => exact id

theorem left_of_composite (hl : ¬ r.IsLeaf) (hcs : r.children = some cs) (hvs : cs.mapM (cython env) = some vs)
    (hc : ∀ c ∈ cs, ∀ y, c.cython env = some y → c.type.isComposite → y.2 = []) :
    r.type.isComposite → r.left vs = [] := by
  intro hcm
  obtain ⟨t, p, b⟩ := r
  simp only [children, if_neg (bytes_ne_nil hl)] at hcs
  cases t with
  | scalar s | list t | set t | map k w | tuple ts | user u ts => cases hcm
  | composite ts => rfl
  | reversed t | frozen t =>
    cases hcs
    obtain ⟨y, rest, hy, -, rfl⟩ := forall₂_cons_left_iff.mp (mapM_eq_some.mp hvs)
    exact hc _ mem_cons_self y hy hcm

theorem assemble_unkeyed (hl : ¬ r.IsLeaf) (hcs : r.children = some cs)
    (hvs : cs.mapM (cython env) = some vs) (hv : r.assemble env vs = some v)
    (hcl : ∀ c ∈ cs, ∀ y, c.cython env = some y → ¬ Value.Has KeyMarked y.1 ∧ (c.type.isComposite → y.2 = [])) :
    ¬ KeyMarked v := by
  obtain ⟨t, p, b⟩ := r
  simp only [children, if_neg (bytes_ne_nil hl)] at hcs
  cases t with
  | scalar s => cases hv
  | list t | composite ts =>
    cases hv
    exact id
  | set t =>
    obtain ⟨s, -, rfl⟩ := map_eq_some_iff.mp hv
    exact id
  | map k w =>
    obtain ⟨es, -, rfl⟩ := map_eq_some_iff.mp hcs
    cases hv
    rintro ⟨hkey, key, hmem, hne⟩
    rw [mem_keys_insertAll] at hmem
    obtain ⟨e, he, rfl⟩ := hmem.resolve_left not_mem_nil
    obtain ⟨e', he', key, val, hct, -, rfl⟩ := children_of_entry hvs he
    exact hne ((hcl _ (mem_flatMap.mpr ⟨e', he', mem_cons_self⟩) key hct).2 hkey)
  | tuple ts =>
    obtain ⟨fs, -, rfl⟩ := map_eq_some_iff.mp hv
    exact id
  | user u ts =>
    obtain ⟨fs, -, rfl⟩ := map_eq_some_iff.mp hv
    unfold UserType.construct
    split <;> exact id
  | reversed t | frozen t =>
    obtain ⟨y, hy, rfl⟩ := map_eq_some_iff.mp hv
    obtain ⟨c, hc, hct⟩ := exists_of_mem_result hvs (mem_of_head? hy)
    exact fun h => (hcl c hc y hct).1 (.here h)

theorem cython_unkeyed (hwl : WellFormed env r) (hcon : Constructible r.type)
    (hr : ∀ r', r.Visits r' → Readable r') : ∀ {v : Value} {left : Bytes}, r.cython env = some (v, left) →
      ¬ Value.Has KeyMarked v ∧ (r.type.isComposite → left = []) := by
  induction r using induction with
  | h r ih =>
    intro v left h
    by_cases hl : r.IsLeaf
    · obtain ⟨x, hx⟩ := isSome_iff_exists.mp hwl.python_isSome
      rw [cython_leaf env hl hcon hx (hr r .refl).decimal] at h
      cases h
      have hsc := isScalar_of_leaf hl hx
      constructor
      · apply Value.not_has (not_keyMarked_of_isScalar hsc)
        rw [Value.parts_of_isScalar hsc]
        exact fun y hy => nomatch hy
      intro hcm
      rcases hl with hb | ⟨s, hs⟩
      · exact hb
      rw [hs] at hcm
      cases hcm
    obtain ⟨cs, hcs⟩ := isSome_iff_exists.mp hwl.shape.children
    rw [cython_of_readable hwl.shape hl hcon (hr r .refl) hcs] at h
    obtain ⟨vs, hvs, hasm⟩ := bind_eq_some_iff.mp h
    obtain ⟨x, hx, hp⟩ := map_eq_some_iff.mp hasm
    cases hp
    have hcl : ∀ c ∈ cs, ∀ y, c.cython env = some y → ¬ Value.Has KeyMarked y.1 ∧ (c.type.isComposite → y.2 = []) := by
      intro c hc y hy
      have hrd : r.Reads c := ⟨cs, hcs, hc⟩
      exact ih c hrd (hwl.child hrd) (hcon.child (hr r .refl).user hrd) (fun r' hr' => hr r' (.head hrd hr')) hy
    refine ⟨?_, left_of_composite hl hcs hvs fun c hc y hy => (hcl c hc y hy).2⟩
    rcases child_of_part hl hcs hvs hx with ⟨c, hc, y, hy, rfl⟩ | hpr
    · exact (hcl c hc y hy).1
    apply Value.not_has
    · exact assemble_unkeyed hl hcs hvs hx hcl
    intro z hz
    rcases hpr z hz with rfl | ⟨c, hc, y, hy, rfl⟩
    · exact Value.not_has id fun w hw => nomatch hw
    · exact (hcl c hc y hy).1

def Reading.leftover (r : Reading) : Bytes := if r.type.isComposite then [] else r.bytes

theorem leftover_leaf (hl : r.IsLeaf) : r.leftover = r.bytes := by
  unfold leftover
  split
  · rename_i hc
    rcases hl with hb | ⟨s, hs⟩
    · exact hb.symm
    rw [hs] at hc
    cases hc
  · rfl

theorem left_leftover (hl : ¬ r.IsLeaf) (hcs : r.children = some cs)
    (hvs : (cs.mapM fun c => (c.python env).map (·, c.leftover)) = some vs) : r.left vs = r.leftover := by
  obtain ⟨t, p, b⟩ := r
  simp only [children, if_neg (bytes_ne_nil hl)] at hcs
  cases t with
  | scalar s | list t | set t | map k w | tuple ts | user u ts | composite ts => rfl
  | reversed t | frozen t =>
    cases hcs
    obtain ⟨y, rest, hy, -, rfl⟩ := forall₂_cons_left_iff.mp (mapM_eq_some.mp hvs)
    obtain ⟨v, -, rfl⟩ := map_eq_some_iff.mp hy
    rfl

theorem leftover_key {k w : CqlType} (hp : Plain r) (ht : r.type = .map k w) {es : List (Bytes × Bytes)}
    (hes : takeCounted r.version (takeEntries r.version) r.bytes = some es) {e : Bytes × Bytes} (he : e ∈ es) (q : Nat) :
    leftover ⟨k, q, e.1⟩ = e.1 := by
  unfold leftover
  split
  · rename_i hc
    exact (hp.map k w ht hc es hes e he).symm
  · rfl

theorem assemble_leftover (hp : Plain r) (hl : ¬ r.IsLeaf) (hcs : r.children = some cs)
    {vs' : List (Value × Bytes)} (hvs : cs.mapM (pythonPair env) = some vs)
    (hvs' : (cs.mapM fun c => (c.python env).map (·, c.leftover)) = some vs') :
    r.assemble env vs' = r.assemble env vs := by
  have hfst : vs'.map Prod.fst = vs.map Prod.fst := by
    have hpt := python_values hvs
    rwa [python_values hvs', some.injEq] at hpt
  have hmap := fun k w h es hes e he q => @leftover_key r k w hp h es hes e he q
  obtain ⟨t, p, b⟩ := r
  have hb : b ≠ [] := fun h => hl (.inl h)
  unfold assemble
  cases t with
  | scalar s => rfl
  | list t | set t | tuple ts | user u ts | composite ts =>
    rw [hfst]
  | map k w =>
    simp only [children, if_neg hb] at hcs
    obtain ⟨es, hes, rfl⟩ := map_eq_some_iff.mp hcs
    have hen : entriesOf vs' = entriesOf vs := by
      rw [← some.injEq, ← mapM_entriesOf hvs, ← mapM_entriesOf hvs']
      apply mapM_congr
      intro e he
      simp only [hmap k w rfl es hes e he, pythonPair, Option.map_map, Function.comp_def]
    rw [hen]
  | reversed t | frozen t =>
    rw [← head?_map, hfst, head?_map]

theorem cython_eq_python (hw : WellFormed env r) (hcon : Constructible r.type)
    (hp : ∀ r', r.Visits r' → Plain r') : r.cython env = (r.python env).map (·, r.leftover) := by
  induction r using induction with
  | h r ih =>
    obtain ⟨v, hv⟩ := isSome_iff_exists.mp hw.python_isSome
    by_cases hl : r.IsLeaf
    · rw [cython_leaf env hl hcon hv (hp r .refl).decimal, hv, leftover_leaf hl]
      rfl
    obtain ⟨cs, hcs⟩ := isSome_iff_exists.mp hw.shape.children
    have hcl : ∀ c ∈ cs, c.cython env = (c.python env).map (·, c.leftover) := by
      intro c hc
      have hr : r.Reads c := ⟨cs, hcs, hc⟩
      exact ih c hr (hw.child hr) (hcon.child (hp r .refl).user hr) fun r' hr' => hp r' (.head hr hr')
    rw [python_eq_assemble env hl hcs] at hv
    obtain ⟨vs, hvs, hasm⟩ := bind_eq_some_iff.mp hv
    obtain ⟨vs', hvs'⟩ : ∃ vs', (cs.mapM fun c => (c.python env).map (·, c.leftover)) = some vs' := by
      apply isSome_iff_exists.mp
      rw [mapM_isSome]
      intro c hc
      rw [isSome_map]
      exact (hw.child ⟨cs, hcs, hc⟩).python_isSome
    rw [cython_of_readable hw.shape hl hcon (hp r .refl).toReadable hcs, mapM_congr hcl, hvs',
      bind_some, assemble_leftover (hp r .refl) hl hcs hvs hvs', left_leftover hl hcs hvs',
      python_eq_assemble env hl hcs, hvs, bind_some]

variable {b : Bytes} {p : Nat}

theorem cython_fromBinary {env : Env} {t : CqlType} :
    Cython.fromBinary env t (some b) p = (cython env ⟨t, p, b⟩).map Prod.fst := by
  unfold Cython.fromBinary cython
  cases Cython.findDeserializer t <;> rfl

/-- They agree exactly when every subtype has a deserializer and all is plain. -/
theorem cython_eq_python_iff (env : Env) (t : CqlType) (p : Nat) (b : Bytes) (hwell : WellFormed env ⟨t, p, b⟩) :
    Cython.fromBinary env t (some b) p = fromBinary env t (some b) p ↔
      Constructible t ∧ ∀ r, Reading.Visits ⟨t, p, b⟩ r → Plain r := by
  obtain ⟨v, hv⟩ := isSome_iff_exists.mp hwell.python_isSome
  have hpt : fromBinary env t (some b) p = some v := hv
  rw [cython_fromBinary, hpt]
  constructor
  · intro h
    obtain ⟨⟨x, left⟩, hbuf, rfl⟩ := map_eq_some_iff.mp h
    obtain ⟨d, hd, -⟩ := bind_eq_some_iff.mp hbuf
    have hcon : Constructible t := (findDeserializer_isSome t).mp (isSome_iff_exists.mpr ⟨d, hd⟩)
    have hu := cython_unmarked env t hbuf
    -- Nothing that is read can have left a mark in the value.
    have hcl : ∀ {P : Value → Prop} {r : Reading}, ¬ Value.Has P x → Reading.Visits ⟨t, p, b⟩ r → ∀ y,
        r.python env = some y → ¬ Value.Has P y :=
      fun hnot hr y hy hP => hnot (has_of_visits hr hwell hy hP x hv)
    have hvl : ∀ r, Reading.Visits ⟨t, p, b⟩ r → ∃ y, r.python env = some y := fun r hr =>
      isSome_iff_exists.mp (WellFormed.python_isSome fun r' hr' => hwell r' (hr.trans hr'))
    have hnm : ∀ r, Reading.Visits ⟨t, p, b⟩ r → WellNamed r := by
      intro r hr u ts ht hb hn
      obtain ⟨y, hy⟩ := hvl r hr
      obtain ⟨cs, hcs⟩ := isSome_iff_exists.mp (hwell r hr).children
      exact hcl hu hr y hy (marked_user ht hb hn hcs hy)
    have hrd : ∀ r, Reading.Visits ⟨t, p, b⟩ r → Readable r := by
      intro r hr
      refine ⟨?_, hnm r hr, ?_⟩
      · intro ht hb hs
        obtain ⟨y, hy⟩ := hvl r hr
        exact hcl hu hr y hy (marked_decimal ht hb hs hy)
      intro ts ht c hc
      by_contra hl
      have hnn := cython_none_of_long hr hwell hcon hnm ht hc (not_lt.mp hl)
      rw [hnn] at hbuf
      cases hbuf
    refine ⟨hcon, fun r hr => ⟨hrd r hr, ?_⟩⟩
    intro k w ht hkey es hes e he
    by_contra hne
    obtain ⟨y, hy⟩ := hvl r hr
    exact hcl (cython_unkeyed hwell hcon hrd hbuf).1 hr y hy (keyMarked_map ht hkey hes he hne hy)
  rintro ⟨hcon, hp⟩
  rw [cython_eq_python hwell hcon hp, hv]
  rfl

/-! ## Examples -/

noncomputable def littleHost : Env where
  lt _ _ := some true
  eq _ _ := false
  supportEmptyValues _ := false
  littleEndian := true
  rounding := Rounding.down

theorem visits_scalar (h : P ⟨.scalar s, p, b⟩) : ∀ r, Reading.Visits ⟨.scalar s, p, b⟩ r → P r :=
  forall_visits h fun _ hc => (Reading.IsLeaf.not_reads (.inr ⟨s, rfl⟩) hc).elim

theorem plain_scalar (hs : s ≠ .decimal) : Plain ⟨.scalar s, p, b⟩ where
  decimal h := absurd (CqlType.scalar.inj h) hs
  user _ _ h := nomatch h
  composite _ h := nomatch h
  map _ _ h := nomatch h

section

variable {t : CqlType} {xs : List Bytes} (hne : b ≠ []) (hxs : takeCounted 4 (takeItems 4) b = some xs)
include hne hxs

theorem children_list : children ⟨.list t, 4, b⟩ = some (xs.map (⟨t, 4, ·⟩)) := by
  simp only [children, hne, hxs]
  rfl

theorem visits_list (h : P ⟨.list t, 4, b⟩) (hall : ∀ x ∈ xs, ∀ r, Reading.Visits ⟨t, 4, x⟩ r → P r) :
    ∀ r, Reading.Visits ⟨.list t, 4, b⟩ r → P r := by
  refine forall_visits h ?_
  rintro c ⟨cs, hcs, hc⟩
  rw [children_list hne hxs] at hcs
  cases hcs
  obtain ⟨x, hx, rfl⟩ := mem_map.mp hc
  exact hall x hx

theorem shape_list {env : Env} (hlen : b.length < 2 ^ 31) : Shape env ⟨.list t, 4, b⟩ := by
  refine ⟨hlen, ?_, nofun, nofun⟩
  rw [children_list hne hxs]
  rfl

end

def sevenEight : Bytes := [0, 0, 0, 2, 0, 0, 0, 4, 0, 0, 0, 7, 0, 0, 0, 4, 0, 0, 0, 8]

def nine : Bytes := [0, 0, 0, 1, 0, 0, 0, 4, 0, 0, 0, 9]

/-- `[[7, 8], [9]]` -/
def twoLists : Bytes := [0, 0, 0, 2, 0, 0, 0, 20] ++ sevenEight ++ [0, 0, 0, 12] ++ nine

theorem take_sevenEight : takeCounted 4 (takeItems 4) sevenEight = some [[0, 0, 0, 7], [0, 0, 0, 8]] := by decide

theorem take_nine : takeCounted 4 (takeItems 4) nine = some [[0, 0, 0, 9]] := by decide

theorem take_twoLists : takeCounted 4 (takeItems 4) twoLists = some [sevenEight, nine] := by decide

theorem visits_twoLists (houter : P ⟨.list (.list (.scalar .int32)), 4, twoLists⟩)
    (hinner : ∀ b ∈ [sevenEight, nine], P ⟨.list (.scalar .int32), 4, b⟩)
    (hints : ∀ x : UInt8, P ⟨.scalar .int32, 4, [0, 0, 0, x]⟩) :
    ∀ r, Reading.Visits ⟨.list (.list (.scalar .int32)), 4, twoLists⟩ r → P r := by
  apply visits_list (by decide) take_twoLists houter
  simp only [mem_cons, not_mem_nil, or_false, forall_eq_or_imp, forall_eq] at hinner ⊢
  refine ⟨?_, ?_⟩
  · apply visits_list (by decide) take_sevenEight hinner.1
    simp only [mem_cons, not_mem_nil, or_false, forall_eq_or_imp, forall_eq]
    exact ⟨visits_scalar (hints 7), visits_scalar (hints 8)⟩
  apply visits_list (by decide) take_nine hinner.2
  simp only [mem_cons, not_mem_nil, or_false, forall_eq]
  exact visits_scalar (hints 9)

theorem wellFormed_twoLists {env : Env} : WellFormed env ⟨.list (.list (.scalar .int32)), 4, twoLists⟩ := by
  apply visits_twoLists
  · exact shape_list (by decide) take_twoLists (by decide)
  · simp only [mem_cons, not_mem_nil, or_false, forall_eq_or_imp, forall_eq]
    exact ⟨shape_list (by decide) take_sevenEight (by decide),
      shape_list (by decide) take_nine (by decide)⟩
  · exact fun x => ⟨by simp, rfl, fun _ _ => rfl, nofun⟩

theorem cython_eq_python_iff_twoLists : WellFormed littleHost ⟨.list (.list (.scalar .int32)), 4, twoLists⟩ ∧
      Cython.fromBinary littleHost (.list (.list (.scalar .int32))) (some twoLists) 4 =
        fromBinary littleHost (.list (.list (.scalar .int32))) (some twoLists) 4 := by
  refine ⟨wellFormed_twoLists, (cython_eq_python_iff littleHost _ 4 twoLists wellFormed_twoLists).mpr ⟨?_, ?_⟩⟩
  · exact (findDeserializer_isSome _).mp rfl
  apply visits_twoLists
  · exact ⟨⟨nofun, nofun, nofun⟩, nofun⟩
  · exact fun b _ => ⟨⟨nofun, nofun, nofun⟩, nofun⟩
  · exact fun x => plain_scalar (by decide)

def longComponent : Bytes := 128 :: 0 :: (List.replicate 32768 7 ++ [0])

theorem longComponent_ne_nil : longComponent ≠ [] := cons_ne_nil _ _

theorem length_longComponent : longComponent.length = 32771 := by
  rw [longComponent, length_cons, length_cons, length_append, length_replicate]
  rfl

theorem takeComponents_long : takeComponents 1 longComponent = some [replicate 32768 7] := by
  have hlen : beDecode (longComponent.take 2) = 32768 := by
    have ht : longComponent.take 2 = [128, 0] := rfl
    decide
  have hi : (longComponent.drop 2).take 32768 = replicate 32768 7 := by
    have hd : longComponent.drop 2 = replicate 32768 7 ++ [0] := rfl
    rw [hd, take_left' length_replicate]
  have hr : longComponent.drop (2 + 32768 + 1) = [] := drop_eq_nil_of_le (by rw [length_longComponent])
  rw [takeComponents, if_neg longComponent_ne_nil, hlen, length_longComponent, hi, hr]
  rfl

theorem children_long :
    children ⟨.composite [.scalar .bytes], 4, longComponent⟩ = some [⟨.scalar .bytes, 4, replicate 32768 7⟩] := by
  simp only [children, length_singleton, takeComponents_long]
  rfl

theorem wellFormed_long {env : Env} : WellFormed env ⟨.composite [.scalar .bytes], 4, longComponent⟩ := by
  apply forall_visits
  · refine ⟨?_, ?_, nofun, nofun⟩
    · rw [length_longComponent]
      norm_num
    rw [children_long]
    rfl
  rintro c ⟨cs, hcs, hc⟩
  rw [children_long] at hcs
  cases hcs
  obtain rfl := mem_singleton.mp hc
  apply visits_scalar
  refine ⟨?_, ?_, fun _ _ => ?_, nofun⟩
  · norm_num
  · unfold children
    split <;> rfl
  · rfl

/-- Python reads it, and the deserializer raises. -/
theorem long_component_raises : WellFormed littleHost ⟨.composite [.scalar .bytes], 4, longComponent⟩ ∧
      fromBinary littleHost (.composite [.scalar .bytes]) (some longComponent) 4 =
        some (.tuple [.bytes (List.replicate 32768 7)]) ∧
      Cython.fromBinary littleHost (.composite [.scalar .bytes]) (some longComponent) 4 = none := by
  refine ⟨wellFormed_long, ?_, ?_⟩
  · have hp : takeComponents [CqlType.scalar .bytes].length longComponent = some [List.replicate 32768 7] :=
      takeComponents_long
    rw [fromBinary_composite littleHost longComponent_ne_nil hp, zip_cons_cons, mapM_cons]
    rfl
  have hn := cython_long littleHost rfl ((findDeserializer_isSome _).mp rfl) children_long mem_cons_self
    (by rw [length_replicate]; norm_num)
  rw [cython_fromBinary, hn]
  rfl

end CqlDriver.Decoding
