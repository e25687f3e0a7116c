import CqlDriver.Types.TypeStrings

/-! # The names of types are read back -/

namespace CqlDriver.Types

open List

/-! ## Scanning what was printed -/

def Stops (rest : List Char) : Prop := ∀ c ∈ rest.head?, isNameChar c = false

variable {rest w : List Char}

variable {word : Name}

theorem scanWord_stops (h : Stops rest) : scanWord word rest = (endWord word (scan rest).1, (scan rest).2) := by
  cases rest with
  | nil => rfl
  | cons c cs =>
    have hc : isNameChar c = false := h c rfl
    simp only [scan, scanWord, hc, Bool.false_eq_true, if_false]
    split_ifs <;> rfl

theorem scanWord_word (hw : ∀ c ∈ w, isNameChar c) : scanWord word (w ++ rest) = scanWord (word ++ w) rest := by
  induction w generalizing word with
  | nil => simp
  | cons c w ih =>
    rw [forall_mem_cons] at hw
    rw [cons_append, scanWord, if_pos hw.1, ih hw.2, append_assoc, singleton_append]

theorem scan_name (hne : w ≠ []) (hw : ∀ c ∈ w, isNameChar c) (hr : Stops rest) :
    scan (w ++ rest) = (.name w :: (scan rest).1, (scan rest).2) := by
  rw [scan, scanWord_word hw, scanWord_stops hr, nil_append, endWord, if_neg hne]

theorem scan_lparen {rest : List Char} : scan ('(' :: rest) = (.lparen :: (scan rest).1, (scan rest).2) := rfl

theorem scan_rparen {rest : List Char} : scan (')' :: rest) = (.rparen :: (scan rest).1, (scan rest).2) := rfl

theorem scan_comma {rest : List Char} : scan (',' :: ' ' :: rest) = scan rest := rfl

/-! ## The registry -/

/-- Each name of the module still stands for a class of its form. -/
def Standard (registry : Registry) : Prop :=
  ∀ e ∈ casstypes, registry e.1 = some (.mk e.1 e.2 [])

theorem standard_initialRegistry : Standard initialRegistry := by
  have hlk : ∀ e ∈ casstypes, casstypes.lookup e.1 = some e.2 := by decide +kernel
  intro e he
  rw [initialRegistry, hlk e he]
  rfl

def qualified (full : Bool) (name : Name) : Name := if full then apacheCassandraTypePrefix ++ name else name

theorem casstypes_names : ∀ full, ∀ e ∈ casstypes, e.1 ≠ [] ∧ '.' ∉ e.1 ∧ '(' ∉ e.1 ∧
    (qualified full e.1).all isNameChar ∧ splitName (qualified full e.1) = [qualified full e.1] ∧
    trimIfStartswith (qualified full e.1) apacheCassandraTypePrefix = e.1 := by
  decide +kernel

theorem casstypes_injective : ∀ e ∈ casstypes, ∀ e' ∈ casstypes, e.1 = e'.1 → e.2 = e'.2 := by
  decide +kernel

variable {cached : UdtCache} {registry registry' : Registry} {name : Name} {numSubtypes : Option Nat}
  {subtypes : List CassType} {full : Bool}

variable {ts : List CassType}

theorem cassParameterizedTypes_eq_map {full : Bool} :
    cassParameterizedTypes full ts = ts.map (cassParameterizedType full) := by
  induction ts with
  | nil => rfl
  | cons t ts ih => rw [cassParameterizedTypes, ih, map_cons]

theorem Standard.register (h : Standard registry) (he : (name, numSubtypes) ∈ casstypes) :
    Standard (register registry (cassParameterizedTypeWith name (cassParameterizedTypes false subtypes) false)
      (.mk name numSubtypes subtypes)) := by
  intro e hmem
  rw [Types.register]
  split
  · exact h e hmem
  rw [cassParameterizedTypes_eq_map, cassParameterizedTypeWith]
  simp only [Bool.false_eq_true, false_and, if_false]
  by_cases hsub : subtypes = []
  · subst hsub
    simp only [map_nil, if_true]
    by_cases hnew : e.1 = name
    · rw [hnew, Function.update_self, casstypes_injective e hmem _ he hnew]
    rw [Function.update_of_ne hnew]
    exact h e hmem
  rw [if_neg (by simpa using hsub), Function.update_of_ne]
  · exact h e hmem
  intro hnew
  obtain ⟨-, -, hp, -⟩ := casstypes_names false e hmem
  rw [hnew] at hp
  simp at hp

/-! ## Trees of types -/

/-- From the simple types by `apply_parameters`, in whatever state the registry is. -/
inductive Built (cached : UdtCache) : CassType → Prop
  | simple {name : Name} : name ∈ simpleTypes → Built cached (.mk name (some 0) [])
  | apply {name : Name} {numSubtypes : Option Nat} {subtypes : List CassType} {names : List (Option Name)}
      {registry registry' : Registry} {cls : CassType} :
      (name, numSubtypes) ∈ parameterizedTypes → (∀ t ∈ subtypes, Built cached t) →
      applyParameters cached registry (.mk name numSubtypes []) subtypes names = .ok (cls, registry') →
      Built cached cls

/-- The tokens are complete and stand for the types. -/
def ReadBack (cached : UdtCache) (s : Name) (ts : List CassType) : Prop :=
  ∃ toks, (∀ rest, Stops rest → scan (s ++ rest) = (toks ++ (scan rest).1, (scan rest).2)) ∧
    ∀ registry, Standard registry → ∃ registry', Standard registry' ∧
      Complete (typeClasses cached) registry toks (ts.map (·, none)) registry'

theorem readBack_name {cached : UdtCache} {full : Bool} (he : (name, numSubtypes) ∈ casstypes) :
    ReadBack cached (qualified full name) [.mk name numSubtypes []] := by
  obtain ⟨hne, -, -, hc, hs, ht⟩ := casstypes_names full _ he
  refine ⟨[.name (qualified full name)], ?_, ?_⟩
  · intro rest hr
    have hne' : qualified full name ≠ [] := by
      unfold qualified
      split <;> simp_all
    exact scan_name hne' (all_eq_true.mp hc) hr
  intro registry hreg
  have hlk : lookupCasstypeSimple registry (qualified full name) = (.mk name numSubtypes [], registry) := by
    simp only [lookupCasstypeSimple, ht, hreg _ he]
  have hnil : Complete (typeClasses cached) registry [] [] registry := .nil registry
  have hn := hnil.name (qualified full name)
  simp only [hs, getLastD_cons, getLastD_nil, typeClasses, hlk] at hn
  exact ⟨registry, hreg, hn⟩

theorem readBack_join (h : ∀ t ∈ ts, ReadBack cached (cassParameterizedType full t) [t]) :
    ReadBack cached (joinNames (ts.map (cassParameterizedType full))) ts := by
  induction ts with
  | nil => exact ⟨[], fun _ _ => rfl, fun registry hreg => ⟨registry, hreg, .nil registry⟩⟩
  | cons t ts ih =>
    rw [forall_mem_cons] at h
    cases ts with
    | nil => exact h.1
    | cons t' ts =>
      obtain ⟨toks, hs, hr⟩ := h.1
      obtain ⟨toks', hs', hr'⟩ := ih h.2
      refine ⟨toks ++ toks', ?_, ?_⟩
      · intro rest hrs
        rw [map_cons, map_cons, joinNames, append_assoc, append_assoc, cons_append,
          cons_append, nil_append, hs _ (by rintro c ⟨⟩; rfl), scan_comma, ← map_cons, hs' _ hrs, append_assoc]
        simp
      intro registry hreg
      obtain ⟨r₁, hr₁, hc⟩ := hr registry hreg
      obtain ⟨r₂, hr₂, hc'⟩ := hr' r₁ hr₁
      exact ⟨r₂, hr₂, hc.append hc'⟩

variable {cls : CassType}

theorem applyParameters_ok {names : List (Option Name)} (he : (name, numSubtypes) ∈ parameterizedTypes)
    (h : applyParameters cached registry (.mk name numSubtypes []) subtypes names = .ok (cls, registry')) :
    cls = .mk name numSubtypes subtypes ∧ ∀ (r : Registry) (names : List (Option Name)),
      applyParameters cached r (.mk name numSubtypes []) subtypes names =
        .ok (.mk name numSubtypes subtypes, register r
          (cassParameterizedTypeWith name (cassParameterizedTypes false subtypes) false)
          (.mk name numSubtypes subtypes)) := by
  have hu : ∀ e ∈ parameterizedTypes, e.1 ≠ "UserType".toList := by decide +kernel
  simp only [applyParameters, if_neg (hu _ he)] at h ⊢
  split at h
  · cases h
  cases h
  rename_i hnum
  exact ⟨rfl, fun r names => by rw [if_neg hnum]⟩

theorem cassParameterizedType_eq (he : (name, numSubtypes) ∈ casstypes) :
    cassParameterizedType full (.mk name numSubtypes subtypes) = if subtypes = [] then qualified full name
      else qualified full name ++ '(' :: joinNames (subtypes.map (cassParameterizedType full)) ++ [')'] := by
  obtain ⟨-, hdot, -⟩ := casstypes_names full _ he
  rw [cassParameterizedType, cassParameterizedTypes_eq_map, cassParameterizedTypeWith]
  simp [hdot, qualified]

theorem mem_casstypes_simple (h : name ∈ simpleTypes) : (name, some 0) ∈ casstypes :=
  mem_append_left _ (mem_append_left _ (mem_map_of_mem h))

theorem mem_casstypes_parameterized (h : (name, numSubtypes) ∈ parameterizedTypes) : (name, numSubtypes) ∈ casstypes :=
  mem_append_left _ (mem_append_right _ h)

theorem Built.readBack (h : Built cached cls) {full : Bool} :
    ReadBack cached (cassParameterizedType full cls) [cls] := by
  induction h with
  | simple hn =>
    have he := mem_casstypes_simple hn
    rw [cassParameterizedType_eq he, if_pos rfl]
    exact readBack_name he
  | @apply name numSubtypes subtypes names r r' cls hp _ hap ih =>
    have he := mem_casstypes_parameterized hp
    obtain ⟨rfl, ha⟩ := applyParameters_ok hp hap
    rw [cassParameterizedType_eq he]
    by_cases hsub : subtypes = []
    · subst hsub
      rw [if_pos rfl]
      exact readBack_name he
    rw [if_neg hsub]
    obtain ⟨toks, hs, hr⟩ := readBack_name he
    obtain ⟨toks', hs', hr'⟩ := readBack_join ih
    refine ⟨toks ++ .lparen :: toks' ++ [.rparen], ?_, ?_⟩
    · intro rest hrs
      rw [append_assoc, append_assoc, cons_append, hs _ (by rintro c ⟨⟩; rfl), scan_lparen, hs' _ (by rintro c ⟨⟩; rfl)]
      simp [scan_rparen]
    intro registry hreg
    obtain ⟨r₁, hr₁, hc⟩ := hr registry hreg
    obtain ⟨r₂, hr₂, hc'⟩ := hr' r₁ hr₁
    have ht : (subtypes.map fun t => (t, (none : Option Name))).map Prod.fst = subtypes := by
      rw [map_map]
      exact map_id _
    have ha' := ha r₂ ((subtypes.map fun t => (t, (none : Option Name))).map Prod.snd)
    nth_rewrite 1 [← ht] at ha'
    have hc : Complete _ registry toks ([] ++ [(CassType.mk name numSubtypes [], none)]) r₁ := hc
    exact ⟨_, hr₂.register he, hc.group hc' ha'⟩

/-- **Round trip.** Either form of a type's name is read back. -/
theorem lookupCasstype_cassParameterizedType (cached : UdtCache) (registry : Registry)
    (hreg : Standard registry) (cls : CassType) (h : Built cached cls) (full : Bool) :
    ∃ registry', lookupCasstype (typeClasses cached) registry (cassParameterizedType full cls) =
      .ok (cls, registry') ∧ Standard registry' := by
  obtain ⟨toks, hs, hr⟩ := h.readBack
  obtain ⟨registry', hreg', hcmp⟩ := hr registry hreg
  have hall : scan (cassParameterizedType full cls) = (toks, []) := by
    simpa [scan, scanWord, endWord] using hs [] (by rintro c ⟨⟩)
  refine ⟨registry', ?_, hreg'⟩
  rw [lookupCasstype_eq hall, hcmp.parse []]
  rfl

theorem lookupCasstype_reversed :
    ∃ registry', lookupCasstype (typeClasses fun _ _ _ _ _ => false) initialRegistry
      "org.apache.cassandra.db.marshal.ReversedType(org.apache.cassandra.db.marshal.UTF8Type)".toList =
        .ok (.mk "ReversedType".toList (some 1) [.mk "UTF8Type".toList (some 0) []], registry') ∧
      Standard registry' := by
  have hutf8 : Built (fun _ _ _ _ _ => false) (.mk "UTF8Type".toList (some 0) []) := .simple (by decide +kernel)
  have ha : ∃ registry', applyParameters (fun _ _ _ _ _ => false) initialRegistry
      (.mk "ReversedType".toList (some 1) []) [.mk "UTF8Type".toList (some 0) []] [] =
        .ok (.mk "ReversedType".toList (some 1) [.mk "UTF8Type".toList (some 0) []], registry') := ⟨_, rfl⟩
  exact lookupCasstype_cassParameterizedType _ _ standard_initialRegistry _
    (.apply (by decide +kernel) (by simpa using hutf8) ha.choose_spec) true

end CqlDriver.Types
