import CqlDriver.Lib.Dict
import CqlDriver.Metadata.Names

/-! # User types in the exported schema -/

namespace CqlDriver.Metadata

open Lib List

/-! ## `cql_types_from_string` -/

abbrev Name := List Char

def isSeparator (c : Char) : Bool := isSpace c || c = ',' || c = '<' || c = '>'

def frozen : Name := ['f', 'r', 'o', 'z', 'e', 'n']

/-- The first pattern that matches; if none does, the scan ends. -/
def scan : Name → List Name
  | [] => []
  | c :: rest =>
    if frozen <+: c :: rest then scan (rest.drop 5)
    else if isNameChar c then (c :: rest.takeWhile isNameChar) :: scan (rest.dropWhile isNameChar)
    else if isSeparator c then scan rest
    else []
termination_by s => s.length
decreasing_by
  · simp only [length_drop, length_cons]
    omega
  · exact Nat.lt_succ_of_le (length_dropWhile_le isNameChar rest)
  · simp

def cqlTypesFromString (cqlType : Name) : List Name := scan cqlType

/-! ## `user_type_strings` -/

structure UserType where
  fieldTypes : List Name
  /-- What `export_as_string` gives. -/
  exported : String

def UserType.subTypes (t : UserType) : List Name := t.fieldTypes.flatMap cqlTypesFromString

structure Export where
  userTypes : Dict Name UserType
  userTypeStrings : List (Name × UserType) := []

def resolveEach (resolve : Name → Export → Option Export) : List Name → Export → Option Export
  | [], s => some s
  | key :: rest, s =>
    (if key ∈ s.userTypes.keys then resolve key s else some s).bind (resolveEach resolve rest)

/-- `fuel` bounds the depth; `none` may be a `KeyError`. -/
def resolveUserTypes : Nat → Name → Export → Option Export
  | 0, _, _ => none
  | fuel + 1, key, s =>
    (s.userTypes.pop key).bind fun (userType, userTypes) =>
      (resolveEach (resolveUserTypes fuel) userType.subTypes { s with userTypes }).map fun s =>
        { s with userTypeStrings := s.userTypeStrings ++ [(key, userType)] }

def exportOrder (userTypes : Dict Name UserType) : Option (List (Name × UserType)) :=
  (resolveEach (resolveUserTypes userTypes.entries.length) (userTypes.keys.mergeSort fun a b => a ≤ b) { userTypes }).map
    Export.userTypeStrings

def userTypeStrings (userTypes : Dict Name UserType) : Option (List String) :=
  (exportOrder userTypes).map fun order => order.map fun t => t.2.exported

section Order

variable (userTypes : Dict Name UserType)

def DependsOn (a b : Name) : Prop := b ∈ userTypes.keys ∧ ∃ t, (a, t) ∈ userTypes.entries ∧ b ∈ t.subTypes

def Acyclic : Prop := ∀ a, ¬ Relation.TransGen (DependsOn userTypes) a a

/-- Every type comes after those it depends on. -/
def Ordered (order : List (Name × UserType)) : Prop :=
  ∀ before t after, order = before ++ t :: after → ∀ b, DependsOn userTypes t.1 b → b ∈ before.map Prod.fst

/-- What is not written is in the dictionary or being resolved. -/
structure Resolving (open_ : List (Name × UserType)) (s : Export) : Prop where
  perm : (s.userTypeStrings ++ (s.userTypes.entries ++ open_)).Perm userTypes.entries
  ordered : Acyclic userTypes → Ordered userTypes s.userTypeStrings

variable {userTypes} {open_ : List (Name × UserType)}

theorem resolveEach_rule (resolve : Name → Export → Option Export) {P : Export → Prop}
    (keys : List Name) : (∀ key ∈ keys, ∀ s, key ∈ s.userTypes.keys → P s → ∃ s', resolve key s = some s' ∧
      P s' ∧ key ∉ s'.userTypes.keys ∧ s'.userTypes.keys ⊆ s.userTypes.keys) → ∀ s, P s →
      ∃ s', resolveEach resolve keys s = some s' ∧ P s' ∧ (∀ key ∈ keys, key ∉ s'.userTypes.keys) ∧
        s'.userTypes.keys ⊆ s.userTypes.keys := by
  induction keys with
  | nil => exact fun _ s hs => ⟨s, rfl, hs, nofun, Subset.refl _⟩
  | cons key keys ih =>
    intro h s hs
    rw [forall_mem_cons] at h
    obtain ⟨s₁, hst, hs₁, hkey, hsub⟩ : ∃ s₁, (if key ∈ s.userTypes.keys then resolve key s else some s) = some s₁ ∧
        P s₁ ∧ key ∉ s₁.userTypes.keys ∧ s₁.userTypes.keys ⊆ s.userTypes.keys := by
      split
      · exact h.1 s ‹_› hs
      · exact ⟨s, rfl, hs, ‹_›, Subset.refl _⟩
    obtain ⟨s', hr, hs', hk, hsub'⟩ := ih h.2 s₁ hs₁
    refine ⟨s', ?_, hs', forall_mem_cons.mpr ⟨fun hmem => hkey (hsub' hmem), hk⟩, Subset.trans hsub' hsub⟩
    rw [resolveEach, hst, Option.bind_some, hr]

theorem ordered_append {ord : List (Name × UserType)} {t : Name × UserType} (h : Ordered userTypes ord)
    (ht : ∀ b, DependsOn userTypes t.1 b → b ∈ ord.map Prod.fst) : Ordered userTypes (ord ++ [t]) := by
  intro bef u aft heq
  rcases append_eq_append_iff.mp heq with ⟨l, hb, hl⟩ | ⟨l, ho, hl⟩
  · cases l with
    | nil =>
      obtain ⟨rfl, -⟩ := cons.inj hl
      rw [hb, append_nil]
      exact ht
    | cons x l => simp at hl
  cases l with
  | nil =>
    obtain ⟨rfl, -⟩ := cons.inj hl
    rw [ho, append_nil] at ht
    exact ht
  | cons x l =>
    obtain ⟨rfl, -⟩ := cons.inj hl
    exact h bef u l ho

namespace Resolving

variable {s : Export} (hs : Resolving userTypes open_ s) {b : Name}
include hs

theorem keys_subset (hb : b ∈ s.userTypes.keys) : b ∈ userTypes.keys := by
  refine (hs.perm.map Prod.fst).subset ?_
  rw [map_append, map_append]
  exact mem_append_right _ (mem_append_left _ hb)

theorem where_is (hb : b ∈ userTypes.keys) :
    b ∈ s.userTypeStrings.map Prod.fst ∨ b ∈ s.userTypes.keys ∨ b ∈ open_.map Prod.fst := by
  have hb := (hs.perm.map Prod.fst).symm.subset hb
  rwa [map_append, map_append, mem_append, mem_append] at hb

end Resolving

theorem resolveUserTypes_spec (fuel : Nat) : ∀ {open_ : List (Name × UserType)} {key : Name} {s : Export},
    key ∈ s.userTypes.keys → Resolving userTypes open_ s → s.userTypes.entries.length ≤ fuel →
    (∀ t ∈ open_, Relation.TransGen (DependsOn userTypes) t.1 key) → ∃ s', resolveUserTypes fuel key s = some s' ∧
        (Resolving userTypes open_ s' ∧ s'.userTypes.entries.length ≤ fuel) ∧ key ∉ s'.userTypes.keys ∧
        s'.userTypes.keys ⊆ s.userTypes.keys := by
  induction fuel with
  | zero =>
    intro open_ key s hkey _ hf
    rw [Dict.keys, length_eq_zero_iff.mp (Nat.le_zero.mp hf)] at hkey
    cases hkey
  | succ fuel ih =>
    intro open_ key s hkey hs hf ho
    obtain ⟨t, ht⟩ := Option.isSome_iff_exists.mp ((Dict.get?_isSome _ _).mpr hkey)
    have he := Dict.entries_of_get? ht
    have hlen := he.length_eq
    rw [length_cons] at hlen
    have hmem : (key, t) ∈ userTypes.entries := by
      have hold := (Dict.get?_eq_some _ _ _).mp ht
      exact hs.perm.subset (mem_append_right _ (mem_append_left _ hold))
    have hst : Resolving userTypes ((key, t) :: open_) { s with userTypes := s.userTypes.erase key } := by
      refine ⟨?_, hs.ordered⟩
      refine Perm.trans (Perm.append_left _ ?_) hs.perm
      exact perm_middle.trans (he.symm.append_right open_)
    have hr : ∀ sub, DependsOn userTypes key sub → ∀ u ∈ (key, t) :: open_,
        Relation.TransGen (DependsOn userTypes) u.1 sub := by
      intro sub hsub
      rw [forall_mem_cons]
      exact ⟨.single hsub, fun u hu => (ho u hu).tail hsub⟩
    obtain ⟨s', hsub, ⟨hs', hf'⟩, hd, hl⟩ := resolveEach_rule _
      (P := fun s => Resolving userTypes _ s ∧ s.userTypes.entries.length ≤ fuel) t.subTypes
      (fun sub hsub s hsb hs => ih hsb hs.1 hs.2 (hr sub ⟨hs.1.keys_subset hsb, t, hmem, hsub⟩)) _
      ⟨hst, by simp only; omega⟩
    have hpop : s.userTypes.pop key = some (t, s.userTypes.erase key) := by
      rw [Dict.pop, ht, Option.map_some]
    refine ⟨{ s' with userTypeStrings := s'.userTypeStrings ++ [(key, t)] }, ?_, ⟨⟨?_, fun ha => ?_⟩, ?_⟩, ?_, ?_⟩
    · rw [resolveUserTypes, hpop, Option.bind_some]
      exact Option.map_eq_some_iff.mpr ⟨s', hsub, rfl⟩
    · refine Perm.trans ?_ hs'.perm
      rw [append_assoc, singleton_append]
      exact Perm.append_left _ perm_middle.symm
    · refine ordered_append (hs'.ordered ha) ?_
      rintro b ⟨hb, u, hu, hbu⟩
      obtain rfl := Option.some.inj (((Dict.get?_eq_some _ _ _).mpr hu).symm.trans ((Dict.get?_eq_some _ _ _).mpr hmem))
      rcases hs'.where_is hb with hb' | hb' | hb'
      · exact hb'
      · exact absurd hb' (hd b hbu)
      -- a type being resolved would depend on itself
      obtain ⟨v, hv, rfl⟩ := mem_map.mp hb'
      exact absurd (hr v.1 ⟨hb, u, hu, hbu⟩ v hv) (ha v.1)
    · exact Nat.le_succ_of_le hf'
    · exact fun hmem => (Dict.mem_keys_erase _ _ _).mp (hl hmem) |>.1 rfl
    · exact fun b hb => ((Dict.mem_keys_erase _ _ _).mp (hl hb)).2

/-- **User types in the order of their dependencies**, each once. -/
theorem userTypeStrings_dependency_order (userTypes : Dict Name UserType) :
    ∃ order, exportOrder userTypes = some order ∧
      userTypeStrings userTypes = some (order.map fun t => t.2.exported) ∧ order.Perm userTypes.entries ∧
      (Acyclic userTypes → Ordered userTypes order) := by
  have hst : Resolving userTypes [] { userTypes } := by
    refine ⟨?_, fun _ before t after h => ?_⟩
    · rw [append_nil]
      exact Perm.refl _
    · cases before <;> cases h
  obtain ⟨s, hsm, ⟨hs, -⟩, hd, hsub⟩ := resolveEach_rule _
    (P := fun s => Resolving userTypes [] s ∧ s.userTypes.entries.length ≤ userTypes.entries.length)
    (userTypes.keys.mergeSort fun a b => a ≤ b)
    (fun key _ s hkey hs => resolveUserTypes_spec _ hkey hs.1 hs.2 nofun) { userTypes } ⟨hst, Nat.le_refl _⟩
  have he : s.userTypes.entries = [] := by
    rw [eq_nil_iff_forall_not_mem]
    intro p hp
    have hkey : p.1 ∈ s.userTypes.keys := mem_map_of_mem hp
    exact hd p.1 (mem_mergeSort.mpr (hsub hkey)) hkey
  have ho : exportOrder userTypes = some s.userTypeStrings := by
    rw [exportOrder, hsm, Option.map_some]
  refine ⟨s.userTypeStrings, ho, ?_, ?_, hs.ordered⟩
  · rw [userTypeStrings, ho, Option.map_some]
  · have hpr := hs.perm
    rwa [he, append_nil, append_nil] at hpr

end Order

end CqlDriver.Metadata
