import CqlDriver.Decoding.Reading

/-! # The deserializer that is found -/

namespace CqlDriver.Decoding

open Lib CqlDriver.Types Cython

def Scalar.ownClass : Scalar → DesClass
  | .bytes => .bytes
  | .decimal => .decimal
  | .uuid => .uuid
  | .boolean => .boolean
  | .byte => .byte
  | .ascii => .ascii
  | .float => .float
  | .double => .double
  | .long | .counterColumn => .long
  | .int32 => .int32
  | .integer => .integer
  | .inetAddress => .inetAddress
  | .date => .date
  | .timestamp | .timeUUID => .generic
  | .simpleDate => .simpleDate
  | .short => .short
  | .time => .time
  | .utf8 | .varchar => .utf8

def CqlType.ownClass : CqlType → DesClass
  | .scalar s => s.ownClass
  | .list _ => .list
  | .set _ => .set
  | .map _ _ => .map
  | .tuple _ => .tuple
  | .user _ _ => .user
  | .composite _ => .composite
  | .reversed _ => .reversed
  | .frozen _ => .frozen

/-- The name belongs to another class of deserializers. -/
def UserType.Misnamed (u : UserType) : Prop := ∃ cls, classes.lookup u.name = some cls ∧ cls ≠ .user

theorem lookup_of_paren {name : String} (h : '(' ∈ name.toList) : classes.lookup name = none := by
  have hp : ∀ c ∈ classes, '(' ∉ c.1.toList := by decide
  rw [List.lookup_eq_none_iff]
  intro c hc
  rw [bne_iff_ne]
  rintro rfl
  exact hp c hc h

theorem lookup_withSubtypes (cname : String) {sublist : List String} (h : sublist ≠ []) :
    classes.lookup (CqlType.withSubtypes cname sublist) = none := by
  apply lookup_of_paren
  rw [CqlType.withSubtypes, if_neg h]
  simp

theorem lookup_withTypes (cname : String) {ts : List CqlType} (h : ts ≠ []) :
    classes.lookup (CqlType.withSubtypes cname (CqlType.cassParameterizedTypes ts)) = none := by
  apply lookup_withSubtypes
  cases ts with
  | nil => exact absurd rfl h
  | cons t ts => simp [CqlType.cassParameterizedTypes]

theorem findClass_eq (t : CqlType) (h : ∀ u ts, t = .user u ts → ¬ u.Misnamed) : findClass t = t.ownClass := by
  unfold findClass
  cases t with
  | scalar s => cases s <;> decide
  | list t | set t | map k v | reversed t | frozen t =>
    simp only [CqlType.name]
    rfl
  | tuple ts | composite ts =>
    by_cases hts : ts = []
    · subst hts
      decide
    simp only [CqlType.name, CqlType.cassParameterizedType]
    rw [lookup_withTypes _ hts]
    rfl
  | user u ts =>
    simp only [CqlType.name]
    cases hcls : classes.lookup u.name with
    | none => rfl
    | some cls =>
      by_contra hne
      exact h u ts rfl ⟨cls, hcls, hne⟩

/-! ## Construction -/

def DesClass.isParameterized : DesClass → Bool
  | .list | .set | .map | .tuple | .user | .composite | .reversed | .frozen => true
  | _ => false

def DesClass.Takes (cls : DesClass) (n : Nat) : Prop :=
  match cls with
  | .list | .set | .reversed | .frozen => n = 1
  | .map => 2 ≤ n
  | .tuple | .user | .composite => 1 ≤ n
  | _ => True

inductive Constructible : CqlType → Prop
  | of_subtypes {t : CqlType} (takes : (findClass t).Takes t.subtypes.length)
      (subtypes : (findClass t).isParameterized → ∀ s ∈ t.subtypes, Constructible s) : Constructible t

variable {cls : DesClass} {d : Deserializer} {t : CqlType}

theorem instantiate_parameterized (t : CqlType) {ds : List (Option Deserializer)} (hcls : cls.isParameterized) :
    instantiate cls t ds = some d ↔ ∃ l, ds.mapM id = some l ∧ cls.Takes l.length ∧ d = .mk cls t l := by
  unfold instantiate
  generalize ds.mapM id = l
  revert hcls
  cases cls <;> cases l <;> simp [DesClass.isParameterized, DesClass.Takes, eq_comm]

theorem instantiate_scalar (t : CqlType) (ds : List (Option Deserializer)) (hcls : cls.isParameterized = false) :
    instantiate cls t ds = some (.mk cls t []) := by
  revert hcls
  cases cls <;> simp [DesClass.isParameterized, instantiate]

theorem findDeserializer_parameterized (hcls : (findClass t).isParameterized) : findDeserializer t = some d ↔
      ∃ ds, List.Forall₂ (fun s d => findDeserializer s = some d) t.subtypes ds ∧
        (findClass t).Takes t.subtypes.length ∧ d = .mk (findClass t) t ds := by
  rw [findDeserializer_eq, instantiate_parameterized t hcls]
  simp only [List.mapM_map, mapM_eq_some]
  constructor
  · rintro ⟨ds, hds, ht, rfl⟩
    exact ⟨ds, hds, hds.length_eq ▸ ht, rfl⟩
  rintro ⟨ds, hds, ht, rfl⟩
  exact ⟨ds, hds, hds.length_eq ▸ ht, rfl⟩

theorem findDeserializer_scalar (hcls : (findClass t).isParameterized = false) :
    findDeserializer t = some (.mk (findClass t) t []) := by
  rw [findDeserializer_eq, instantiate_scalar t _ hcls]

theorem takes_of_scalar (hcls : cls.isParameterized = false) (n : Nat) : cls.Takes n := by
  revert hcls
  cases cls <;> simp [DesClass.isParameterized, DesClass.Takes]

theorem findDeserializer_isSome (t : CqlType) : (findDeserializer t).isSome ↔ Constructible t := by
  induction t using CqlType.subtypes_induction with
  | h t ih =>
    cases hcls : (findClass t).isParameterized with
    | false =>
      rw [findDeserializer_scalar hcls]
      exact ⟨fun _ => .of_subtypes (takes_of_scalar hcls _) (fun h => absurd h (by simp [hcls])), fun _ => rfl⟩
    | true =>
      constructor
      · intro h
        obtain ⟨d, hd⟩ := Option.isSome_iff_exists.mp h
        obtain ⟨ds, hds, ht, -⟩ := (findDeserializer_parameterized hcls).mp hd
        have hall := mapM_isSome.mp (Option.isSome_iff_exists.mpr ⟨ds, mapM_eq_some.mpr hds⟩)
        exact .of_subtypes ht fun _ s hs => (ih s hs).mp (hall s hs)
      rintro ⟨ht, hsub⟩
      have hall : ∀ s ∈ t.subtypes, (findDeserializer s).isSome := fun s hs => (ih s hs).mpr (hsub hcls s hs)
      obtain ⟨ds, hds⟩ := Option.isSome_iff_exists.mp (mapM_isSome.mpr hall)
      exact Option.isSome_iff_exists.mpr
        ⟨_, (findDeserializer_parameterized hcls).mpr ⟨ds, mapM_eq_some.mp hds, ht, rfl⟩⟩

end CqlDriver.Decoding
