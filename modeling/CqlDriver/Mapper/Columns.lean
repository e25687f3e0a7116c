import CqlDriver.Lib.Dict
import Mathlib.Data.List.Infix

/-! # The columns of a mapped model -/

namespace CqlDriver.Mapper

open Lib List Dict

variable {α : Type}

inductive Kind
  | scalar
  | set
  | list
  | map
  deriving DecidableEq

/-- A set is given by its elements, and a tuple is a list. -/
inductive Value (α : Type)
  | none
  | scalar (a : α)
  | set (elems : List α)
  | list (elems : List α)
  | map (entries : Dict α (Option α))
  /-- What `validate` refuses, such as a list with `None`. -/
  | other

namespace Value

def fits (kind : Kind) : Value α → Bool
  | .none => true
  | .scalar _ => kind = .scalar
  | .set _ => kind = .set
  | .list _ => kind = .list
  | .map _ => kind = .map
  | .other => false

def isNone : Value α → Bool
  | .none => true
  | _ => false

theorem eq_none_of_isNone {v : Value α} (h : v.isNone) : v = .none := by
  cases v <;> first | rfl | cases h

/-- `not value`, for a value that is not a scalar. -/
def isEmpty : Value α → Bool
  | .none => true
  | .scalar _ | .other => false
  | .set elems | .list elems => elems.isEmpty
  | .map d => d.entries.isEmpty

/-! An empty collection and `None` are the same to the database. -/

def asScalar : Value α → Option α
  | .scalar a => some a
  | _ => .none

def asSet : Value α → List α
  | .set elems => elems
  | _ => []

def asList : Value α → List α
  | .list elems => elems
  | _ => []

def asMap : Value α → Dict α (Option α)
  | .map d => d
  | _ => empty

variable [DecidableEq α]

def same : Value α → Value α → Bool
  | .none, .none => true
  | .scalar a, .scalar b => a = b
  | .set elems, .set elems' => elems.all (· ∈ elems') && elems'.all (· ∈ elems)
  | .list elems, .list elems' => elems = elems'
  | .map d, .map d' => (d.keys ++ d'.keys).all fun k => d.get? k = d'.get? k
  | _, _ => false

/-- `==`, but an empty collection is the same as `None`. -/
def agrees (v w : Value α) : Bool := (v.isEmpty && w.isEmpty) || v.same w

def complete : Value α → Bool
  | .map d => d.values.all Option.isSome
  | _ => true

/-- The value keeps nothing of the other one. -/
def unlike : Value α → Value α → Bool
  | .scalar a, .scalar b => a ≠ b
  | .set elems, .set elems' => elems.all (· ∉ elems')
  | .list elems, .list elems' => ¬ elems' <:+: elems
  | .map d, .map d' => d.entries.all fun e => d'.get? e.1 ≠ some e.2
  | _, _ => true

end Value

/-! ## Values of one kind -/

section Agree

variable [DecidableEq α] {kind : Kind} {u v w : Value α}

def Kind.Agree : Kind → Value α → Value α → Prop
  | .scalar, v, w => v.asScalar = w.asScalar
  | .set, v, w => ∀ x, x ∈ v.asSet ↔ x ∈ w.asSet
  | .list, v, w => v.asList = w.asList
  | .map, v, w => ∀ k, v.asMap.get? k = w.asMap.get? k

theorem agree_refl (kind : Kind) (v : Value α) : kind.Agree v v := by
  cases kind <;> simp [Kind.Agree]

theorem Kind.Agree.symm (h : kind.Agree v w) : kind.Agree w v := by
  cases kind with
  | scalar | list => exact Eq.symm h
  | set => exact fun x => (h x).symm
  | map => exact fun k => (h k).symm

theorem Kind.Agree.trans (h : kind.Agree u v) (h' : kind.Agree v w) : kind.Agree u w := by
  cases kind with
  | scalar | list => exact Eq.trans h h'
  | set => exact fun x => (h x).trans (h' x)
  | map => exact fun k => (h k).trans (h' k)

theorem same_set (elems elems' : List α) :
    (Value.set elems).same (.set elems') ↔ ∀ x, x ∈ elems ↔ x ∈ elems' := by
  simp only [Value.same, Bool.and_eq_true, all_eq_true, decide_eq_true_eq]
  exact ⟨fun h x => ⟨h.1 x, h.2 x⟩, fun h => ⟨fun x => (h x).mp, fun x => (h x).mpr⟩⟩

theorem same_map (d d' : Dict α (Option α)) : (Value.map d).same (.map d') ↔ ∀ k, d.get? k = d'.get? k := by
  simp only [Value.same, all_eq_true, mem_append, decide_eq_true_eq]
  constructor
  · intro h k
    by_cases hk : k ∈ d.keys ∨ k ∈ d'.keys
    · exact h k hk
    rw [not_or] at hk
    rw [(d.get?_eq_none k).mpr hk.1, (d'.get?_eq_none k).mpr hk.2]
  · exact fun h k _ => h k

theorem same_refl (hf : v.fits kind) : v.same v := by
  cases v with
  | none => rfl
  | scalar a | list elems => simp [Value.same]
  | set elems => simp [same_set]
  | map d => simp [same_map]
  | other => cases hf

theorem agree_of_same (h : v.same w) (kind : Kind) : kind.Agree v w := by
  cases v <;> cases w <;> try cases h
  · exact agree_refl kind _
  · rw [of_decide_eq_true h]
    exact agree_refl kind _
  · rw [same_set] at h
    cases kind <;> simp [Kind.Agree, Value.asScalar, Value.asSet, Value.asList, Value.asMap, h]
  · rw [of_decide_eq_true h]
    exact agree_refl kind _
  rw [same_map] at h
  cases kind <;> simp [Kind.Agree, Value.asScalar, Value.asSet, Value.asList, Value.asMap, h]

variable {d : Dict α (Option α)}

theorem get?_of_isEmpty (h : d.entries.isEmpty) (k : α) : d.get? k = none := by
  rw [Dict.get?, isEmpty_iff.mp h]
  rfl

theorem isEmpty_of_get? (h : ∀ k, d.get? k = none) : d.entries.isEmpty := by
  rw [List.isEmpty_iff, eq_nil_iff_forall_not_mem]
  rintro ⟨k, a⟩ hmem
  have := (d.get?_eq_some k a).mpr hmem
  rw [h] at this
  cases this

theorem isEmpty_iff_agree (hf : v.fits kind) : v.isEmpty ↔ kind.Agree v .none := by
  cases v with
  | none => exact ⟨fun _ => agree_refl kind _, fun _ => rfl⟩
  | scalar a =>
    obtain rfl : kind = .scalar := of_decide_eq_true hf
    simp [Value.isEmpty, Kind.Agree, Value.asScalar]
  | set elems =>
    obtain rfl : kind = .set := of_decide_eq_true hf
    simp [Value.isEmpty, Kind.Agree, Value.asSet, eq_nil_iff_forall_not_mem]
  | list elems =>
    obtain rfl : kind = .list := of_decide_eq_true hf
    simp [Value.isEmpty, Kind.Agree, Value.asList]
  | map d =>
    obtain rfl : kind = .map := of_decide_eq_true hf
    exact ⟨get?_of_isEmpty, isEmpty_of_get?⟩
  | other => cases hf

variable (hv : v.fits kind = true)
include hv

variable (hw : w.fits kind = true)
include hw

theorem same_of_agree (hvn : v.isNone = false) (hwn : w.isNone = false) (h : kind.Agree v w) : v.same w := by
  cases kind <;> cases v <;> cases w <;> simp_all [Value.fits, Value.isNone]
  · simpa [Value.same, Kind.Agree, Value.asScalar] using h
  · simpa [same_set, Kind.Agree, Value.asSet] using h
  · simpa [Value.same, Kind.Agree, Value.asList] using h
  · simpa [same_map, Kind.Agree, Value.asMap] using h

theorem agrees_of_agree (h : kind.Agree v w) : v.agrees w := by
  unfold Value.agrees
  by_cases hempty : v.isEmpty
  · have hw' : w.isEmpty :=
      (isEmpty_iff_agree hw).mpr (h.symm.trans ((isEmpty_iff_agree hv).mp hempty))
    simp [hempty, hw']
  have hw' : ¬ w.isEmpty :=
    fun he => hempty ((isEmpty_iff_agree hv).mpr (h.trans ((isEmpty_iff_agree hw).mp he)))
  have hs : v.same w := by
    apply same_of_agree hv hw _ _ h
    · cases v <;> simp_all [Value.isEmpty, Value.isNone]
    · cases w <;> simp_all [Value.isEmpty, Value.isNone]
  simp [hs]

theorem isEmpty_of_agree_unlike (h : kind.Agree v w) (hunl : v.unlike w) : v.isEmpty := by
  cases kind <;> cases v <;> cases w <;> simp_all [Value.fits, Value.isEmpty, Value.unlike, Kind.Agree]
  · simp [Value.asScalar] at h
  · exact absurd (Option.some.inj h) hunl
  · exact eq_nil_iff_forall_not_mem.mpr fun x hx => by simpa [Value.asSet] using (h x).mp hx
  · exact eq_nil_iff_forall_not_mem.mpr fun x hx => hunl x hx ((h x).mp hx)
  · exact h
  · rename_i elems elems'
    obtain rfl : elems = elems' := h
    exact absurd (infix_refl _) hunl
  · exact isEmpty_iff.mp (isEmpty_of_get? h)
  rename_i d d'
  refine eq_nil_iff_forall_not_mem.mpr fun e he => hunl e.1 e.2 he ?_
  exact (h e.1).symm.trans ((d.get?_eq_some e.1 e.2).mpr he)

end Agree

/-! ## Columns -/

/-- A check that may convert; twice is once. -/
structure Validator (β : Type) where
  apply : β → Option β
  idem : ∀ {a b}, apply a = some b → apply b = some b

def takesAll {β : Type} : Validator β := ⟨some, fun _ => rfl⟩

structure Column (α : Type) where
  kind : Kind
  primaryKey : Bool := false
  default : Value α := .none
  validate : Value α → Option (Value α)
  /-- What is stored for a scalar, an element or a key. -/
  toDb : α → α
  /-- What is stored for a value in a map. -/
  mappedToDb : α → α
  validate_fits : ∀ {v w}, validate v = some w → w.fits kind = true
  validate_idem : ∀ {v w}, validate v = some w → validate w = some w
  validate_none : ∀ {w}, validate .none = some w → w = .none
  validate_empty : ∀ {v w}, v.isEmpty = true → validate v = some w → w.isEmpty = true

namespace Column

variable (c : Column α)

def valIsNull (v : Value α) : Bool := if c.kind = .scalar then v.isNone else v.isEmpty

/-- `to_python`, which makes an empty collection of `None`. -/
def toPython : Value α → Value α
  | .none =>
    match c.kind with
    | .scalar => .none
    | .set => .set []
    | .list => .list []
    | .map => .map empty
  | v => v

def exact [DecidableEq α] : Value α → Bool
  | .scalar a => c.toDb a = a
  | .set elems | .list elems => elems.all fun a => c.toDb a = a
  | .map d => d.entries.all fun e => c.toDb e.1 = e.1 && e.2.all fun a => c.mappedToDb a = a
  | _ => true

def toDatabase [DecidableEq α] : Value α → Value α
  | .scalar a => .scalar (c.toDb a)
  | .set elems => .set (elems.map c.toDb)
  | .list elems => .list (elems.map c.toDb)
  | .map d => .map (empty.setAll (d.entries.map fun e => (c.toDb e.1, e.2.map c.mappedToDb)))
  | v => v

variable {c} [DecidableEq α] {v w : Value α}

theorem toDatabase_of_exact (h : c.exact v) : c.toDatabase v = v := by
  cases v with
  | scalar a => exact congrArg Value.scalar (of_decide_eq_true h)
  | set elems | list elems =>
    simp only [exact, all_eq_true, decide_eq_true_eq] at h
    simp [toDatabase, map_congr_left h]
  | map d =>
    simp only [exact, all_eq_true, Bool.and_eq_true] at h
    have hen : (d.entries.map fun e => (c.toDb e.1, e.2.map c.mappedToDb)) = d.entries := by
      calc
        _ = d.entries.map id := by
          refine map_congr_left fun e he => ?_
          obtain ⟨hkey, hv⟩ := h e he
          obtain ⟨k, a⟩ := e
          cases a <;> simp_all
        _ = d.entries := map_id _
    unfold toDatabase
    dsimp only
    rw [hen, Dict.setAll_entries]
  | none => rfl
  | other => rfl

theorem fits_toDatabase (h : v.fits c.kind) : (c.toDatabase v).fits c.kind := by
  cases v <;> exact h

theorem mem_keys_toDatabase (c : Column α) (d : Dict α (Option α)) (k : α) :
    k ∈ (c.toDatabase (.map d)).asMap.keys ↔ ∃ k' ∈ d.keys, c.toDb k' = k := by
  unfold toDatabase Value.asMap Dict.keys
  rw [← Dict.keys, mem_keys_setAll]
  simp

omit [DecidableEq α] in
theorem fits_toPython (h : v.fits c.kind) : (c.toPython v).fits c.kind := by
  cases v with
  | none =>
    unfold Column.toPython
    cases c.kind <;> simp [Value.fits]
  | _ => exact h

theorem agree_toPython (c : Column α) (v : Value α) : c.kind.Agree v (c.toPython v) := by
  cases v with
  | none =>
    unfold Column.toPython
    cases c.kind <;> simp [Kind.Agree, Value.asSet, Value.asList, Value.asMap]
  | _ => exact agree_refl ..

theorem exact_toPython (h : c.exact v) : c.exact (c.toPython v) := by
  cases v with
  | none =>
    unfold Column.toPython
    cases c.kind <;> simp [Column.exact, empty]
  | _ => exact h

omit [DecidableEq α] in
@[simp] theorem valIsNull_none : c.valIsNull .none := by
  unfold valIsNull
  split <;> rfl

omit [DecidableEq α] in
theorem valIsNull_iff (hf : v.fits c.kind) : c.valIsNull v = v.isEmpty := by
  unfold valIsNull
  split
  · cases v <;> simp_all [Value.fits, Value.isNone, Value.isEmpty]
  · rfl

end Column

/-! ## The classes of columns -/

namespace Validator

variable {β γ : Type}

def pair (first : Validator β) (second : Validator γ) : Validator (β × γ) where
  apply p := (first.apply p.1).bind fun a => (second.apply p.2).map fun b => (a, b)
  idem := by
    rintro ⟨a, b⟩ ⟨a', b'⟩ h
    simp only [Option.bind_eq_some_iff, Option.map_eq_some_iff, Prod.mk.injEq] at h
    obtain ⟨_, ha, _, hb, rfl, rfl⟩ := h
    simp [first.idem ha, second.idem hb]

variable (check : Validator β) {l l' : List β}

theorem mapM_self (h : ∀ a ∈ l, check.apply a = some a) : l.mapM check.apply = some l := by
  induction l with
  | nil => rfl
  | cons a rest ih =>
    have hr := ih fun b hb => h b (mem_cons_of_mem _ hb)
    simp [h a mem_cons_self, hr]

theorem of_mapM (h : l.mapM check.apply = some l') : l'.length = l.length ∧ ∀ a ∈ l', check.apply a = some a := by
  induction l generalizing l' with
  | nil =>
    obtain rfl : [] = l' := by simpa using h
    simp
  | cons a rest ih =>
    simp only [mapM_cons, Option.bind_eq_bind, Option.pure_def, Option.bind_eq_some_iff, Option.some.injEq] at h
    obtain ⟨b, hb, rest', hr, rfl⟩ := h
    obtain ⟨hlen, hall⟩ := ih hr
    refine ⟨by simp [hlen], ?_⟩
    rw [forall_mem_cons]
    exact ⟨check.idem hb, hall⟩

end Validator

def maxElements : Nat := 65535

def validateElements {β : Type} (check : Validator β) (elems : List β) : Option (List β) :=
  if maxElements < elems.length then none else elems.mapM check.apply

variable {β : Type} {check : Validator β} {elems elems' : List β}

theorem validateElements_self (hlen : elems.length ≤ maxElements) (h : ∀ a ∈ elems, check.apply a = some a) :
    validateElements check elems = some elems := by
  rw [validateElements, if_neg (Nat.not_lt.mpr hlen), check.mapM_self h]

section

variable (h : validateElements check elems = some elems')
include h

theorem validateElements_spec :
    elems'.length ≤ maxElements ∧ elems'.length = elems.length ∧ ∀ a ∈ elems', check.apply a = some a := by
  unfold validateElements at h
  split at h
  · cases h
  obtain ⟨hlen, hall⟩ := check.of_mapM h
  exact ⟨by omega, hlen, hall⟩

theorem validateElements_idem : validateElements check elems' = some elems' := by
  obtain ⟨hlen, -, hall⟩ := validateElements_spec h
  exact validateElements_self hlen hall

theorem isEmpty_of_validateElements (hempty : elems.isEmpty) : elems'.isEmpty := by
  obtain ⟨-, hlen, -⟩ := validateElements_spec h
  rw [isEmpty_iff_length_eq_zero] at hempty ⊢
  omega

end

namespace Column

structure Cleans (kind : Kind) (clean : Value α → Option (Value α)) : Prop where
  shape : ∀ {v w}, clean v = some w → w.fits kind = true ∧ w.isNone = false
  idem : ∀ {v w}, clean v = some w → clean w = some w
  empty : ∀ {v w}, v.isEmpty = true → clean v = some w → w.isEmpty = true

/-- `Column.validate` looks for a `None` first. -/
def orNone (required : Bool) (clean : Value α → Option (Value α)) (v : Value α) : Option (Value α) :=
  if v.isNone then if required then none else some .none else clean v

variable {clean : Value α → Option (Value α)} {required : Bool} {w : Value α}

theorem orNone_none (h : orNone required clean .none = some w) : required = false ∧ w = .none := by
  cases required with
  | true => cases h
  | false => exact ⟨rfl, (Option.some.inj h).symm⟩

theorem orNone_spec {v : Value α} (h : orNone required clean v = some w) :
    (required = false ∧ w = .none) ∨ clean v = some w := by
  cases v with
  | none => exact .inl (orNone_none h)
  | _ => exact .inr h

def ofClass {kind : Kind} {clean : Value α → Option (Value α)} (hclean : Cleans kind clean) (required : Bool)
    (default : Value α) (toDb mappedToDb : α → α) : Column α where
  kind
  default
  validate := orNone required clean
  toDb
  mappedToDb
  validate_fits := by
    intro v w h
    rcases orNone_spec h with ⟨-, rfl⟩ | h
    · rfl
    · exact (hclean.shape h).1
  validate_idem := by
    intro v w h
    rcases orNone_spec h with ⟨rfl, rfl⟩ | h
    · rfl
    · simp [orNone, (hclean.shape h).2, hclean.idem h]
  validate_none := fun h => (orNone_none h).2
  validate_empty := by
    intro v w hempty h
    rcases orNone_spec h with ⟨-, rfl⟩ | h
    · rfl
    · exact hclean.empty hempty h

def cleanScalar (check : Validator α) : Value α → Option (Value α)
  | .scalar a => (check.apply a).map .scalar
  | _ => none

theorem cleans_scalar (check : Validator α) : Cleans .scalar (cleanScalar check) := by
  have hs : ∀ {v w}, cleanScalar check v = some w → ∃ a b, v = .scalar a ∧ w = .scalar b ∧ check.apply a = some b := by
    intro v w h
    cases v <;> simp only [cleanScalar, Option.map_eq_some_iff, reduceCtorEq] at h
    obtain ⟨b, hb, rfl⟩ := h
    exact ⟨_, b, rfl, rfl, hb⟩
  constructor
  · intro v w h
    obtain ⟨a, b, rfl, rfl, -⟩ := hs h
    exact ⟨rfl, rfl⟩
  · intro v w h
    obtain ⟨a, b, rfl, rfl, hab⟩ := hs h
    simp [cleanScalar, check.idem hab]
  intro v w hempty h
  obtain ⟨a, b, rfl, rfl, -⟩ := hs h
  cases hempty

def cleanSet (strict : Bool) (check : Validator α) : Value α → Option (Value α)
  | .set elems => (validateElements check elems).map .set
  | .list elems => if strict then none else (validateElements check elems).map .set
  | _ => none

theorem cleans_set (strict : Bool) (check : Validator α) : Cleans .set (cleanSet strict check) := by
  have hs : ∀ {v w}, cleanSet strict check v = some w → ∃ elems elems', (v = .set elems ∨ v = .list elems) ∧
      w = .set elems' ∧ validateElements check elems = some elems' := by
    intro v w h
    cases v <;> simp only [cleanSet, Option.map_eq_some_iff, reduceCtorEq] at h
    · obtain ⟨elems', he, rfl⟩ := h
      exact ⟨_, elems', .inl rfl, rfl, he⟩
    split at h
    · cases h
    obtain ⟨elems', he, rfl⟩ := Option.map_eq_some_iff.mp h
    exact ⟨_, elems', .inr rfl, rfl, he⟩
  constructor
  · intro v w h
    obtain ⟨_, _, -, rfl, -⟩ := hs h
    exact ⟨rfl, rfl⟩
  · intro v w h
    obtain ⟨_, _, -, rfl, he⟩ := hs h
    simp [cleanSet, validateElements_idem he]
  intro v w hempty h
  obtain ⟨_, _, rfl | rfl, rfl, he⟩ := hs h <;> exact isEmpty_of_validateElements he hempty

def cleanList (check : Validator α) : Value α → Option (Value α)
  | .set elems | .list elems => (validateElements check elems).map .list
  | _ => none

theorem cleans_list (check : Validator α) : Cleans .list (cleanList check) := by
  have hs : ∀ {v w}, cleanList check v = some w → ∃ elems elems', (v = .set elems ∨ v = .list elems) ∧
      w = .list elems' ∧ validateElements check elems = some elems' := by
    intro v w h
    cases v <;> simp only [cleanList, Option.map_eq_some_iff, reduceCtorEq] at h
    · obtain ⟨elems', he, rfl⟩ := h
      exact ⟨_, elems', .inl rfl, rfl, he⟩
    obtain ⟨elems', he, rfl⟩ := h
    exact ⟨_, elems', .inr rfl, rfl, he⟩
  constructor
  · intro v w h
    obtain ⟨_, _, -, rfl, -⟩ := hs h
    exact ⟨rfl, rfl⟩
  · intro v w h
    obtain ⟨_, _, -, rfl, he⟩ := hs h
    simp [cleanList, validateElements_idem he]
  intro v w hempty h
  obtain ⟨_, _, rfl | rfl, rfl, he⟩ := hs h <;> exact isEmpty_of_validateElements he hempty

variable [DecidableEq α]

/-- A value may be `None` if its class lets it. -/
def cleanMap (keys : Validator α) (values : Validator (Option α)) : Value α → Option (Value α)
  | .map d => (validateElements (keys.pair values) d.entries).map fun entries => .map (Dict.empty.setAll entries)
  | _ => none

theorem cleans_map (keys : Validator α) (vs : Validator (Option α)) : Cleans .map (cleanMap keys vs) := by
  have hsp : ∀ {v w}, cleanMap keys vs v = some w → ∃ d entries, v = .map d ∧
      w = .map (Dict.empty.setAll entries) ∧ validateElements (keys.pair vs) d.entries = some entries := by
    intro v w h
    cases v <;> simp only [cleanMap, Option.map_eq_some_iff, reduceCtorEq] at h
    obtain ⟨entries, hv, rfl⟩ := h
    exact ⟨_, entries, rfl, rfl, hv⟩
  constructor
  · intro v w h
    obtain ⟨_, _, -, rfl, -⟩ := hsp h
    exact ⟨rfl, rfl⟩
  · intro v w h
    obtain ⟨d, entries, -, rfl, hv⟩ := hsp h
    obtain ⟨hmax, -, hall⟩ := validateElements_spec hv
    -- two keys may have become one
    have hle : ((empty : Dict α (Option α)).setAll entries).entries.length ≤ entries.length := by
      have := length_setAll_le entries (empty : Dict α _)
      simpa [empty] using this
    have hs := validateElements_self (Nat.le_trans hle hmax) fun e he =>
      hall e ((mem_setAll entries he).resolve_left not_mem_nil)
    simp [cleanMap, hs, setAll_entries]
  intro v w hempty h
  obtain ⟨d, entries, rfl, rfl, hv⟩ := hsp h
  have hen := isEmpty_of_validateElements hv hempty
  rw [isEmpty_iff.mp hen]
  rfl

theorem any_scalar : Cleans .scalar (cleanScalar (takesAll : Validator Nat)) := cleans_scalar _

theorem any_set : Cleans .set (cleanSet true (takesAll : Validator Nat)) := cleans_set ..

theorem any_list : Cleans .list (cleanList (takesAll : Validator Nat)) := cleans_list _

theorem any_map : Cleans .map (cleanMap (takesAll : Validator Nat) takesAll) := cleans_map ..

end Column

/-! ## Value managers -/

structure ValueManager (α : Type) where
  value : Value α
  previousValue : Value α
  explicit : Bool := false

namespace ValueManager

variable (c : Column α) (m : ValueManager α)

def deleted : Bool := c.valIsNull m.value && (m.explicit || !c.valIsNull m.previousValue)

def setval (v : Value α) : ValueManager α := { m with value := v, explicit := true }

def delval : ValueManager α := { m with value := .none }

def resetPreviousValue : ValueManager α := { m with previousValue := m.value }

variable [DecidableEq α]

def changed : Bool :=
  if m.explicit then !m.value.same m.previousValue
  else if c.kind = .scalar then false
  else if c.valIsNull c.default then !c.valIsNull m.value && !m.value.same m.previousValue
  else if m.previousValue.isNone then !m.value.same c.default
  else !m.value.same m.previousValue

end ValueManager

end CqlDriver.Mapper
