import CqlDriver.Mapper.QuerySet

/-! # Updates of a row that has not been loaded -/

namespace CqlDriver.Mapper

open Lib List Column Dict MappedModel

variable {κ α : Type} [DecidableEq κ] [LinearOrder α]

/-- An entry of a map whose value is `None` is not there. -/
def Kind.Holds : Kind → Value α → Value α → Prop
  | .map, cell, v => ∀ k, cell.asMap.get? k = entryOf v.asMap k
  | kind, cell, v => kind.Agree cell v

def Value.isBlank : Value α → Bool
  | .map d => d.values.all Option.isNone
  | v => v.isEmpty

theorem entryOf_eq_none_iff {d : Dict α (Option α)} :
    (∀ k, entryOf d k = none) ↔ d.values.all Option.isNone := by
  simp only [all_eq_true, entryOf, Option.map_eq_none_iff]
  constructor
  · intro h v hv
    obtain ⟨⟨k, v'⟩, hmem, rfl⟩ := mem_map.mp hv
    have := h k
    rw [(d.get?_eq_some k v').mpr hmem] at this
    exact Option.isNone_iff_eq_none.mpr this
  intro h k
  cases hget : d.get? k with
  | none => rfl
  | some v => exact Option.isNone_iff_eq_none.mp (h v (mem_map_of_mem ((d.get?_eq_some k v).mp hget)))

variable {cell v : Value α} {kind : Kind} {c : Column α}

theorem holds_iff_agree (h : kind ≠ .map) : kind.Holds cell v ↔ kind.Agree cell v := by
  cases kind <;> first | exact Iff.rfl | exact absurd rfl h

theorem holds_none_iff (hf : cell.fits kind) : kind.Holds cell .none ↔ cell.isEmpty := by
  rw [isEmpty_iff_agree hf]
  cases kind <;> exact Iff.rfl

theorem none_holds_iff (hf : v.fits kind) : kind.Holds .none v ↔ v.isBlank := by
  cases v with
  | map d =>
    obtain rfl : kind = .map := of_decide_eq_true hf
    rw [Value.isBlank, ← entryOf_eq_none_iff]
    exact ⟨fun h k => (h k).symm, fun h k => (h k).symm⟩
  | _ =>
    refine Iff.trans ?_ (isEmpty_iff_agree hf).symm
    by_cases hmap : kind = .map
    · simp [hmap, Kind.Holds, Kind.Agree, Value.asMap, entryOf]
    · exact (holds_iff_agree hmap).trans ⟨Kind.Agree.symm, Kind.Agree.symm⟩

/-! ## Plain values -/

theorem holds_addUpdate_iff (hf : v.fits c.kind) (hn : v.isNone = false) (cell : Value α) :
    c.kind.Holds (applyAll (c.addUpdate v none .none) cell) (c.toDatabase v) ↔
      (c.kind = .map → (c.toDatabase v).asMap.keys ≠ [] → ∀ k ∈ cell.asMap.keys, k ∈ (c.toDatabase v).asMap.keys) := by
  cases v with
  | none => cases hn
  | other => cases hf
  | scalar a =>
    have hkn : c.kind = .scalar := of_decide_eq_true hf
    rw [addUpdate_scalar hkn, hkn]
    exact iff_of_true rfl nofun
  | set xs =>
    have hkn : c.kind = .set := of_decide_eq_true hf
    rw [addUpdate_set_none hkn, hkn]
    exact iff_of_true (fun _ => Iff.rfl) nofun
  | list xs =>
    have hkn : c.kind = .list := of_decide_eq_true hf
    rw [addUpdate_list_none hkn, hkn]
    exact iff_of_true rfl nofun
  | map d =>
    have hkn : c.kind = .map := of_decide_eq_true hf
    simp only [hkn, Kind.Holds, get?_addUpdate_map hkn d (.inl rfl), true_imp_iff]
    generalize (c.toDatabase (.map d)).asMap = stored
    have habs : ∀ k, k ∉ stored.keys → entryOf stored k = none := by
      intro k hk
      rw [entryOf, (stored.get?_eq_none k).mpr hk]
      rfl
    constructor
    · intro h hne k hk
      by_contra hnot
      have := h k
      rw [if_neg hne, if_neg hnot, habs k hnot] at this
      exact (cell.asMap.get?_eq_none k).mp this hk
    intro h k
    by_cases hnil : stored.keys = []
    · rw [if_pos hnil, habs k (by rw [hnil]; exact not_mem_nil)]
    rw [if_neg hnil]
    by_cases hk : k ∈ stored.keys
    · rw [if_pos hk]
    rw [if_neg hk, habs k hk]
    exact (cell.asMap.get?_eq_none k).mpr fun hmem => hk (h hnil k hmem)

namespace MappedModel

variable (model : MappedModel α)

/-- The named columns hold their values, the others what they held. -/
structure Overwritten (values : Dict String (Value α)) (row row' : String → Value α) : Prop where
  named : ∀ e ∈ values.entries, (model.column e.1).kind.Holds (row' (model.dbFieldName e.1))
    ((model.column e.1).toDatabase (model.given e))
  others : ∀ name ∈ model.names, name ∉ values.keys →
    (model.column name).kind.Agree (row' (model.dbFieldName name)) (row (model.dbFieldName name))

def nullAnyway (values : Dict String (Value α)) (row : String → Value α) (name : String) : Bool :=
  match values.get? name with
  | some v =>
    if (model.given (name, v)).isNone then (row (model.dbFieldName name)).isEmpty
    else ((model.column name).toDatabase (model.given (name, v))).isBlank
  | none => (row (model.dbFieldName name)).isEmpty

/-- `DELETE` names the same columns, and maps hold no other keys. -/
structure Overwritable (values : Dict String (Value α)) (row : String → Value α) : Prop where
  deletable : ∀ field ∈ model.nulled values.entries, model.Deletable field
  targets : ∀ name ∈ model.names,
    (name ∈ model.nulled values.entries ↔ model.dbFieldName name ∈ model.nulled values.entries) ∨
      model.nullAnyway values row name = true
  maps : ∀ e ∈ values.entries, (model.column e.1).kind = .map → model.dbFieldName e.1 ∉ model.nulled values.entries →
    ((model.column e.1).toDatabase (model.given e)).asMap.keys ≠ [] →
      ∀ k ∈ (row (model.dbFieldName e.1)).asMap.keys, k ∈ ((model.column e.1).toDatabase (model.given e)).asMap.keys

variable {model} {values : Dict String (Value α)}

variable {e : String × Value α} {name : String} {row : String → Value α}

omit [LinearOrder α] in
theorem mem_nulled_iff (he : e ∈ values.entries) :
    e.1 ∈ model.nulled values.entries ↔ (model.given e).isNone := by
  unfold nulled
  rw [mem_map]
  constructor
  · rintro ⟨e', he', hn⟩
    rw [mem_filter] at he'
    have hs : e' = e := by
      obtain ⟨name, v⟩ := e
      obtain ⟨name', v'⟩ := e'
      obtain rfl : name' = name := hn
      have hv := (values.get?_eq_some name' v).mpr he
      rw [(values.get?_eq_some name' v').mpr he'.1] at hv
      rw [Option.some.inj hv]
    exact hs ▸ he'.2
  · exact fun h => ⟨e, mem_filter.mpr ⟨he, h⟩, rfl⟩

omit [LinearOrder α] in
theorem not_mem_nulled (h : name ∉ values.keys) : name ∉ model.nulled values.entries := by
  intro hmem
  obtain ⟨e, he, rfl⟩ := mem_map.mp hmem
  exact h (mem_map_of_mem (mem_of_mem_filter he))

omit [LinearOrder α] in
theorem given_fits (h : model.Valid e) : (model.given e).fits (model.column e.1).kind := by
  obtain ⟨w, hw⟩ := h.valid
  rw [given, hw]
  exact (model.column e.1).validate_fits hw

theorem holds_finalCell_iff (he : e ∈ values.entries) (hv : model.Valid e)
    (hrow : (row (model.dbFieldName e.1)).fits (model.column e.1).kind) :
    (model.column e.1).kind.Holds (model.finalCell row values e.1) ((model.column e.1).toDatabase (model.given e)) ↔
    ((e.1 ∈ model.nulled values.entries ↔ model.dbFieldName e.1 ∈ model.nulled values.entries) ∨
      model.nullAnyway values row e.1) ∧
    ((model.column e.1).kind = .map → model.dbFieldName e.1 ∉ model.nulled values.entries →
      ((model.column e.1).toDatabase (model.given e)).asMap.keys ≠ [] → ∀ k ∈ (row (model.dbFieldName e.1)).asMap.keys,
          k ∈ ((model.column e.1).toDatabase (model.given e)).asMap.keys) := by
  have hget : values.get? e.1 = some e.2 := (values.get?_eq_some e.1 e.2).mpr he
  have hf := given_fits hv
  unfold finalCell nullAnyway
  simp only [hget, mem_nulled_iff he, Option.map_some, writes]
  by_cases hn : (model.given e).isNone
  · have heq : model.given e = .none := Value.eq_none_of_isNone hn
    by_cases htgt : model.dbFieldName e.1 ∈ model.nulled values.entries
    · rw [if_pos htgt, heq]
      refine iff_of_true ?_ ⟨.inl (iff_of_true rfl htgt), fun _ h => absurd htgt h⟩
      exact (holds_none_iff rfl).mpr rfl
    simp only [hn, htgt, iff_false, not_true_eq_false, false_or]
    rw [heq]
    refine (holds_none_iff hrow).trans ⟨fun h => ⟨h, fun _ _ hne => absurd rfl hne⟩, And.left⟩
  have hn' : (model.given e).isNone = false := Bool.not_eq_true _ ▸ hn
  by_cases htgt : model.dbFieldName e.1 ∈ model.nulled values.entries
  · simp only [htgt, hn', not_true_eq_false, Bool.false_eq_true, iff_true, false_or,
      false_imp_iff, implies_true, and_true]
    exact none_holds_iff (fits_toDatabase hf)
  simp only [htgt, hn', Bool.false_eq_true, not_false_eq_true, true_or, true_and, true_imp_iff]
  exact holds_addUpdate_iff hf hn' _

theorem agree_finalCell_iff (h : name ∉ values.keys)
    (hrow : (row (model.dbFieldName name)).fits (model.column name).kind) :
    (model.column name).kind.Agree (model.finalCell row values name) (row (model.dbFieldName name)) ↔
      (name ∈ model.nulled values.entries ↔ model.dbFieldName name ∈ model.nulled values.entries) ∨
        model.nullAnyway values row name := by
  have hget : values.get? name = none := (values.get?_eq_none name).mpr h
  unfold finalCell nullAnyway
  simp only [hget, not_mem_nulled h, false_iff]
  by_cases htgt : model.dbFieldName name ∈ model.nulled values.entries
  · simp only [htgt, not_true_eq_false, false_or]
    rw [isEmpty_iff_agree hrow]
    exact ⟨Kind.Agree.symm, Kind.Agree.symm⟩
  rw [if_neg htgt]
  exact iff_of_true (agree_refl _ _) (.inl htgt)

end MappedModel

/-- **Blind overwrite**: exactly when the row is `Overwritable`. -/
theorem blind_update_overwrites_iff (model : MappedModel α) (rows : Cells κ α) (key : κ)
    (values : Dict String (Value α)) (hvalid : ∀ e ∈ values.entries, model.Valid e)
    (hrow : ∀ name ∈ model.names, (rows key (model.dbFieldName name)).fits (model.column name).kind = true) :
    ((model.update rows key values).2 = true ∧
      model.Overwritten values (rows key) ((model.update rows key values).1 key) ∧
      ∀ key', key' ≠ key → (model.update rows key values).1 key' = rows key') ↔
    model.Overwritable values (rows key) := by
  constructor
  · rintro ⟨hok, ho, -⟩
    have hnm : ∀ e ∈ values.entries, _ := fun e he =>
      (holds_finalCell_iff he (hvalid e he) (hrow e.1 (hvalid e he).mem)).mp
        (update_cell hvalid rows key hok (hvalid e he).mem ▸ ho.named e he)
    refine ⟨(update_ok_iff hvalid rows key).mp hok, fun name hn => ?_, fun e he => (hnm e he).2⟩
    by_cases hkey : name ∈ values.keys
    · obtain ⟨e, he, rfl⟩ := mem_map.mp hkey
      exact (hnm e he).1
    have ha := ho.others name hn hkey
    rw [update_cell hvalid rows key hok hn] at ha
    exact (agree_finalCell_iff hkey (hrow name hn)).mp ha
  intro h
  have hok := (update_ok_iff hvalid rows key).mpr h.deletable
  refine ⟨hok, ⟨fun e he => ?_, fun name hn hkey => ?_⟩, fun key' hkey' => update_other_row hvalid rows key hkey'⟩
  · have hmem := (hvalid e he).mem
    rw [update_cell hvalid rows key hok hmem]
    exact (holds_finalCell_iff he (hvalid e he) (hrow e.1 hmem)).mpr ⟨h.targets e.1 hmem, h.maps e he⟩
  rw [update_cell hvalid rows key hok hn]
  exact (agree_finalCell_iff hkey (hrow name hn)).mpr (h.targets name hn)

/-- A column's name in the table is another column's name. -/
def shelf : MappedModel Nat where
  names := ["id", "tags", "log", "prices", "x", "z"]
  column name :=
    if name = "id" then { ofClass any_scalar true .none id id with primaryKey := true }
    else if name = "tags" then ofClass any_set false (.set []) id id
    else if name = "log" then ofClass any_list false (.list []) id id
    else if name = "prices" then ofClass any_map false (.map empty) id id
    else ofClass any_scalar false .none id id
  dbFieldName name := if name = "x" then "y" else if name = "z" then "x" else name
  nodup := by decide
  dbFieldName_inj := by decide

def shelfRows : Cells Nat Nat := fun _ field =>
  if field = "tags" then .set [1]
  else if field = "log" then .list [1, 2]
  else if field = "prices" then .map (empty.set 1 (some 10))
  else .scalar 5

theorem blind_update_overwrites_three : let values : Dict String (Value Nat) :=
      ((empty.set "tags" .none).set "log" (.list [])).set "prices" (.map (empty.set 1 (some 20)))
    shelf.Overwritable values (shelfRows 1) ∧ (shelf.update shelfRows 1 values).2 = true ∧
      shelf.Overwritten values (shelfRows 1) ((shelf.update shelfRows 1 values).1 1) := by
  intro values
  have hok : shelf.Overwritable values (shelfRows 1) := ⟨by decide +kernel, by decide +kernel, by decide +kernel⟩
  have hv : ∀ e ∈ values.entries, shelf.Valid e := by
    intro e he
    have hen : values.entries = [("tags", .none), ("log", .list []), ("prices", .map (empty.set 1 (some 20)))] :=
      rfl
    rw [hen] at he
    simp only [mem_cons, not_mem_nil, or_false] at he
    rcases he with rfl | rfl | rfl <;> exact ⟨by decide +kernel, by decide, rfl, _, rfl⟩
  have h := (blind_update_overwrites_iff shelf shelfRows 1 values hv (by decide +kernel)).mpr hok
  exact ⟨hok, h.1, h.2.1⟩

/-- A map keeps what it held, and `x` its value. -/
theorem blind_update_misses : ((shelf.update shelfRows 1 (empty.set "prices" (.map (empty.set 2 (some 20))))).1 1
      (shelf.dbFieldName "prices")).asMap.get? 1 = some (some 10) ∧
    ((shelf.update shelfRows 1 (empty.set "x" .none)).1 1 (shelf.dbFieldName "x")).asScalar = some 5 ∧
    ((shelf.update shelfRows 1 (empty.set "x" .none)).1 1 (shelf.dbFieldName "z")).asScalar = none ∧
    (shelfRows 1 (shelf.dbFieldName "z")).asScalar = some 5 ∧
    (shelf.update shelfRows 1 (empty.set "z" .none)).2 = false := by
  decide +kernel

/-! ## Operations -/

theorem rsplit_append {bef aft : List Char} (h : rsplit ('_' :: aft) = none) :
    rsplit (bef ++ '_' :: '_' :: aft) = some (bef, aft) := by
  induction bef with
  | nil =>
    unfold rsplit
    simp [h]
  | cons c bef ih =>
    rw [cons_append, rsplit.eq_def]
    simp only [ih]

theorem parseFilterArg_operation (name : String) (operation : Operation) :
    parseFilterArg (name ++ "__" ++ operation.text) = (name, some operation.text) := by
  have hs : rsplit (name ++ "__" ++ operation.text).toList = some (name.toList, operation.text.toList) := by
    simp only [String.toList_append, append_assoc]
    apply rsplit_append
    cases operation <;> decide
  have htk : name ++ "__" ++ operation.text ≠ "pk__token" := by
    intro heq
    rw [heq] at hs
    have ht : operation.text.toList = "token".toList := by
      have hpk : rsplit "pk__token".toList = some ("pk".toList, "token".toList) := by decide
      exact (Prod.mk.inj (Option.some.inj hs)).2.symm
    cases operation <;> revert ht <;> decide
  unfold parseFilterArg
  rw [hs]
  simp [htk]

theorem ofText_text (operation : Operation) : Operation.ofText operation.text = operation := by
  cases operation <;> decide

def Kind.supports : Kind → Operation → Bool
  | .set, .add | .set, .remove | .list, .append | .list, .prepend | .map, .update | .map, .remove => true
  | _, _ => false

local instance lawfulBEq_key : LawfulBEq α := inferInstance

/-- `w` is what `validate` makes of the operand `x`. -/
def Changed (c : Column α) (operation : Operation) (x w cell after : Value α) : Prop :=
  match c.kind, operation with
  | .set, .add => ∀ e, e ∈ after.asSet ↔ e ∈ cell.asSet ∨ e ∈ (c.toDatabase w).asSet
  | .set, .remove => ∀ e, e ∈ after.asSet ↔ e ∈ cell.asSet ∧ e ∉ (c.toDatabase w).asSet
  | .list, .append => after.asList = cell.asList ++ (c.toDatabase w).asList
  | .list, .prepend => after.asList = (c.toDatabase w).asList ++ cell.asList
  | .map, .update => ∀ k, after.asMap.get? k =
      if k ∈ (c.toDatabase w).asMap.keys then entryOf (c.toDatabase w).asMap k else cell.asMap.get? k
  | .map, .remove => ∀ k, after.asMap.get? k = if k ∈ x.asSet.map c.toDb then none else cell.asMap.get? k
  | _, _ => False

theorem mem_keys_removals (c : Column α) (keys : List α) (k : α) :
    k ∈ (c.toDatabase (.map (empty.setAll (keys.map fun k => (k, none))))).asMap.keys ↔ k ∈ keys.map c.toDb := by
  simp [mem_keys_toDatabase, mem_keys_setAll]

theorem keys_toDatabase_eq_nil (c : Column α) (d : Dict α (Option α)) :
    (c.toDatabase (.map d)).asMap.keys = [] ↔ (Value.map d).isEmpty := by
  have he : (Value.map d).isEmpty ↔ d.keys = [] := by simp [Value.isEmpty, Dict.keys]
  simp [he, eq_nil_iff_forall_not_mem, mem_keys_toDatabase]

theorem map_changed_iff (hc : cell.fits .map) (keys : List α) (f : α → Option (Option α)) :
    (∀ k, (if keys = [] then none else if k ∈ keys then f k else cell.asMap.get? k) =
      if k ∈ keys then f k else cell.asMap.get? k) ↔ ¬ (keys = [] ∧ cell.isEmpty = false) := by
  by_cases hnil : keys = []
  · simp only [hnil, true_and, Bool.not_eq_false]
    rw [isEmpty_iff_agree hc]
    exact ⟨fun h k => (h k).symm, fun h k => (h k).symm⟩
  · simp [hnil]

theorem changed_iff {operation : Operation} (hsup : c.kind.supports operation) {x w : Value α}
    (hopd : operand c (some operation) x = some w) (hn : w.isNone = false) (hc : cell.fits c.kind) :
    Changed c operation x w cell (applyAll (c.addUpdate w (some operation) .none) cell) ↔
      ¬ (c.kind = .map ∧ w.isEmpty ∧ cell.isEmpty = false) := by
  have hv : ¬ (some operation = some .remove ∧ c.kind = .map) → w.fits c.kind := by
    intro h
    unfold operand at hopd
    rw [if_neg h] at hopd
    exact c.validate_fits hopd
  unfold Changed
  cases hk : c.kind with
  | scalar =>
    rw [hk] at hsup
    cases hsup
  | set =>
    obtain ⟨elems, rfl⟩ : ∃ elems, w = .set elems := by
      cases w <;> simp_all [Value.fits, Value.isNone]
    rw [hk] at hsup
    cases operation <;> try cases hsup
    · exact iff_of_true (fun x => (mem_addUpdate_set hk elems cell x).1) (by simp)
    · exact iff_of_true (fun x => (mem_addUpdate_set hk elems cell x).2) (by simp)
  | list =>
    obtain ⟨elems, rfl⟩ : ∃ elems, w = .list elems := by
      cases w <;> simp_all [Value.fits, Value.isNone]
    rw [hk] at hsup
    cases operation <;> try cases hsup
    · exact iff_of_true (asList_addUpdate_list hk elems cell).1 (by simp)
    · exact iff_of_true (asList_addUpdate_list hk elems cell).2 (by simp)
  | map =>
    rw [hk] at hsup hc
    simp only [true_and]
    cases operation <;> try cases hsup
    · simp only [operand, hk] at hopd
      cases x <;> try cases hopd
      simp only [get?_addUpdate_remove hk, ← mem_keys_removals, ← keys_toDatabase_eq_nil c]
      exact map_changed_iff hc _ fun _ => none
    obtain ⟨d, rfl⟩ : ∃ d, w = .map d := by
      cases w <;> simp_all [Value.fits, Value.isNone]
    simp only [get?_addUpdate_map hk d (.inr rfl), ← keys_toDatabase_eq_nil c]
    exact map_changed_iff hc _ _

namespace MappedModel

variable {model : MappedModel α}

variable {name : String} {operation : Operation} {w x : Value α}

theorem gatherAll_operation (hn : name ∈ model.names) (hkey : (model.column name).primaryKey = false)
    (hopd : operand (model.column name) (some operation) x = some w) (hnn : w.isNone = false) :
    model.gatherAll {} [(name ++ "__" ++ operation.text, x)] =
      some { assignments :=
        if (model.column name).addUpdate w (some operation) .none = [] then []
        else [(model.dbFieldName name, (model.column name).addUpdate w (some operation) .none)] } := by
  simp only [gatherAll, gather, parseFilterArg_operation, Option.map_some, ofText_text, hn, hkey, hopd, hnn]
  by_cases h : (model.column name).addUpdate w (some operation) .none = [] <;> simp [h]

theorem update_operation (rows : Cells κ α) (key : κ) (hn : name ∈ model.names)
    (hkey : (model.column name).primaryKey = false)
    (hopd : operand (model.column name) (some operation) x = some w) (hnn : w.isNone = false) :
    model.update rows key (empty.set (name ++ "__" ++ operation.text) x) =
      (Function.update rows key (Function.update (rows key) (model.dbFieldName name)
        (applyAll ((model.column name).addUpdate w (some operation) .none) (rows key (model.dbFieldName name)))), true) := by
  have he : (empty.set (name ++ "__" ++ operation.text) x).entries =
      [(name ++ "__" ++ operation.text, x)] := rfl
  unfold update
  rw [he, gatherAll_operation hn hkey hopd hnn]
  by_cases h : (model.column name).addUpdate w (some operation) .none = []
  · simp [h, assignCells]
  · simp [h, assignCells]

end MappedModel

/-- **Blind operations** are right, but for an empty operand on a filled map. -/
theorem blind_operation_iff (model : MappedModel α) (rows : Cells κ α) (key : κ) (name : String)
    (hname : name ∈ model.names) (hkey : (model.column name).primaryKey = false) (operation : Operation)
    (hsupports : (model.column name).kind.supports operation = true) (x w : Value α)
    (hoperand : operand (model.column name) (some operation) x = some w) (hnone : w.isNone = false)
    (hcell : (rows key (model.dbFieldName name)).fits (model.column name).kind = true) :
    let after := model.update rows key (empty.set (name ++ "__" ++ operation.text) x)
    (after.2 = true ∧
      Changed (model.column name) operation x w (rows key (model.dbFieldName name))
        (after.1 key (model.dbFieldName name)) ∧
      ∀ key' field, key' ≠ key ∨ field ≠ model.dbFieldName name → after.1 key' field = rows key' field) ↔
    ¬ ((model.column name).kind = .map ∧ w.isEmpty = true ∧ (rows key (model.dbFieldName name)).isEmpty = false) := by
  simp only [update_operation rows key hname hkey hoperand hnone, Function.update_self, true_and]
  rw [changed_iff hsupports hoperand hnone hcell, and_iff_left]
  rintro key' field ho
  by_cases h : key' = key
  · subst h
    rw [Function.update_self, Function.update_of_ne (ho.resolve_left (fun h => h rfl))]
  · rw [Function.update_of_ne h]

theorem blind_operation_update :
    Changed (shelf.column "prices") .update (.map (empty.set 2 (some 20))) (.map (empty.set 2 (some 20)))
      (shelfRows 1 "prices")
      ((shelf.update shelfRows 1
        (empty.set ("prices" ++ "__" ++ Operation.update.text) (.map (empty.set 2 (some 20))))).1 1 "prices") :=
  ((blind_operation_iff shelf shelfRows 1 "prices" (by decide) rfl .update rfl (.map (empty.set 2 (some 20)))
    (.map (empty.set 2 (some 20))) rfl rfl rfl).mpr (by decide +kernel)).2.1

/-- Adding nothing to a map, or taking nothing from it, empties it. -/
theorem blind_operation_empties : ((shelfRows 1 "prices").asMap.get? 1 = some (some 10)) ∧
    ((shelf.update shelfRows 1 (empty.set "prices__update" (.map empty))).1 1 "prices").asMap.get? 1 = none ∧
    ((shelf.update shelfRows 1 (empty.set "prices__remove" (.set []))).1 1 "prices").asMap.get? 1 = none := by
  decide +kernel

end CqlDriver.Mapper
