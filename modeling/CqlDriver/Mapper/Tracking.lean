import CqlDriver.Mapper.Instance

/-! # The stored row and the instance -/

namespace CqlDriver.Mapper

open Lib List Column

variable {ν α : Type} [DecidableEq ν] [LinearOrder α]

/-! ## One column -/

/-- What holds between two calls: the column holds the value before, or nothing. -/
structure Tracked (c : Column α) (m : ValueManager α) (cell : Value α) : Prop where
  cellFits : cell.fits c.kind = true
  fits : m.previousValue.fits c.kind = true
  exact : c.exact m.previousValue = true
  settled : ∀ w, c.validate m.previousValue = some w → w = m.previousValue
  tracks : c.kind.Agree cell m.previousValue ∨ c.kind.Agree cell .none
  scalar : c.kind = .scalar → m.explicit = false → m.value = .none ∨ m.value = m.previousValue

structure Ready (c : Column α) (m : ValueManager α) (cell : Value α) : Prop extends Tracked c m cell where
  valueFits : m.value.fits c.kind = true
  valueExact : c.exact m.value = true
  valueSettled : c.validate m.value = some m.value
  complete : m.value.complete = true
  noticed : m.explicit = false → c.kind ≠ .scalar → c.valIsNull c.default = false → m.previousValue.isNone = true →
    m.value.same c.default = false
  fresh : c.valIsNull m.value = false → cell.isEmpty = true → c.valIsNull m.previousValue = false →
    m.value.unlike m.previousValue = true

section OneColumn

variable {c : Column α} {m : ValueManager α} {cell w : Value α}

omit [LinearOrder α] in
theorem validate_filled (hw : c.validate (c.filled m) = some w) :
    c.validate m.value = some w ∨ (m.value.isNone ∧ (c.valIsNull c.default → w.isEmpty)) := by
  unfold filled at hw
  split at hw
  · rename_i hf
    refine .inr ⟨(Bool.and_eq_true_iff.mp hf).1, fun hd => ?_⟩
    unfold valIsNull at hd
    split at hd
    · rw [Value.eq_none_of_isNone hd] at hw
      rw [c.validate_none hw]
      rfl
    · exact c.validate_empty hd hw
  · exact .inl hw

theorem Tracked.validated (h : Tracked c m cell) (hn : c.noticed m w) (hw : c.validate (c.filled m) = some w) :
    Tracked c { m with value := w } cell where
  cellFits := h.cellFits
  fits := h.fits
  exact := h.exact
  settled := h.settled
  tracks := h.tracks
  scalar := by
    intro hk hexp
    rcases validate_filled hw with hvl | ⟨hv, he⟩
    · rcases h.scalar hk hexp with hv | hv
      · rw [hv] at hvl
        exact .inl (c.validate_none hvl)
      rw [hv] at hvl
      exact .inr (h.settled w hvl)
    have hf := c.validate_fits hw
    have hp := h.fits
    simp only [noticed, show m.explicit = false from hexp, hk, hv] at hn
    cases hd : c.valIsNull c.default with
    | true => cases w <;> simp_all [Value.fits, Value.isEmpty]
    | false => cases w <;> cases hpv : m.previousValue <;> simp_all [Value.fits, Value.same]

theorem Tracked.ready (h : Tracked c m cell) (hk : c.keepsTrack m cell) (hkey : c.primaryKey = false)
    (hw : c.validate (c.filled m) = some w) : Ready c { m with value := w } cell := by
  unfold keepsTrack at hk
  simp only [hw, hkey, Bool.false_eq_true, if_false, Bool.and_eq_true] at hk
  obtain ⟨⟨⟨hn, he⟩, hcmp⟩, hf⟩ := hk
  refine { h.validated hn hw with
    valueFits := c.validate_fits hw, valueExact := he, valueSettled := c.validate_idem hw, complete := hcmp
    noticed := ?_, fresh := ?_ }
  · intro hexp hns hd hp
    simpa [Column.noticed, show m.explicit = false from hexp, hns, hd, show m.previousValue.isNone from hp] using hn
  intro hv hc hp
  simpa [hv, hc, hp] using hf

theorem Ready.isEmpty_of_null (h : Ready c m cell) (hn : c.valIsNull m.value) : m.value.isEmpty := by
  rwa [valIsNull_iff h.valueFits] at hn

theorem Tracked.agree_none (h : Tracked c m cell) (hn : c.valIsNull m.previousValue) :
    c.kind.Agree m.previousValue .none := by
  rw [valIsNull_iff h.fits] at hn
  exact (isEmpty_iff_agree h.fits).mp hn

theorem Ready.based (h : Ready c m cell) (hv : c.valIsNull m.value = false ∨ c.valIsNull m.previousValue) :
    Based c.kind cell m.value m.previousValue := by
  rcases h.tracks with ha | hc
  · exact .inl ha
  by_cases hp : c.valIsNull m.previousValue
  · exact .inl (hc.trans (h.agree_none hp).symm)
  have hp : c.valIsNull m.previousValue = false := by simpa using hp
  have hv := hv.resolve_right (by simp [hp])
  exact .inr ⟨hc, h.fresh hv ((isEmpty_iff_agree h.cellFits).mpr hc) hp⟩

theorem Ready.same_of_not_changed (h : Ready c m cell) (hchg : m.changed c = false)
    (hvl : c.valIsNull m.value = false) : m.value.same m.previousValue := by
  have hn : m.value ≠ .none := by
    intro hv
    simp [hv] at hvl
  unfold ValueManager.changed at hchg
  split_ifs at hchg with hexp hk hd hp
  · simpa using hchg
  · have hexp : m.explicit = false := by simpa using hexp
    rw [← (h.scalar hk hexp).resolve_left hn]
    exact same_refl h.valueFits
  · simpa [hvl] using hchg
  · simp [h.noticed (by simpa using hexp) hk (by simpa using hd) hp] at hchg
  · simpa using hchg

theorem mapRemovals_of_agree {v p : Value α} (h : Kind.map.Agree v p) : mapRemovals v.asMap p.asMap = [] := by
  rw [mapRemovals, filter_eq_nil_iff]
  intro k hk
  rw [← Dict.get?_isSome, ← h, Dict.get?_isSome] at hk
  simpa using hk

theorem removalOps_of_agree {v p : Value α} (h : c.kind.Agree v p) : c.removalOps v p = [] := by
  unfold removalOps
  split
  · rename_i hk
    rw [hk] at h
    rw [mapRemovals_of_agree h]
    rfl
  · rfl

variable (h : Ready c m cell)
include h

theorem Ready.agree_stored (hkey : c.primaryKey = false) : c.kind.Agree (c.stored m cell) m.value := by
  unfold stored
  by_cases hd : m.deleted c
  · have hnl : c.valIsNull m.value := by
      exact (Bool.and_eq_true_iff.mp hd).1
    have hops : c.deleteOps m = [.delete] := by simp [deleteOps, hd]
    rw [hops]
    exact ((isEmpty_iff_agree h.valueFits).mp (h.isEmpty_of_null hnl)).symm
  have hnl : c.valIsNull m.value = false ∨ c.valIsNull m.previousValue := by
    unfold ValueManager.deleted at hd
    cases hv : c.valIsNull m.value <;> simp_all
  have hb := h.based hnl
  have hdel : c.deleteOps m = c.removalOps m.value m.previousValue := by simp [deleteOps, hd]
  by_cases hwr : m.value.isNone = false ∧ m.changed c
  · have hops : c.updateOps m = c.addUpdate m.value none m.previousValue := by
      simp [updateOps, hkey, hwr.1, hwr.2]
    rw [hops, hdel]
    exact agree_addUpdate h.valueFits hwr.1 h.fits h.valueExact h.exact h.complete hb
  have hops : c.updateOps m = [] := by
    unfold updateOps
    cases hv : m.value.isNone <;> simp_all
  -- nothing is written, so the value before must be the value
  have ha : c.kind.Agree m.value m.previousValue := by
    by_cases hv : c.valIsNull m.value
    · have hp := hnl.resolve_left (by simp [hv])
      exact ((isEmpty_iff_agree h.valueFits).mp (h.isEmpty_of_null hv)).trans (h.agree_none hp).symm
    have hv : c.valIsNull m.value = false := by simpa using hv
    have hchg : m.changed c = false := by
      cases hn : m.value.isNone with
      | true => simp [Value.eq_none_of_isNone hn] at hv
      | false => simpa [hn] using hwr
    exact agree_of_same (h.same_of_not_changed hchg hv) _
  rw [hops, hdel, removalOps_of_agree ha]
  rcases hb with hc | ⟨hc, hunl⟩
  · exact hc.trans ha.symm
  have he := isEmpty_of_agree_unlike h.valueFits h.fits ha hunl
  exact hc.trans ((isEmpty_iff_agree h.valueFits).mp he).symm

theorem Ready.fits_stored : (c.stored m cell).fits c.kind := by
  apply fits_applyAll (fits_deleteOps m)
  refine fits_applyAll ?_ h.cellFits
  unfold updateOps
  split
  · simp
  · exact fits_addUpdate h.valueFits h.valueExact h.exact

theorem Ready.tracked_persisted (hkey : c.primaryKey = false) : Tracked c (c.persisted m) (c.stored m cell) := by
  have ha := h.agree_stored hkey
  unfold persisted
  split
  · exact {
      cellFits := h.fits_stored, fits := h.valueFits, exact := h.valueExact
      settled := fun w hw => Option.some.inj (hw.symm.trans h.valueSettled)
      tracks := .inl ha
      scalar := fun _ _ => .inr rfl }
  rename_i hchg
  have hchg : m.changed c = false := by simpa using hchg
  refine { h.toTracked with cellFits := h.fits_stored, tracks := ?_ }
  by_cases hv : c.valIsNull m.value
  · exact .inr (ha.trans ((isEmpty_iff_agree h.valueFits).mp (h.isEmpty_of_null hv)))
  have hv : c.valIsNull m.value = false := by simpa using hv
  exact .inl (ha.trans (agree_of_same (h.same_of_not_changed hchg hv) _))

end OneColumn

/-! ## All columns -/

namespace Model

variable {model : Model ν α} {s : State ν α}

def ValidatedAt (model : Model ν α) (values values' : ν → ValueManager α) (name : ν) : Prop :=
  ∃ w, (model.column name).validate ((model.column name).filled (values name)) = some w ∧
    values' name = { values name with value := w }

omit [LinearOrder α] in
theorem validate_spec {model : Model ν α} (names : List ν) : ∀ (values : ν → ValueManager α), names.Nodup →
    (∀ name, (model.validate names values).1 name = values name ∨
      (name ∈ names ∧ ValidatedAt model values (model.validate names values).1 name)) ∧
    ((model.validate names values).2 →
      ∀ name ∈ names, ValidatedAt model values (model.validate names values).1 name) := by
  induction names with
  | nil => exact fun _ _ => ⟨fun _ => .inl rfl, fun _ _ h => by cases h⟩
  | cons name rest ih =>
    intro values hn
    rw [nodup_cons] at hn
    unfold validate
    cases hw : (model.column name).validate ((model.column name).filled (values name)) with
    | none => exact ⟨fun _ => .inl rfl, fun h => by cases h⟩
    | some w =>
      obtain ⟨hp, hall⟩ := ih (Function.update values name { values name with value := w }) hn.2
      generalize hr : model.validate rest (Function.update values name { values name with value := w }) = r at hp hall
      dsimp only
      rw [hr]
      -- the rest of the loop does not come to this column again
      have hh : ValidatedAt model values r.1 name := by
        refine ⟨w, hw, ?_⟩
        rcases hp name with h | ⟨hmem, -⟩
        · rw [h, Function.update_self]
        · exact absurd hmem hn.1
      have hold : ∀ other ≠ name,
          ValidatedAt model (Function.update values name { values name with value := w }) r.1 other →
          ValidatedAt model values r.1 other := by
        rintro other hne ⟨w', hw', h⟩
        rw [Function.update_of_ne hne] at hw' h
        exact ⟨w', hw', h⟩
      constructor
      · intro other
        by_cases hne : other = name
        · rw [hne]
          exact .inr ⟨mem_cons_self, hh⟩
        rcases hp other with h | ⟨hmem, h⟩
        · rw [Function.update_of_ne hne] at h
          exact .inl h
        · exact .inr ⟨mem_cons_of_mem _ hmem, hold other hne h⟩
      intro hv other ho
      by_cases hne : other = name
      · rw [hne]
        exact hh
      · exact hold other hne (hall hv other ((mem_cons.mp ho).resolve_left hne))

variable {rows : Rows ν α}

omit [DecidableEq ν] in
theorem execute_spec {model : Model ν α} (ops : ν → List (Op α)) {key : List (Option α)} (hkey : none ∉ key)
    (hops : ∀ name ∈ model.names, (model.column name).primaryKey → ops name = []) :
    ∃ rows', model.execute rows key ops = some rows' ∧
      ∀ name ∈ model.names, rows' key name = applyAll (ops name) (rows key name) := by
  unfold execute
  split
  · rename_i he
    refine ⟨rows, rfl, fun name hn => ?_⟩
    rw [he name hn]
    rfl
  rw [if_neg]
  · exact ⟨_, rfl, fun name _ => by rw [Function.update_self]⟩
  rintro (h | ⟨name, hn, hp, hne⟩)
  · exact hkey h
  · exact hne (hops name hn hp)

omit [DecidableEq ν] [LinearOrder α] in
theorem key_congr {f g : ν → Value α}
    (h : ∀ name ∈ model.names, (model.column name).primaryKey → f name = g name) :
    model.key f = model.key g := by
  refine map_congr_left fun name hn => ?_
  rw [mem_filter] at hn
  rw [h name hn.1 hn.2]

def row (model : Model ν α) (s : State ν α) : ν → Value α :=
  s.rows (model.key fun name => (s.values name).previousValue)

def Inv (model : Model ν α) (s : State ν α) : Prop :=
  ∀ name ∈ model.names,
    if (model.column name).primaryKey then ∃ a, (s.values name).previousValue = .scalar a
    else Tracked (model.column name) (s.values name) (model.row s name)

variable {name : ν} {c : Column α} {m : ValueManager α} {values : ν → ValueManager α} {cell : Value α}

omit [DecidableEq ν] in
theorem Inv.tracked (h : Inv model s) (hn : name ∈ model.names) (hkey : (model.column name).primaryKey = false) :
    Tracked (model.column name) (s.values name) (model.row s name) := by
  have := h name hn
  rwa [hkey, if_neg (by decide)] at this

omit [DecidableEq ν] in
theorem Inv.key (h : Inv model s) (hn : name ∈ model.names) (hkey : (model.column name).primaryKey) :
    ∃ a, (s.values name).previousValue = .scalar a := by
  have := h name hn
  rwa [hkey, if_pos rfl] at this

omit [DecidableEq ν] in
theorem Inv.none_notMem_key (h : Inv model s) : none ∉ model.key fun name => (s.values name).previousValue := by
  intro hmem
  obtain ⟨name, hn, hnn⟩ := mem_map.mp hmem
  rw [mem_filter] at hn
  obtain ⟨a, ha⟩ := h.key hn.1 hn.2
  dsimp only at hnn
  rw [ha] at hnn
  cases hnn

omit [DecidableEq ν] in
theorem Inv.of_values {s' : State ν α} (h : Inv model s) (hr : s'.rows = s.rows)
    (hp : ∀ name, (s'.values name).previousValue = (s.values name).previousValue)
    (htr : ∀ name ∈ model.names, (model.column name).primaryKey = false →
      Tracked (model.column name) (s.values name) (model.row s name) →
      Tracked (model.column name) (s'.values name) (model.row s name)) : Inv model s' := by
  have hrow : model.row s' = model.row s := by
    unfold row
    rw [hr]
    simp only [hp]
  intro name hn
  split
  · rename_i hkey
    rw [hp]
    exact h.key hn hkey
  rename_i hkey
  have hkey : (model.column name).primaryKey = false := by simpa using hkey
  rw [hrow]
  exact htr name hn hkey (h.tracked hn hkey)

theorem inv_modify (h : Inv model s) {name : ν} {k : ValueManager α → ValueManager α}
    (hp : ∀ m, (k m).previousValue = m.previousValue) (htr : ∀ cell, Tracked (model.column name) (s.values name) cell →
      Tracked (model.column name) (k (s.values name)) cell) : Inv model (modify s name k) := by
  refine h.of_values rfl ?_ ?_
  · intro other
    by_cases hne : other = name
    · simp [modify, hne, hp]
    · simp [modify, hne]
  intro other _ _ ho
  by_cases hne : other = name
  · subst hne
    simpa [modify] using htr _ ho
  · simpa [modify, hne] using ho

theorem inv_invalid (h : Inv model s) (hok : model.keepsTrack s .update) :
    Inv model { s with values := (model.validate model.names s.values).1, updated := false } := by
  obtain ⟨hp, -⟩ := validate_spec model.names s.values model.nodup
  refine h.of_values rfl ?_ ?_
  · intro name
    dsimp only
    rcases hp name with hs | ⟨-, w, -, hv⟩
    · rw [hs]
    · rw [hv]
  intro name hn hkey htr
  have hk := all_eq_true.mp hok name hn
  dsimp only
  rcases hp name with hs | ⟨-, w, hw, hv⟩
  · rw [hs]
    exact htr
  rw [hv]
  simp only [Column.keepsTrack, hw, hkey, Bool.false_eq_true, if_false, Bool.and_eq_true] at hk
  exact htr.validated hk.1.1.1 hw

theorem updateOps_key (hkey : c.primaryKey) {m : ValueManager α} : c.updateOps m = [] := by
  simp [updateOps, hkey]

theorem deleteOps_scalar {a : α} (hk : c.kind = .scalar) (hv : m.value = .scalar a) : c.deleteOps m = [] := by
  simp [deleteOps, removalOps, ValueManager.deleted, valIsNull, hk, hv, Value.isNone]

theorem persisted_value {c : Column α} {m : ValueManager α} : (c.persisted m).value = m.value := by
  unfold persisted
  split <;> rfl

omit [DecidableEq ν] in
theorem value_key (h : Inv model s) (hok : model.keepsTrack s .update)
    (hall : ∀ name ∈ model.names, ValidatedAt model s.values values name) :
    ∀ name ∈ model.names, (model.column name).primaryKey → (values name).value = (s.values name).previousValue := by
  intro name hn hkey
  obtain ⟨w, hw, hvl⟩ := hall name hn
  obtain ⟨a, ha⟩ := h.key hn hkey
  have hk := all_eq_true.mp hok name hn
  have hs : w.same (.scalar a) := by simpa only [Column.keepsTrack, hw, hkey, ha, if_true] using hk
  rw [hvl, ha]
  cases w with
  | scalar b => exact congrArg Value.scalar (of_decide_eq_true hs)
  | _ => cases hs

theorem persisted_key {p : Value α} (hp : m.previousValue = p) (hv : m.value = p) :
    (c.persisted m).previousValue = p := by
  unfold persisted
  split
  · exact hv
  · exact hp

omit [DecidableEq ν] in
theorem execute_validated (h : Inv model s) (hok : model.keepsTrack s .update)
    (hall : ∀ name ∈ model.names, ValidatedAt model s.values values name) : ∃ rows₁ rows₂,
      model.execute s.rows (model.key fun name => (values name).value)
        (fun name => (model.column name).updateOps (values name)) = some rows₁ ∧
      model.execute rows₁ (model.key fun name => (values name).value)
        (fun name => (model.column name).deleteOps (values name)) = some rows₂ ∧
      ∀ name ∈ model.names, rows₂ (model.key fun name => (s.values name).previousValue) name =
        (model.column name).stored (values name) (model.row s name) := by
  have hk := value_key h hok hall
  rw [key_congr hk]
  obtain ⟨rows₁, hr₁, hc₁⟩ := execute_spec
    (fun name => (model.column name).updateOps _) h.none_notMem_key fun name _ hkey => updateOps_key hkey
  obtain ⟨rows₂, hr₂, hc₂⟩ := execute_spec
    (fun name => (model.column name).deleteOps _) h.none_notMem_key fun name hn hkey => by
      obtain ⟨a, ha⟩ := h.key hn hkey
      exact deleteOps_scalar (model.key_scalar name hkey) ((hk name hn hkey).trans ha)
  refine ⟨rows₁, rows₂, hr₁, hr₂, fun name hn => ?_⟩
  rw [hc₂ name hn, hc₁ name hn]
  rfl

theorem update_valid (h : Inv model s) (hok : model.keepsTrack s .update)
    (hv : (model.validate model.names s.values).2) :
    Inv model (model.update s) ∧ model.synced (model.update s) := by
  have hall := (validate_spec model.names s.values model.nodup).2 hv
  obtain ⟨rows₁, rows₂, hr₁, hr₂, hc⟩ := execute_validated h hok hall
  have hupd : model.update s =
      { values := fun name => (model.column name).persisted ((model.validate model.names s.values).1 name)
        rows := rows₂
        updated := true } := by
    unfold update
    rw [if_neg (by simp [hv])]
    simp only [hr₁, hr₂]
  rw [hupd]
  generalize (model.validate model.names s.values).1 = values at hall hc
  have hr : ∀ name ∈ model.names, (model.column name).primaryKey = false →
      Ready (model.column name) (values name) (model.row s name) := by
    intro name hn hkey
    obtain ⟨w, hw, hvl⟩ := hall name hn
    rw [hvl]
    exact (h.tracked hn hkey).ready (all_eq_true.mp hok name hn) hkey hw
  have hk := value_key h hok hall
  have hp : ∀ name ∈ model.names, (model.column name).primaryKey →
      ((model.column name).persisted (values name)).previousValue = (s.values name).previousValue := by
    intro name hn hkey
    obtain ⟨w, -, hvl⟩ := hall name hn
    exact persisted_key (by rw [hvl]) (hk name hn hkey)
  constructor
  · intro name hn
    unfold row
    dsimp only
    rw [key_congr hp, hc name hn]
    split
    · rename_i hkey
      rw [hp name hn hkey]
      exact h.key hn hkey
    rename_i hkey
    have hkey : (model.column name).primaryKey = false := by simpa using hkey
    exact (hr name hn hkey).tracked_persisted hkey
  unfold synced
  rw [all_eq_true]
  intro name hn
  simp only [persisted_value]
  rw [key_congr hk, hc name hn, Bool.or_eq_true]
  cases hkey : (model.column name).primaryKey with
  | true => exact .inl rfl
  | false =>
    have hr := hr name hn hkey
    exact .inr (agrees_of_agree hr.fits_stored hr.valueFits (hr.agree_stored hkey))

theorem update_spec (h : Inv model s) (hok : model.keepsTrack s .update) :
    Inv model (model.update s) ∧ ((model.update s).updated → model.synced (model.update s)) := by
  by_cases hv : (model.validate model.names s.values).2
  · obtain ⟨hinv, hs⟩ := update_valid h hok hv
    exact ⟨hinv, fun _ => hs⟩
  have hupd : model.update s =
      { s with values := (model.validate model.names s.values).1, updated := false } := by
    unfold update
    rw [if_pos (by simpa using hv)]
  rw [hupd]
  exact ⟨inv_invalid h hok, fun hu => by cases hu⟩

/-! ## The steps of a run -/

variable {v : Value α}

section

variable (h : Tracked c m cell)
include h

theorem tracked_setval : Tracked c (m.setval v) cell :=
  { h with scalar := fun _ hexp => (by cases hexp) }

theorem tracked_delval : Tracked c m.delval cell :=
  { h with scalar := fun _ _ => .inl rfl }

theorem tracked_mutate (hv : m.value.sameType v) : Tracked c { m with value := v } cell := by
  have hnn : m.value ≠ .none := by
    intro hn
    rw [hn] at hv
    cases v <;> cases hv
  refine { h with scalar := fun hk hexp => ?_ }
  have hvl := (h.scalar hk hexp).resolve_left hnn
  have hf := h.fits
  rw [← hvl, hk] at hf
  exfalso
  cases hm : m.value with
  | none => exact hnn hm
  | scalar a =>
    rw [hm] at hv
    cases v <;> cases hv
  | _ =>
    rw [hm] at hf
    cases hf

end

theorem step_spec (s : State ν α) (a : Act ν α) (h : Inv model s ∧ (s.updated → model.synced s))
    (hok : model.keepsTrack s a) :
    Inv model (model.step s a) ∧ ((model.step s a).updated → model.synced (model.step s a)) := by
  obtain ⟨h, -⟩ := h
  cases a with
  | update => exact update_spec h hok
  | assign name v =>
    refine ⟨?_, fun hu => by cases hu⟩
    simp only [step]
    apply inv_modify h
    · exact fun _ => rfl
    · exact fun _ htr => tracked_setval htr
  | del name =>
    refine ⟨?_, fun hu => by cases hu⟩
    simp only [step]
    apply inv_modify h
    · intro m
      split <;> rfl
    intro cell htr
    split
    · exact htr
    · exact tracked_delval htr
  | mutate name v =>
    refine ⟨?_, fun hu => by cases hu⟩
    simp only [step]
    apply inv_modify h
    · intro m
      split <;> rfl
    intro cell htr
    split
    · rename_i hv
      exact tracked_mutate htr hv
    · exact htr

/-- It fits the column, is stored as it is, and validates to itself. -/
structure Holds (c : Column α) (cell : Value α) : Prop where
  fits : cell.fits c.kind = true
  exact : c.exact cell = true
  settled : ∀ w, c.validate (c.toPython cell) = some w → w = c.toPython cell

def Loaded (model : Model ν α) (rows : Rows ν α) (keys : ν → α) : Prop :=
  ∀ name ∈ model.names, (model.column name).primaryKey = false →
    Holds (model.column name) (rows (model.key fun name => .scalar (keys name)) name)

omit [DecidableEq ν] in
theorem inv_constructInstance {keys : ν → α} (h : model.Loaded rows keys) :
    Inv model (model.constructInstance rows keys) := by
  have hkey : model.key (fun name => ((model.constructInstance rows keys).values name).previousValue) =
      model.key fun name => .scalar (keys name) := by
    apply key_congr
    intro name _ hpr
    simp [constructInstance, hpr, toPython]
  intro name hn
  split
  · rename_i hpr
    exact ⟨keys name, by simp [constructInstance, hpr, toPython]⟩
  rename_i hpr
  have hh := h name hn (by simpa using hpr)
  unfold row
  rw [hkey]
  simp only [constructInstance, hpr]
  exact {
    cellFits := hh.fits, fits := fits_toPython hh.fits, exact := exact_toPython hh.exact
    settled := hh.settled, tracks := .inl (agree_toPython ..), scalar := fun _ _ => .inr rfl }

end Model

/-- **The row is the instance** after each `update()`, if the columns keep track before it. -/
theorem row_is_instance (model : Model ν α) (rows : Rows ν α) (keys : ν → α) (acts : List (Act ν α))
    (hloaded : model.Loaded rows keys)
    (hok : RunOk model.step (fun s a => model.keepsTrack s a = true) (model.constructInstance rows keys) acts)
    (hupdated : (run model.step (model.constructInstance rows keys) acts).updated = true) :
    model.synced (run model.step (model.constructInstance rows keys) acts) = true := by
  have hs := Model.inv_constructInstance hloaded
  exact (run_invariant Model.step_spec ⟨hs, fun h => by cases h⟩ hok).2 hupdated

/-! ## A table with a column of each kind -/

/-- Column 0 is the key, 5 and 7 have defaults, 6 stores tens. -/
def table : Model Nat Nat where
  names := [0, 1, 2, 3, 4, 5, 6, 7]
  column
    | 0 => { ofClass any_scalar false .none id id with primaryKey := true }
    | 1 => ofClass any_scalar false .none id id
    | 2 => ofClass any_set false (.set []) id id
    | 3 => ofClass any_list false (.list []) id id
    | 4 => ofClass any_map false (.map Dict.empty) id id
    | 5 => ofClass any_scalar false (.scalar 7) id id
    | 6 => ofClass any_scalar false .none (fun a => a / 10 * 10) id
    | _ => ofClass any_set false (.set [9]) id id
  nodup := by decide
  key_scalar := by
    intro name hkey
    match name with
    | 0 => rfl
    | 1 | 2 | 3 | 4 | 5 | 6 | _ + 7 => cases hkey

def oneRow (fifth : Value Nat) : Rows Nat Nat
  | [some 1], 1 => .scalar 10
  | [some 1], 2 => .set [1, 2]
  | [some 1], 3 => .list [1, 2]
  | [some 1], 4 => .map (Dict.empty.set 1 (some 1))
  | [some 1], 5 => fifth
  | [some 1], 7 => .set [4]
  | _, _ => .none

theorem loaded_oneRow : table.Loaded (oneRow (.scalar 5)) fun _ => 1 := by
  intro name hn hkey
  simp only [table, mem_cons, not_mem_nil, or_false] at hn
  rcases hn with rfl | rfl | rfl | rfl | rfl | rfl | rfl | rfl
  · cases hkey
  all_goals exact ⟨by decide, by decide, fun w hw => by cases hw; rfl⟩

def threeUpdates : List (Act Nat Nat) :=
  [.assign 1 (.scalar 11), .mutate 2 (.set [2, 3]), .mutate 3 (.list [0, 1, 2, 3]),
    .mutate 4 (.map ((Dict.empty.set 1 (some 2)).set 3 (some 3))), .update,
    .del 1, .mutate 2 (.set []), .mutate 3 (.list [3]), .mutate 4 (.map (Dict.empty.set 3 (some 3))), .del 7, .update,
    .assign 1 (.scalar 12), .mutate 2 (.set [1]), .assign 3 .none, .assign 6 (.scalar 20), .update]

theorem row_is_instance_three_updates :
    table.synced (run table.step (table.constructInstance (oneRow (.scalar 5)) fun _ => 1) threeUpdates) = true :=
  row_is_instance table (oneRow (.scalar 5)) (fun _ => 1) threeUpdates loaded_oneRow (by decide +kernel)
    (by decide +kernel)

/-- A value deleted or emptied and given again, defaults, `None` in a map, a new key, rounding. -/
def lostTrack : List (List (Act Nat Nat)) :=
  [[.assign 5 (.scalar 5), .del 1, .update, .assign 1 (.scalar 10), .update],
    [.assign 5 (.scalar 5), .mutate 2 (.set []), .update, .mutate 2 (.set [1]), .update],
    [.update],
    [.assign 5 (.scalar 5), .assign 7 .none, .update, .update],
    [.assign 5 (.scalar 5), .assign 4 (.map (Dict.empty.set 1 none)), .update],
    [.assign 5 (.scalar 5), .assign 0 (.scalar 9), .update],
    [.assign 5 (.scalar 5), .assign 6 (.scalar 15), .update]]

theorem row_differs : (lostTrack.map fun acts =>
      let s := run table.step (table.constructInstance (oneRow .none) fun _ => 1) acts
      (s.updated, table.synced s)) = List.replicate 7 (true, false) := by
  decide +kernel

end CqlDriver.Mapper
