import CqlDriver.Mapper.Batch

/-! # The parameters of a batch -/

namespace CqlDriver.Mapper

open Lib List

variable {α : Type} [LinearOrder α]

/-! ## Placeholders of a text -/

@[simp] theorem placeholders_nil : placeholders [] = [] := rfl

@[simp] theorem placeholders_text (s : String) (t : Text) : placeholders (.text s :: t) = placeholders t := rfl

variable {t : Text}

@[simp] theorem placeholders_placeholder {id : Nat} : placeholders (.placeholder id :: t) = id :: placeholders t := rfl

@[simp] theorem placeholders_append (t' : Text) : placeholders (t ++ t') = placeholders t ++ placeholders t' :=
  filterMap_append

@[simp] theorem placeholders_join (separator : String) (txs : List Text) :
    placeholders (join separator txs) = txs.flatMap placeholders := by
  unfold join
  induction txs with
  | nil => rfl
  | cons t txs ih =>
    cases txs with
    | nil => simp
    | cons t' txs =>
      simp [ih]

/-! ## One clause -/

structure Fills (size : Nat) (text : Nat → Text) (updateContext : Nat → Context α → Context α)
    (values : List (Param α)) : Prop where
  placeholders : ∀ id, placeholders (text id) = List.range' id size
  length : values.length = size
  context : ∀ id ctx, updateContext id ctx = ctx.setAll ((List.range' id size).zip values)

variable {v : Param α} {β : Type}

omit [LinearOrder α] in
theorem fills_one {text : Nat → Text} {updateContext : Nat → Context α → Context α}
    (ht : ∀ id, placeholders (text id) = [id]) (hctx : ∀ id ctx, updateContext id ctx = ctx.set id v) :
    Fills 1 text updateContext [v] :=
  ⟨ht, rfl, hctx⟩

omit [LinearOrder α] in
theorem fills_two {text : Nat → Text} {updateContext : Nat → Context α → Context α} {w : Param α}
    (ht : ∀ id, placeholders (text id) = [id, id + 1])
    (hctx : ∀ id ctx, updateContext id ctx = (ctx.set id v).set (id + 1) w) : Fills 2 text updateContext [v, w] :=
  ⟨ht, rfl, hctx⟩

variable {l : List β}

omit [LinearOrder α] in
theorem foldl_zipIdx_set (f : β → Param α) : ∀ (id n : Nat) (ctx : Context α),
    (l.zipIdx n).foldl (fun ctx p => ctx.set (id + p.2) (f p.1)) ctx =
      ctx.setAll ((range' (id + n) l.length).zip (l.map f)) := by
  induction l with
  | nil => exact fun _ _ _ => rfl
  | cons x l ih =>
    intro id n ctx
    rw [zipIdx_cons, foldl_cons, ih]
    rfl

theorem flatMap_range_placeholder {id n : Nat} : (range n).flatMap (fun i => [id + i]) = range' id n := by
  rw [range'_eq_map_range, map_eq_flatMap]

theorem FilterValue.fills (v : FilterValue α) :
    Fills v.getContextSize (fun id => v.text id) (fun id ctx => v.updateContext id ctx) v.values := by
  cases v with
  | token t =>
    have hlen : (t.columns.zip t.values).length = t.values.length := by
      rw [length_zip, t.length_eq, Nat.min_self]
    refine ⟨fun id => ?_, ?_, fun id ctx => ?_⟩
    · simp [text, getContextSize, flatMap_map, flatMap_range_placeholder]
    · simp [values, getContextSize, t.length_eq]
    simp only [updateContext]
    rw [foldl_zipIdx_set (fun p : Column α × Value α => .value (p.1.toDatabase p.2)), hlen, map_zip_eq_zipWith]
    rfl
  | _ => exact fills_one (fun _ => rfl) fun _ _ => rfl

theorem orNone_ne_nil : orNone l ≠ some [] := by
  unfold orNone
  split
  · nofun
  rename_i h
  rintro ⟨⟩
  exact h rfl

theorem intBool_some (h : some l ≠ some []) : intBool (some l) = 1 := by
  cases l with
  | nil => exact absurd rfl h
  | cons => rfl

namespace SetUpdate

variable {op : Option Operation} {prev v : Option (List α)}

variable (h : (analyze v op prev).getContextSize prev ≠ 0)
include h

theorem analyze_cases : (prev = none ∧ analyze v op prev = {}) ∨
    (prev = none ∧ ∃ elems, analyze v op prev = { assignments := some elems }) ∨
    ∃ additions removals, analyze v op prev = { additions, removals } ∧
      additions ≠ some [] ∧ removals ≠ some [] ∧ ¬ (prev.isNone ∧ additions.isNone ∧ removals.isNone) := by
  cases v with
  | none =>
    cases prev with
    | none => exact .inl ⟨rfl, rfl⟩
    | some p => exact absurd rfl h
  | some elems =>
    unfold analyze at h ⊢
    simp only at h ⊢
    split_ifs at h ⊢ with hs
    · cases prev with
      | none => cases hs
      | some p => exact absurd rfl h
    split at h
    · refine .inr (.inr ⟨some elems, none, rfl, ?_, by simp, by simp⟩)
      rintro ⟨⟩
      exact h (by simp [getContextSize, intBool])
    · refine .inr (.inr ⟨none, some elems, rfl, by simp, ?_, by simp⟩)
      rintro ⟨⟩
      exact h (by simp [getContextSize, intBool])
    · exact .inr (.inl ⟨rfl, elems, rfl⟩)
    · exact .inr (.inr ⟨_, _, rfl, orNone_ne_nil, orNone_ne_nil, by simp⟩)

theorem fills (field : String) :
    Fills ((analyze v op prev).getContextSize prev) ((analyze v op prev).text prev field)
      ((analyze v op prev).updateContext prev) ((analyze v op prev).values prev) := by
  rcases analyze_cases h with ⟨rfl, hu⟩ | ⟨rfl, elems, hu⟩ | ⟨additions, removals, hu, hadd, hrm, hun⟩
  · rw [hu]
    exact fills_one (fun _ => rfl) fun _ _ => rfl
  · rw [hu]
    have hs : getContextSize none ({ assignments := some elems } : SetUpdate α) = 1 := by
      unfold getContextSize intBool
      cases elems <;> simp
    rw [hs]
    exact fills_one (fun _ => rfl) fun _ _ => rfl
  rw [hu] at h ⊢
  have hs : getContextSize prev { additions, removals } = intBool additions + intBool removals := by
    unfold getContextSize
    rw [if_neg (by simpa [intBool] using hun)]
    simp [intBool]
  rw [hs] at h ⊢
  cases additions with
  | none =>
    cases removals with
    | none => exact absurd rfl h
    | some removals =>
      rw [intBool_some hrm]
      exact ⟨fun _ => by simp [text, changeText, intBool], by simp [values, intBool],
        fun _ _ => by simp [updateContext, values, intBool, Dict.setAll]⟩
  | some additions =>
    rw [intBool_some hadd]
    cases removals with
    | none =>
      exact ⟨fun _ => by simp [text, changeText, intBool], by simp [values, intBool],
        fun _ _ => by simp [updateContext, values, intBool, Dict.setAll]⟩
    | some removals =>
      have hv : values prev { additions := some additions, removals := some removals } =
          [.value (.set additions), .value (.set removals)] := by simp [values]
      rw [intBool_some hrm, hv]
      exact fills_two (fun _ => by simp [text, changeText]) fun _ _ => by simp [updateContext]

end SetUpdate

namespace ListUpdate

omit [LinearOrder α] in
theorem found_cases (x : List α) {prepend append : Option (List α)} (hpre : prepend ≠ some [])
    (happ : append ≠ some []) : (∃ xs, found x (prepend, append) = { assignments := some xs }) ∨
    ∃ prepend' append', found x (prepend, append) = { prepend := prepend', append := append' } ∧
      prepend' ≠ some [] ∧ append' ≠ some [] := by
  cases prepend <;> cases append
  · exact .inl ⟨x, rfl⟩
  all_goals exact .inr ⟨_, _, rfl, hpre, happ⟩

variable {op : Option Operation} {prev v : Option (List α)}

variable (h : (analyze v op prev).getContextSize ≠ 0)
include h

theorem analyze_cases : (∃ xs, analyze v op prev = { assignments := some xs }) ∨
    ∃ prepend append, analyze v op prev = { prepend, append } ∧ prepend ≠ some [] ∧ append ≠ some [] := by
  cases v with
  | none => exact absurd rfl h
  | some xs =>
    unfold analyze at h ⊢
    simp only at h ⊢
    split_ifs at h ⊢
    · exact absurd rfl h
    split at h
    · refine .inr ⟨none, some xs, rfl, by simp, ?_⟩
      rintro ⟨⟩
      exact h rfl
    · refine .inr ⟨some xs, none, rfl, ?_, by simp⟩
      rintro ⟨⟩
      exact h rfl
    · exact .inl ⟨xs, rfl⟩
    rename_i p _ _ _
    split_ifs
    · exact .inl ⟨xs, rfl⟩
    · exact .inl ⟨xs, rfl⟩
    rcases search_spec xs p _ with hn | ⟨i, -, hp⟩
    · rw [hn]
      exact .inl ⟨xs, rfl⟩
    rw [hp]
    exact found_cases xs orNone_ne_nil orNone_ne_nil

theorem fills (field : String) : Fills (analyze v op prev).getContextSize ((analyze v op prev).text field)
      (analyze v op prev).updateContext (analyze v op prev).values := by
  rcases analyze_cases h with ⟨xs, hu⟩ | ⟨prepend, append, hu, hpre, happ⟩
  · rw [hu]
    exact fills_one (fun _ => rfl) fun _ _ => rfl
  rw [hu]
  unfold getContextSize
  cases prepend with
  | none =>
    cases append with
    | none => exact ⟨fun _ => rfl, rfl, fun _ _ => rfl⟩
    | some append =>
      rw [intBool_some happ]
      exact ⟨fun _ => by simp [text, changeText, intBool], by simp [values, intBool],
        fun _ _ => by simp [updateContext, values, intBool, Dict.setAll]⟩
  | some prepend =>
    rw [intBool_some hpre]
    cases append with
    | none =>
      exact ⟨fun _ => by simp [text, intBool], by simp [values, intBool],
        fun _ _ => by simp [updateContext, values, intBool, Dict.setAll]⟩
    | some append =>
      rw [intBool_some happ]
      exact fills_two (fun _ => rfl) fun _ _ => rfl

end ListUpdate

namespace MapUpdate

theorem flatMap_range_pair {id n : Nat} :
    (range n).flatMap (fun i => [id + 2 * i, id + 2 * i + 1]) = range' id (n * 2) := by
  induction n with
  | zero => rfl
  | succ n ih =>
    rw [range_succ, flatMap_append, ih, Nat.succ_mul, ← range'_append_1, Nat.mul_comm]
    rfl

omit [LinearOrder α] in
theorem foldl_zipIdx_set_pair {β : Type} (f g : β → Param α) {l : List β} : ∀ (id n : Nat) (ctx : Context α),
    (l.zipIdx n).foldl (fun ctx p => (ctx.set (id + 2 * p.2) (f p.1)).set (id + 2 * p.2 + 1) (g p.1)) ctx =
      ctx.setAll ((range' (id + 2 * n) (l.length * 2)).zip (l.flatMap fun k => [f k, g k])) := by
  induction l with
  | nil => exact fun _ _ _ => rfl
  | cons x l ih =>
    intro id n ctx
    have hlen : (x :: l).length * 2 = l.length * 2 + 2 := by
      rw [length_cons]
      omega
    rw [zipIdx_cons, foldl_cons, ih, hlen]
    rfl

theorem analyze_cases (x : Dict α (Option α)) (o : Option Operation)
    (old : Option (Dict α (Option α))) : (∃ updates, analyze x o old = { updates }) ∨
      analyze x o old = { removals := some x.keys } := by
  unfold analyze
  split
  · exact .inl ⟨_, rfl⟩
  · exact .inr rfl
  · exact .inl ⟨_, rfl⟩
  · exact .inl ⟨_, rfl⟩

variable {prev : Option (Dict α (Option α))}

variable {x : Dict α (Option α)}

theorem fills_updates (updates : Option (List α)) (hasg : isAssignment prev ({ updates } : MapUpdate α) = false)
    {field : String} :
    Fills (getContextSize prev { updates }) (text prev { updates } field)
      (updateContext prev { updates } x) (values prev { updates } x) := by
  have hs : getContextSize prev ({ updates } : MapUpdate α) = (updates.getD []).length * 2 := by
    simp [getContextSize, hasg, intBool]
  rw [hs]
  refine ⟨fun id => ?_, ?_, fun id ctx => ?_⟩
  · simp [text, hasg, flatMap_map, flatMap_range_pair]
  · simp [values, hasg]
  simp only [updateContext, values, hasg]
  exact foldl_zipIdx_set_pair (fun k => .value _) (fun k => .value (.ofOption ((x.get? k).getD none))) id 0 ctx

theorem fills {o : Option Operation} (h : (analyze x o prev).getContextSize prev ≠ 0) (field : String) :
    Fills ((analyze x o prev).getContextSize prev) ((analyze x o prev).text prev field)
      ((analyze x o prev).updateContext prev x) ((analyze x o prev).values prev x) := by
  by_cases hasg : (analyze x o prev).isAssignment prev
  · have hs : (analyze x o prev).getContextSize prev = 1 := by
      simp [getContextSize, hasg]
    have hv : (analyze x o prev).values prev x = [.value (.map Dict.empty)] := by
      simp [values, hasg]
    rw [hs, hv]
    exact fills_one (fun _ => by simp [text, hasg, assignText]) fun _ _ => by simp [updateContext, hasg]
  rw [Bool.not_eq_true] at hasg
  rcases analyze_cases x o prev with ⟨upds, hu⟩ | hu
  · rw [hu] at hasg ⊢
    exact fills_updates upds hasg
  rw [hu] at h hasg ⊢
  have hk : some x.keys ≠ some [] := by
    intro hnil
    rw [hnil] at h hasg
    exact h (by simp [getContextSize, hasg, intBool])
  have hs : getContextSize prev ({ removals := some x.keys } : MapUpdate α) = 1 := by
    simp [getContextSize, intBool_some hk]
  have hv : values prev ({ removals := some x.keys } : MapUpdate α) x =
      [.value (.set x.keys)] := by simp [values, hasg]
  rw [hs, hv]
  exact fills_one (fun _ => by simp [text, hasg, changeText]) fun _ _ => by simp [updateContext, hasg]

end MapUpdate

theorem Clause.fills {c : Clause α} (h : c.isUpdate ∨ c.isDelete) :
    Fills c.getContextSize (fun id => c.text id) (fun id ctx => c.updateContext id ctx) c.values := by
  cases c with
  | assignment field x | counter field x old => exact fills_one (fun _ => rfl) fun _ _ => rfl
  | container field u =>
    have hs : u.getContextSize ≠ 0 := by simpa [isUpdate, isDelete] using h
    cases u with
    | set x o old => exact SetUpdate.fills hs field
    | list x o old => exact ListUpdate.fills hs field
    | map x o old => exact MapUpdate.fills hs field
  | fieldDelete field => exact ⟨fun _ => rfl, rfl, fun _ _ => rfl⟩
  | mapDelete field x old =>
    refine ⟨fun id => ?_, ?_, fun id ctx => ?_⟩
    · simp [text, getContextSize, flatMap_map, flatMap_range_placeholder]
    · simp [values, getContextSize]
    · exact foldl_zipIdx_set (fun k => .value _) id 0 ctx

/-! ## The ids of a statement -/

section Ids

variable (objs : Objects α)

def Objects.valueOf (ref : Ref) : Ref := (objs.whereClause ref).queryValue

def Objects.whereSize (ref : Ref) : Nat := (objs.compared ref).getContextSize

variable {refs : List Ref}

omit [LinearOrder α] in
theorem numberWheres_spec : ∀ (ids : ContextIds) (i : Nat), objs.numberWheres ids i refs =
      ({ queryValue := number objs.valueOf objs.whereSize ids.queryValue i refs
         whereClause := number id objs.whereSize ids.whereClause i refs
         conditional := ids.conditional }, i + (refs.map objs.whereSize).sum) := by
  induction refs with
  | nil => exact fun _ _ => rfl
  | cons ref refs ih =>
    intro ids i
    rw [Objects.numberWheres, ih]
    simp only [map_cons, sum_cons, ← Nat.add_assoc]
    rfl

theorem numberConditionals_spec : ∀ (ids : ContextIds) (i : Nat), numberConditionals ids i refs =
      ({ ids with conditional := number id (fun _ => 1) ids.conditional i refs }, i + refs.length) := by
  induction refs with
  | nil => exact fun _ _ => rfl
  | cons ref refs ih =>
    intro ids i
    rw [numberConditionals, ih]
    simp only [Nat.add_assoc, Nat.add_comm 1]
    rfl

theorem numberOwn_spec (cls : List (Clause α)) : ∀ i : Nat,
    numberOwn i cls = ((starts i (cls.map Clause.getContextSize)).zip cls,
      i + (cls.map Clause.getContextSize).sum) := by
  induction cls with
  | nil => exact fun _ => rfl
  | cons c cls ih =>
    intro i
    simp only [numberOwn, ih, starts, map_cons, zip_cons_cons, sum_cons, Nat.add_assoc]

variable (ids : ContextIds) (i : Nat) (s : Statement α)

def ownStart : Nat := i + (s.whereClauses.map objs.whereSize).sum

def conditionalStart : Nat := ownStart objs i s + (s.own.map Clause.getContextSize).sum

theorem updateContextId_eq : updateContextId objs ids i s =
      { statement := s
        ids :=
          { queryValue := number objs.valueOf objs.whereSize ids.queryValue i s.whereClauses
            whereClause := number id objs.whereSize ids.whereClause i s.whereClauses
            conditional := number id (fun _ => 1) ids.conditional (conditionalStart objs i s) s.conditionals }
        own := (starts (ownStart objs i s) (s.own.map Clause.getContextSize)).zip s.own } := by
  unfold updateContextId
  simp only [numberWheres_spec, numberOwn_spec, numberConditionals_spec]
  rfl

end Ids

/-! ## The clauses of a statement -/

structure Rendered (α : Type) where
  text : Text
  values : List (Param α)

def Rendered.placeholders (c : Rendered α) : List Nat := Mapper.placeholders c.text

def Rendered.entries (c : Rendered α) : List (Nat × Param α) := c.placeholders.zip c.values

namespace Objects

variable (objs : Objects α)

def whereValues (ref : Ref) : List (Param α) :=
  if (objs.whereClause ref).operator = .isIn then [.inQuoter (objs.compared ref)] else (objs.compared ref).values

def renderedWhere (ids : ContextIds) (ref : Ref) : Rendered α := ⟨objs.whereText ids ref, objs.whereValues ref⟩

def renderedConditional (ids : ContextIds) (ref : Ref) : Rendered α :=
  ⟨objs.conditionalText ids ref, [.value (objs.conditional ref).value]⟩

end Objects

def renderedOwn (c : Nat × Clause α) : Rendered α := ⟨c.2.text c.1, c.2.values⟩

def Turn.clauses (objs : Objects α) (t : Turn α) : List (Rendered α) :=
  t.statement.whereClauses.map (objs.renderedWhere t.ids) ++ t.own.map renderedOwn ++
    t.statement.conditionals.map (objs.renderedConditional t.ids)

/-- Distinct value objects and conditionals, and an `INSERT` with assignments only. -/
structure Bindable (objs : Objects α) (s : Statement α) : Prop where
  values : (s.whereClauses.map objs.valueOf).Nodup
  conditionals : s.conditionals.Nodup
  inSize : ∀ ref ∈ s.whereClauses, (objs.whereClause ref).operator = .isIn → objs.whereSize ref = 1
  insert : ∀ i, s = .insert i → i.whereClauses = [] ∧ i.assignments ≠ []

section Turn

variable (objs : Objects α) (s : Statement α) (ids : ContextIds) (i : Nat)

theorem own_fills {c : Clause α} (hc : c ∈ s.own) :
    Fills c.getContextSize (fun id => c.text id) (fun id ctx => c.updateContext id ctx) c.values := by
  apply Clause.fills
  cases s with
  | insert s =>
    obtain ⟨a, -, rfl⟩ := mem_map.mp hc
    exact .inl rfl
  | update s => exact .inl (s.isUpdate c hc)
  | delete s => exact .inr (s.isDelete c hc)

theorem placeholders_where (objs : Objects α) (ids : ContextIds) (ref : Ref) :
    (objs.renderedWhere ids ref).placeholders = range' (ids.queryValue (objs.valueOf ref)) (objs.whereSize ref) :=
  (objs.compared ref).fills.placeholders _

theorem own_turn : (updateContextId objs ids i s).own.map Prod.fst =
      starts (ownStart objs i s) (s.own.map Clause.getContextSize) ∧
    (updateContextId objs ids i s).own.map Prod.snd = s.own := by
  have hlen : (starts (ownStart objs i s) (s.own.map Clause.getContextSize)).length = s.own.length := by
    rw [length_starts, length_map]
  rw [updateContextId_eq]
  exact ⟨map_fst_zip hlen.le, map_snd_zip hlen.ge⟩

def statementSize (objs : Objects α) (s : Statement α) : Nat :=
  (s.whereClauses.map objs.whereSize).sum + (s.own.map Clause.getContextSize).sum + s.conditionals.length

variable {objs s}

section

variable (hok : Bindable objs s)
include hok

theorem placeholders_turn : ((updateContextId objs ids i s).clauses objs).flatMap Rendered.placeholders =
      range' i (statementSize objs s) := by
  have hw : (s.whereClauses.map (objs.renderedWhere (updateContextId objs ids i s).ids)).flatMap
      Rendered.placeholders = range' i (s.whereClauses.map objs.whereSize).sum := by
    rw [flatMap_map]
    apply flatMap_starts _ fun ref _ => placeholders_where objs _ ref
    rw [updateContextId_eq]
    exact map_number hok.values ids.queryValue i
  have hown : ((updateContextId objs ids i s).own.map renderedOwn).flatMap Rendered.placeholders =
      range' (ownStart objs i s) (s.own.map Clause.getContextSize).sum := by
    obtain ⟨hfst, hsnd⟩ := own_turn objs s ids i
    have hs : (updateContextId objs ids i s).own.map (fun c => c.2.getContextSize) =
        s.own.map Clause.getContextSize := by
      rw [← hsnd, map_map]
      rfl
    rw [flatMap_map, ← hs]
    apply flatMap_starts Prod.fst
    · intro c hc
      exact (own_fills s (hsnd ▸ mem_map_of_mem hc)).placeholders c.1
    · rw [hfst, hs]
  have hcn : (s.conditionals.map (objs.renderedConditional (updateContextId objs ids i s).ids)).flatMap
      Rendered.placeholders = range' (conditionalStart objs i s) s.conditionals.length := by
    have hsum : (s.conditionals.map fun _ => 1).sum = s.conditionals.length := by simp
    rw [flatMap_map, ← hsum]
    apply flatMap_starts (updateContextId objs ids i s).ids.conditional
    · intro ref _
      rfl
    rw [updateContextId_eq]
    exact map_number (by rw [map_id]; exact hok.conditionals) ids.conditional _
  unfold Turn.clauses
  rw [flatMap_append, flatMap_append]
  refine (congrArg₂ (· ++ ·) (congrArg₂ (· ++ ·) hw hown) hcn).trans ?_
  unfold conditionalStart ownStart statementSize
  rw [range'_append_1, Nat.add_assoc, range'_append_1]

theorem whereClause_id {ref : Ref} (href : ref ∈ s.whereClauses) : (updateContextId objs ids i s).ids.whereClause ref =
      (updateContextId objs ids i s).ids.queryValue (objs.valueOf ref) := by
  have hc : (s.whereClauses.map id).Nodup := by
    rw [map_id]
    exact hok.values.of_map
  rw [updateContextId_eq]
  exact map_inj_left.mp ((map_number hc _ i).trans (map_number hok.values _ i).symm) ref href

theorem length_where {ref : Ref} (href : ref ∈ s.whereClauses) :
    (objs.whereValues ref).length = objs.whereSize ref := by
  unfold Objects.whereValues
  split
  · rename_i hin
    exact (hok.inSize ref href hin).symm
  · exact (objs.compared ref).fills.length

theorem length_clause {c : Rendered α} (hc : c ∈ (updateContextId objs ids i s).clauses objs) :
    c.placeholders.length = c.values.length := by
  unfold Turn.clauses at hc
  rw [mem_append, mem_append] at hc
  rcases hc with (hc | hc) | hc
  · obtain ⟨ref, href, rfl⟩ := mem_map.mp hc
    rw [placeholders_where, length_range']
    exact (length_where hok href).symm
  · obtain ⟨own, hown, rfl⟩ := mem_map.mp hc
    have hf := own_fills s ((own_turn objs s ids i).2 ▸ mem_map_of_mem hown)
    exact (congrArg length (hf.placeholders own.1)).trans (length_range'.trans hf.length.symm)
  obtain ⟨ref, -, rfl⟩ := mem_map.mp hc
  rfl

end

omit [LinearOrder α] in
theorem keys_entries {cls : List (Rendered α)} (h : ∀ c ∈ cls, c.placeholders.length = c.values.length) :
    (cls.flatMap Rendered.entries).map Prod.fst = cls.flatMap Rendered.placeholders := by
  rw [map_flatMap]
  exact flatMap_congr fun c hc => map_fst_zip (h c hc).le

theorem entries_getContext (hok : Bindable objs s) : ((updateContextId objs ids i s).getContext objs).entries =
      ((updateContextId objs ids i s).clauses objs).flatMap Rendered.entries := by
  have hctx : (updateContextId objs ids i s).getContext objs =
      Dict.empty.setAll (((updateContextId objs ids i s).clauses objs).flatMap Rendered.entries) := by
    unfold Turn.getContext Turn.clauses
    rw [flatMap_append, flatMap_append, Dict.setAll_append, Dict.setAll_append]
    have hw : ∀ ref ∈ s.whereClauses, ∀ ctx, objs.whereUpdateContext (updateContextId objs ids i s).ids ctx ref =
          ctx.setAll (objs.renderedWhere (updateContextId objs ids i s).ids ref).entries := by
      intro ref href ctx
      unfold Rendered.entries
      rw [placeholders_where]
      unfold Objects.whereUpdateContext Objects.renderedWhere Objects.whereValues
      by_cases hin : (objs.whereClause ref).operator = .isIn
      · simp only [hin, hok.inSize ref href hin, whereClause_id ids i hok href]
        rfl
      simp only [hin]
      exact (objs.compared ref).fills.context _ ctx
    have hown : ∀ c ∈ (updateContextId objs ids i s).own, ∀ ctx,
        c.2.updateContext c.1 ctx = ctx.setAll (renderedOwn c).entries := by
      intro c hc ctx
      have hf := own_fills s ((own_turn objs s ids i).2 ▸ mem_map_of_mem hc)
      rw [show c.2.updateContext c.1 ctx = _ from hf.context c.1 ctx, ← hf.placeholders]
      rfl
    have hcn : ∀ ref ∈ s.conditionals, ∀ ctx, objs.conditionalUpdateContext (updateContextId objs ids i s).ids ctx ref =
          ctx.setAll (objs.renderedConditional (updateContextId objs ids i s).ids ref).entries := fun _ _ _ => rfl
    have hs : (updateContextId objs ids i s).statement = s := rfl
    rw [hs, flatMap_map, flatMap_map, flatMap_map]
    dsimp only
    rw [foldl_eq_setAll hw, foldl_eq_setAll hown, foldl_eq_setAll hcn]
  have hk : ((((updateContextId objs ids i s).clauses objs).flatMap Rendered.entries).map Prod.fst).Nodup := by
    rw [keys_entries fun c hc => length_clause ids i hok hc, placeholders_turn ids i hok]
    exact nodup_range'
  rw [hctx]
  exact Dict.entries_setAll_fresh _ _ hk

end Turn

/-! ## The text of a statement -/

def Turn.hidden (objs : Objects α) (t : Turn α) : List (Rendered α) :=
  match t.statement with
  | .insert s => s.whereClauses.map (objs.renderedWhere t.ids)
  | _ => []

def Turn.shown (objs : Objects α) (t : Turn α) : List (Rendered α) :=
  match t.statement with
  | .insert _ => t.own.map renderedOwn
  | _ => t.clauses objs

theorem clauses_eq (objs : Objects α) (t : Turn α) : t.clauses objs = t.hidden objs ++ t.shown objs := by
  unfold Turn.hidden Turn.shown
  cases h : t.statement with
  | insert s => simp [Turn.clauses, h, Statement.whereClauses, Statement.conditionals]
  | update s => rfl
  | delete s => rfl

@[simp] theorem flatMap_placeholders_option (word : String) (n : Option Int) :
    (option word n).flatMap placeholders = [] := by
  unfold option
  cases n with
  | none => rfl
  | some n =>
    simp only
    split <;> rfl

@[simp] theorem flatMap_placeholders_flag (set : Bool) (words : String) :
    (flag set words).flatMap placeholders = [] := by
  unfold flag
  split <;> rfl

@[simp] theorem flatMap_placeholders_usingOptions (bef aft : String) (options : List Text) :
    (usingOptions bef aft options).flatMap placeholders = options.flatMap placeholders := by
  unfold usingOptions
  split
  · rename_i h
    rw [h]
  · simp

theorem flatMap_placeholders_whereTexts {objs : Objects α} {t : Turn α} : (t.whereTexts objs).flatMap placeholders =
      (t.statement.whereClauses.map (objs.renderedWhere t.ids)).flatMap Rendered.placeholders := by
  unfold Turn.whereTexts
  split
  · rename_i h
    rw [h]
    rfl
  simp [flatMap_map]
  rfl

theorem flatMap_placeholders_conditionalTexts {objs : Objects α} {t : Turn α} :
    (t.conditionalTexts objs).flatMap placeholders =
      (t.statement.conditionals.map (objs.renderedConditional t.ids)).flatMap Rendered.placeholders := by
  unfold Turn.conditionalTexts
  split
  · rename_i h
    rw [h]
    rfl
  simp [flatMap_map]
  rfl

theorem own_insert {objs : Objects α} {ids : ContextIds} {i : Nat} (s : InsertStatement α) {c : Nat × Clause α}
    (hc : c ∈ (updateContextId objs ids i (.insert s)).own) : (renderedOwn c).placeholders = [c.1] := by
  have hmem : c.2 ∈ (Statement.insert s).own := (own_turn objs _ ids i).2 ▸ mem_map_of_mem hc
  obtain ⟨a, -, ha⟩ := mem_map.mp hmem
  unfold renderedOwn
  rw [← ha]
  rfl

theorem flatMap_placeholders_own (own : List (Nat × Clause α)) :
    (own.map fun c => c.2.text c.1).flatMap placeholders = (own.map renderedOwn).flatMap Rendered.placeholders := by
  rw [flatMap_map, flatMap_map]
  rfl

theorem mem_placeholders_text (objs : Objects α) (ids : ContextIds) (i : Nat) (s : Statement α) {text : Text}
    (h : (updateContextId objs ids i s).text objs = some text) (id : Nat) :
    id ∈ placeholders text ↔ ∃ c ∈ (updateContextId objs ids i s).shown objs, id ∈ c.placeholders := by
  rw [← mem_flatMap]
  have hs : (updateContextId objs ids i s).statement = s := rfl
  unfold Turn.text at h
  unfold Turn.shown
  rw [hs] at h ⊢
  cases s with
  | insert s =>
    simp only at h
    split at h
    · cases h
    cases h
    have hown : (updateContextId objs ids i (.insert s)).own.flatMap (fun c => [c.1]) =
        ((updateContextId objs ids i (.insert s)).own.map renderedOwn).flatMap Rendered.placeholders := by
      rw [flatMap_map]
      exact flatMap_congr fun c hc => (own_insert s hc).symm
    rw [← hown]
    simp
  | update s =>
    cases h
    have hown := flatMap_placeholders_own (updateContextId objs ids i (.update s)).own
    unfold Turn.clauses
    simp only [placeholders_join, flatMap_append, flatMap_cons,
      flatMap_placeholders_whereTexts, flatMap_placeholders_conditionalTexts, hown, flatMap_placeholders_flag,
      flatMap_placeholders_usingOptions, flatMap_placeholders_option, mem_append]
    tauto
  | delete s =>
    cases h
    have hown := flatMap_placeholders_own (updateContextId objs ids i (.delete s)).own
    have hfs : (if s.fields = [] then []
        else [join ", " ((updateContextId objs ids i (.delete s)).own.map fun c => c.2.text c.1)]).flatMap placeholders =
          ((updateContextId objs ids i (.delete s)).own.map renderedOwn).flatMap Rendered.placeholders := by
      rw [← hown]
      split
      · rename_i hnil
        have hlen := congrArg length (own_turn objs (.delete s) ids i).2
        rw [length_map, show (Statement.delete s).own = s.fields from rfl, hnil] at hlen
        rw [length_eq_zero_iff.mp hlen]
        rfl
      · simp
    unfold Turn.clauses
    simp only [placeholders_join, flatMap_append, hfs,
      flatMap_placeholders_whereTexts, flatMap_placeholders_conditionalTexts, flatMap_placeholders_flag,
      flatMap_placeholders_usingOptions, flatMap_placeholders_option, mem_append]
    tauto

end CqlDriver.Mapper
