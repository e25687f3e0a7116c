import CqlDriver.Lib.Traversal
import CqlDriver.Mapper.Binding
import Mathlib.Data.List.Perm.Basic

/-! # The parameters of a batch -/

namespace CqlDriver.Mapper

open Lib List Option Turn

variable {α : Type} [LinearOrder α]

/-! ## The rounds of `execute` -/

section Rounds

variable (objs : Objects α)

def turns : ContextIds → Nat → List (Statement α) → List (Turn α)
  | _, _, [] => []
  | ids, i, s :: rest =>
    let t := updateContextId objs ids i s
    t :: turns t.ids (i + (t.getContext objs).entries.length) rest

variable {queries : List (Statement α)}

theorem mem_turns {t : Turn α} : ∀ {ids : ContextIds} {i : Nat},
    t ∈ turns objs ids i queries → ∃ s ∈ queries, ∃ ids' j, t = updateContextId objs ids' j s := by
  induction queries with
  | nil => exact fun h => nomatch h
  | cons s queries ih =>
    intro ids i h
    rcases mem_cons.mp h with rfl | h
    · exact ⟨s, mem_cons_self, ids, i, rfl⟩
    obtain ⟨s', hs', ht⟩ := ih h
    exact ⟨s', mem_cons_of_mem s hs', ht⟩

theorem exists_turn {s : Statement α} (h : s ∈ queries) : ∀ (ids : ContextIds) (i : Nat),
    ∃ ids' j, updateContextId objs ids' j s ∈ turns objs ids i queries := by
  induction queries with
  | nil => exact nomatch h
  | cons s' queries ih =>
    intro ids i
    rcases mem_cons.mp h with rfl | h
    · exact ⟨ids, i, mem_cons_self⟩
    obtain ⟨ids', j, ht⟩ := ih h (updateContextId objs ids i s').ids
      (i + ((updateContextId objs ids i s').getContext objs).entries.length)
    exact ⟨ids', j, mem_cons_of_mem _ ht⟩

def contextEntries (ts : List (Turn α)) : List (Nat × Param α) := ts.flatMap fun t => (t.getContext objs).entries

theorem contextEntries_cons {t : Turn α} {ts : List (Turn α)} :
    contextEntries objs (t :: ts) = (t.getContext objs).entries ++ contextEntries objs ts := rfl

theorem foldlM_executeRound (queries : List (Statement α)) : ∀ l : Loop α,
    (queries.foldlM (executeRound objs) l).map (fun l' => (l'.queryList, l'.parameters)) =
      ((turns objs l.ids l.ctxCounter queries).mapM (Turn.text objs)).map fun txs =>
        (l.queryList ++ txs.map (.text "  " :: ·),
          l.parameters.setAll (contextEntries objs (turns objs l.ids l.ctxCounter queries))) := by
  induction queries with
  | nil =>
    simp [turns, contextEntries, Dict.setAll]
  | cons s queries ih =>
    intro l
    rw [foldlM_cons, bind_eq_bind]
    unfold turns
    rw [mapM_cons, bind_eq_bind]
    cases ht : (updateContextId objs l.ids l.ctxCounter s).text objs with
    | none =>
      have hr : executeRound objs l s = none := congrArg (Option.map _) ht
      rw [hr]
      rfl
    | some text =>
      have hr : executeRound objs l s = _ := congrArg (Option.map _) ht
      rw [hr, map_some, bind_some, ih, contextEntries_cons, Dict.setAll_append]
      cases (turns objs _ _ queries).mapM (Turn.text objs) with
      | none => rfl
      | some txs => simp

theorem execute_eq {b : BatchQuery α} (hne : b.queries ≠ []) (ids : ContextIds) :
    b.execute objs ids = ((turns objs ids 0 b.queries).mapM (Turn.text objs)).map fun txs =>
      some { text := join "\n" (b.opener :: txs.map (.text "  " :: ·) ++ [[.text "APPLY BATCH;"]])
             parameters := Dict.empty.setAll (contextEntries objs (turns objs ids 0 b.queries)) } := by
  have hr := congrArg (Option.map fun r : List Text × Context α =>
      some (Request.mk (join "\n" (r.1 ++ [[.text "APPLY BATCH;"]])) r.2))
    (foldlM_executeRound objs b.queries { ids, queryList := [b.opener] })
  rw [Option.map_map, Option.map_map] at hr
  unfold BatchQuery.execute
  rw [if_neg hne]
  exact hr

theorem placeholders_opener (b : BatchQuery α) : placeholders b.opener = [] := by
  unfold BatchQuery.opener
  rw [placeholders_text]
  unfold option
  cases b.timestamp with
  | none => rfl
  | some n =>
    dsimp only
    split <;> rfl

end Rounds

/-! ## What is bound -/

/-- The placeholders are the keys, each with its own clause's value. -/
structure Bound (objs : Objects α) (ts : List (Turn α)) (request : Request α) : Prop where
  keys : ∀ id, id ∈ placeholders request.text ↔ id ∈ request.parameters.keys
  disjoint : (ts.flatMap (clauses objs)).Pairwise fun c c' => c.placeholders.Disjoint c'.placeholders
  values : ∀ t ∈ ts, ∀ c ∈ t.clauses objs, c.placeholders.map request.parameters.get? = c.values.map some

theorem mem_placeholders_request {objs : Objects α} {ids : ContextIds} {b : BatchQuery α} {txs : List Text}
    (htt : (turns objs ids 0 b.queries).mapM (Turn.text objs) = some txs) (id : Nat) :
    id ∈ placeholders (join "\n" (b.opener :: txs.map (.text "  " :: ·) ++ [[.text "APPLY BATCH;"]])) ↔
      ∃ c ∈ (turns objs ids 0 b.queries).flatMap (shown objs), id ∈ c.placeholders := by
  have hp : placeholders (join "\n" (b.opener :: txs.map (.text "  " :: ·) ++ [[.text "APPLY BATCH;"]])) =
      txs.flatMap placeholders := by
    rw [placeholders_join, flatMap_append, flatMap_cons, placeholders_opener, flatMap_map]
    simp
  have htr : ∀ t ∈ turns objs ids 0 b.queries, ∀ text, t.text objs = some text →
      (id ∈ placeholders text ↔ ∃ c ∈ t.shown objs, id ∈ c.placeholders) := by
    intro t ht text htx
    obtain ⟨s, -, ids', j, rfl⟩ := mem_turns objs ht
    exact mem_placeholders_text objs ids' j s htx id
  rw [hp]
  generalize turns objs ids 0 b.queries = ts at htt htr
  have hall := mapM_eq_some.mp htt
  clear hp htt
  induction hall with
  | nil => simp
  | @cons t text ts txs htx _ ih =>
    rw [forall_mem_cons] at htr
    have hr : id ∈ txs.flatMap placeholders ↔ ∃ c ∈ ts.flatMap (shown objs), id ∈ c.placeholders := ih htr.2
    rw [flatMap_cons, mem_append, htr.1 _ htx, hr, flatMap_cons]
    simp only [mem_append, or_and_right, exists_or]

/-! ## Statements whose parameters are bound -/

section Bind

variable {objs : Objects α}

theorem placeholders_turns {queries : List (Statement α)} (hok : ∀ s ∈ queries, Bindable objs s) :
    ∀ (ids : ContextIds) (i : Nat), ((turns objs ids i queries).flatMap (clauses objs)).flatMap Rendered.placeholders =
        range' i (queries.map (statementSize objs)).sum ∧ contextEntries objs (turns objs ids i queries) =
        ((turns objs ids i queries).flatMap (clauses objs)).flatMap Rendered.entries := by
  induction queries with
  | nil => exact fun _ _ => ⟨rfl, rfl⟩
  | cons s queries ih =>
    intro ids i
    rw [forall_mem_cons] at hok
    have he := entries_getContext ids i hok.1
    have hs : ((updateContextId objs ids i s).getContext objs).entries.length = statementSize objs s := by
      have hk := congrArg length (keys_entries fun c hc => length_clause ids i hok.1 (c := c) hc)
      rw [length_map, ← he, placeholders_turn ids i hok.1, length_range'] at hk
      exact hk
    obtain ⟨hn, hctx⟩ := ih hok.2 (updateContextId objs ids i s).ids _
    rw [turns, hs, flatMap_cons, flatMap_append, flatMap_append, placeholders_turn ids i hok.1, hn,
      range'_append_1, contextEntries_cons, he, hctx]
    exact ⟨rfl, rfl⟩

variable {s : Statement α}

theorem text_isSome (hok : Bindable objs s) {ids : ContextIds} {i : Nat} :
    ((updateContextId objs ids i s).text objs).isSome := by
  have hs : (updateContextId objs ids i s).statement = s := rfl
  unfold Turn.text
  rw [hs]
  cases s with
  | insert s =>
    dsimp only
    rw [if_neg (hok.insert s rfl).2]
    rfl
  | update s => rfl
  | delete s => rfl

theorem shown_eq_clauses (hok : Bindable objs s) {ids : ContextIds} {i : Nat} :
    (updateContextId objs ids i s).shown objs = (updateContextId objs ids i s).clauses objs := by
  rw [clauses_eq]
  have hs : (updateContextId objs ids i s).statement = s := rfl
  have hh : (updateContextId objs ids i s).hidden objs = [] := by
    unfold Turn.hidden
    rw [hs]
    cases s with
    | insert s =>
      dsimp only
      rw [(hok.insert s rfl).1]
      rfl
    | update s => rfl
    | delete s => rfl
  rw [hh, nil_append]

theorem bound_of_bindable {b : BatchQuery α} (hok : ∀ s ∈ b.queries, Bindable objs s) (ids : ContextIds) :
    ∃ r, b.execute objs ids = some r ∧
      ∀ request, r = some request → Bound objs (turns objs ids 0 b.queries) request := by
  by_cases hne : b.queries = []
  · exact ⟨none, if_pos hne, nofun⟩
  obtain ⟨hnm, hctx⟩ := placeholders_turns hok ids 0
  have htr : ∀ t ∈ turns objs ids 0 b.queries, ∃ s, Bindable objs s ∧ ∃ ids' j, t = updateContextId objs ids' j s := by
    intro t ht
    obtain ⟨s, hs, htr⟩ := mem_turns objs ht
    exact ⟨s, hok s hs, htr⟩
  obtain ⟨texts, htx⟩ : ∃ texts, (turns objs ids 0 b.queries).mapM (Turn.text objs) = some texts := by
    rw [← isSome_iff_exists, mapM_isSome]
    intro t ht
    obtain ⟨s, hs, ids', j, rfl⟩ := htr t ht
    exact text_isSome hs
  have hlen : ∀ c ∈ (turns objs ids 0 b.queries).flatMap (clauses objs), c.placeholders.length = c.values.length := by
    intro c hc
    obtain ⟨t, ht, hct⟩ := mem_flatMap.mp hc
    obtain ⟨s, hs, ids', j, rfl⟩ := htr t ht
    exact length_clause ids' j hs hct
  have hn : (((turns objs ids 0 b.queries).flatMap (clauses objs)).flatMap Rendered.placeholders).Nodup := by
    rw [hnm]
    exact nodup_range'
  have he : (Dict.empty.setAll (contextEntries objs (turns objs ids 0 b.queries))).entries =
      ((turns objs ids 0 b.queries).flatMap (clauses objs)).flatMap Rendered.entries := by
    rw [hctx]
    exact Dict.entries_setAll_fresh _ _ (by rw [← keys_entries hlen] at hn; exact hn)
  rw [execute_eq objs hne, htx]
  refine ⟨_, rfl, ?_⟩
  rintro request ⟨⟩
  refine ⟨?_, (nodup_flatMap.mp hn).2, ?_⟩
  · intro id
    have hsw : (turns objs ids 0 b.queries).flatMap (shown objs) =
        (turns objs ids 0 b.queries).flatMap (clauses objs) := by
      apply flatMap_congr
      intro t ht
      obtain ⟨s, hs, ids', j, rfl⟩ := htr t ht
      exact shown_eq_clauses hs
    rw [mem_placeholders_request htx, hsw, ← mem_flatMap, ← keys_entries hlen, ← he]
    rfl
  · intro t ht c hc
    exact map_get?_of_entries hlen he (mem_flatMap.mpr ⟨t, ht, hc⟩)

end Bind

/-! ## Statements of a batch whose parameters are bound -/

section Needed

variable {objs : Objects α} {s : Statement α} {ids : ContextIds} {i : Nat}

variable {ref : Ref}

omit [LinearOrder α] in
theorem whereSize_pos {objs : Objects α} : 0 < objs.whereSize ref := by
  unfold Objects.whereSize FilterValue.getContextSize
  split
  · rename_i t _
    rw [t.length_eq]
    exact length_pos_of_ne_nil t.columns_ne
  · exact Nat.one_pos

theorem mem_placeholders_where {ids : ContextIds} :
    ids.queryValue (objs.valueOf ref) ∈ (objs.renderedWhere ids ref).placeholders := by
  rw [placeholders_where, mem_range'_1]
  exact ⟨le_rfl, Nat.lt_add_of_pos_right whereSize_pos⟩

theorem nodup_of_disjoint {γ σ : Type} {xs : List γ} {slot : γ → σ} {numbers : γ → List Nat} (number : σ → Nat)
    (hmem : ∀ x ∈ xs, number (slot x) ∈ numbers x)
    (h : xs.Pairwise fun x y => (numbers x).Disjoint (numbers y)) : (xs.map slot).Nodup := by
  rw [Nodup, pairwise_map]
  refine Pairwise.imp_of_mem ?_ h
  intro x y hx hy hd heq
  exact hd (hmem x hx) (heq ▸ hmem y hy)

theorem mem_clauses_where {ids : ContextIds} {i : Nat} (href : ref ∈ s.whereClauses) :
    objs.renderedWhere (updateContextId objs ids i s).ids ref ∈ (updateContextId objs ids i s).clauses objs :=
  mem_append_left _ (mem_append_left _ (mem_map_of_mem href))

variable {request : Request α} {ts : List (Turn α)}

theorem hidden_not_bound (hb : Bound objs ts request)
    (hs : ∀ id, id ∈ placeholders request.text ↔ ∃ c ∈ ts.flatMap (shown objs), id ∈ c.placeholders)
    {t : Turn α} (ht : t ∈ ts) {c : Rendered α} (hc : c ∈ t.hidden objs) {id : Nat} (hid : id ∈ c.placeholders) :
    False := by
  have hcl : c ∈ t.clauses objs := by
    rw [clauses_eq]
    exact mem_append_left _ hc
  have hkey : id ∈ request.parameters.keys := by
    have hget : request.parameters.get? id ∈ c.values.map some := by
      rw [← hb.values t ht c hcl]
      exact mem_map_of_mem hid
    obtain ⟨v, -, hv⟩ := mem_map.mp hget
    exact Dict.mem_keys_of_get? hv.symm
  obtain ⟨c', hc', hid'⟩ := (hs id).mp ((hb.keys id).mpr hkey)
  have hsp : (ts.flatMap (hidden objs) ++ ts.flatMap (shown objs)).Pairwise fun c c' =>
      c.placeholders.Disjoint c'.placeholders := by
    have hsm : ∀ {c c' : Rendered α}, c.placeholders.Disjoint c'.placeholders →
        c'.placeholders.Disjoint c.placeholders := fun h _ hid' hid => h hid hid'
    refine ((flatMap_append_perm ts _ _).pairwise_iff hsm).mpr ?_
    rw [← flatMap_congr fun t _ => clauses_eq objs t]
    exact hb.disjoint
  exact (pairwise_append.mp hsp).2.2 c (mem_flatMap.mpr ⟨t, ht, hc⟩) c' hc' hid hid'

theorem bindable_of_bound (hb : Bound objs ts request)
    (hs : ∀ id, id ∈ placeholders request.text ↔ ∃ c ∈ ts.flatMap (shown objs), id ∈ c.placeholders)
    (htr : updateContextId objs ids i s ∈ ts) (ht : ((updateContextId objs ids i s).text objs).isSome) :
    Bindable objs s := by
  have hd : ((updateContextId objs ids i s).clauses objs).Pairwise fun c c' =>
      c.placeholders.Disjoint c'.placeholders := (pairwise_flatMap.mp hb.disjoint).1 _ htr
  have hv := hb.values _ htr
  unfold clauses at hd
  rw [pairwise_append, pairwise_append] at hd
  obtain ⟨⟨hw, -⟩, hc, -⟩ := hd
  rw [pairwise_map] at hw hc
  refine ⟨?_, ?_, ?_, ?_⟩
  · exact nodup_of_disjoint _ (fun ref _ => mem_placeholders_where) hw
  · rw [← map_id s.conditionals]
    exact nodup_of_disjoint _ (fun ref _ => mem_singleton_self _) hc
  · intro ref href hin
    have hlen := congrArg length (hv _ (mem_clauses_where href))
    rw [length_map, placeholders_where, length_range'] at hlen
    rw [hlen]
    unfold Objects.renderedWhere Objects.whereValues
    rw [if_pos hin]
    rfl
  rintro insert rfl
  refine ⟨?_, ?_⟩
  · by_contra hne
    obtain ⟨ref, href⟩ := exists_mem_of_ne_nil _ hne
    exact hidden_not_bound hb hs htr (mem_map_of_mem href) mem_placeholders_where
  intro hnil
  have hst : (updateContextId objs ids i (.insert insert)).statement = .insert insert := rfl
  unfold Turn.text at ht
  rw [hst] at ht
  dsimp only at ht
  rw [if_pos hnil] at ht
  cases ht

end Needed

/-- **Batch parameters.** They are bound exactly when those of the statements are. -/
theorem batch_parameters_bound_iff (objs : Objects α) (ids : ContextIds) (b : BatchQuery α) :
    (∃ r, b.execute objs ids = some r ∧ ∀ request, r = some request → Bound objs (turns objs ids 0 b.queries) request) ↔
      ∀ s ∈ b.queries, Bindable objs s := by
  refine ⟨?_, fun hok => bound_of_bindable hok ids⟩
  rintro ⟨r, hr, hb⟩ s hs
  rw [execute_eq objs (ne_nil_of_mem hs)] at hr
  obtain ⟨texts, htx, rfl⟩ := map_eq_some_iff.mp hr
  obtain ⟨ids', j, htr⟩ := exists_turn objs hs ids 0
  have ht := mapM_isSome.mp (isSome_of_eq_some htx) _ htr
  exact bindable_of_bound (hb _ rfl) (mem_placeholders_request htx) htr ht

/-! ## An object that two clauses have -/

def sharedObjects : Objects Nat where
  queryValue
    | 0 => .plain (.scalar 5)
    | _ => .minTimeUUID 1700000000000
  whereClause
    | 0 => { field := "k", operator := .equals, queryValue := 0, quoteField := true }
    | 1 => { field := "a", operator := .equals, queryValue := 1, quoteField := true }
    | _ => { field := "b", operator := .equals, queryValue := 1, quoteField := true }
  conditional _ := { field := "v", value := .scalar 0 }

def setV (value : Nat) (whereClauses conditionals : List Ref) : Statement Nat :=
  .update
    { table := "t"
      whereClauses
      assignments := [.assignment "v" (.scalar value)]
      isUpdate := by simp [Clause.isUpdate]
      conditionals
      ifExists := false
      ttl := none
      timestamp := none }

def unnumbered : ContextIds := ⟨fun _ => 0, fun _ => 0, fun _ => 0⟩

theorem batch_parameters_bound_shared : ∃ r, BatchQuery.execute sharedObjects unnumbered
        { queries := [setV 1 [0, 1] [0], setV 2 [0, 1] [0]], batchType := none, timestamp := none } = some r ∧
      ∀ request, r = some request →
        Bound sharedObjects (turns sharedObjects unnumbered 0 [setV 1 [0, 1] [0], setV 2 [0, 1] [0]]) request := by
  refine (batch_parameters_bound_iff sharedObjects unnumbered
    { queries := [setV 1 [0, 1] [0], setV 2 [0, 1] [0]], batchType := none, timestamp := none }).mpr ?_
  have hok : ∀ v, Bindable sharedObjects (setV v [0, 1] [0]) := by
    intro v
    refine ⟨by simp [setV, Statement.whereClauses, Objects.valueOf, sharedObjects], nodup_singleton 0, ?_, nofun⟩
    intro ref href hin
    rcases mem_pair.mp href with rfl | rfl <;> cases hin
  exact forall_mem_cons.mpr ⟨hok 1, forall_mem_singleton.mpr (hok 2)⟩

/-- One `MinTimeUUID` in two clauses: the first `UPDATE` writes the second key. -/
theorem batch_parameter_overwritten : ∃ request, BatchQuery.execute sharedObjects unnumbered
        { queries := [setV 1 [1, 2] [], setV 2 [0] []], batchType := none, timestamp := none } = some (some request) ∧
      request.parameters.get? 2 = some (.value (.scalar 5)) ∧
      ¬ Bound sharedObjects (turns sharedObjects unnumbered 0 [setV 1 [1, 2] [], setV 2 [0] []]) request := by
  refine ⟨_, rfl, rfl, ?_⟩
  intro hb
  have hv := hb.values _ mem_cons_self _ (mem_append_left _ (mem_append_right _ mem_cons_self))
  cases hv

end CqlDriver.Mapper
