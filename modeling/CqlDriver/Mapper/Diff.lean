import CqlDriver.Mapper.Binding

/-! # What the clauses of a changed collection come to -/

namespace CqlDriver.Mapper

open Lib List Clause ContainerUpdate Dict

variable {α : Type} [LinearOrder α]

/-- What a `MapDeleteClause` deletes is what would have been stored for its keys. -/
def Column.mapDeleteOps (c : Column α) (value previous : Value α) : List (Op α) :=
  (removals value.asMap previous.asMap).map fun k => .deleteKey (c.toDb k)

/-- As many ids as placeholders and as values. -/
def Clause.Sized (clause : Clause α) : Prop :=
  ∀ id, (placeholders (clause.text id)).length = clause.getContextSize ∧
    (clause.updateContext id empty).entries.length = clause.getContextSize

theorem Clause.sized {clause : Clause α} (h : clause.isUpdate ∨ clause.isDelete) : clause.Sized := by
  obtain ⟨ht, hlen, hctx⟩ := fills h
  intro id
  have hk : ((range' id clause.getContextSize).zip clause.values).map Prod.fst =
      range' id clause.getContextSize := map_fst_zip (by simp [hlen])
  refine ⟨by rw [ht, length_range'], ?_⟩
  rw [hctx, entries_setAll_fresh _ _ (by simpa [empty, hk] using nodup_range')]
  simp [empty, hlen]

/-! ## Sets and lists -/

variable {c : Column α} {kind : Kind} {sto : Value α}

theorem agree_added_set {xs : List α} (hf : sto.fits .set) :
    Kind.set.Agree (applyAll (ContainerUpdate.set (some xs) none (sto.unlessNone Value.asSet)).added sto)
      (.set xs) := by
  rw [added_set]
  refine SetUpdate.agree_ops fun p hp => .inl ?_
  cases sto <;> simp_all [Value.unlessNone, Value.isNone, Value.fits, Value.asSet, agree_refl]

theorem agree_added_list {xs : List α} (hf : sto.fits .list) :
    Kind.list.Agree (applyAll (list (some xs) none (sto.unlessNone Value.asList)).added sto) (.list xs) := by
  rw [added_list]
  refine ListUpdate.agree_ops fun p hp => .inl ?_
  cases sto <;> simp_all [Value.unlessNone, Value.isNone, Value.fits, Value.asList, agree_refl]

/-! ## Maps -/

variable {d : Dict α (Option α)}

theorem get?_added_map (hcmp : (Value.map d).complete) (sto : Value α) (k : α) :
    (applyAll (ContainerUpdate.map d none (sto.unlessNone Value.asMap)).added sto).asMap.get? k =
      (d.get? k).or (sto.asMap.get? k) := by
  have hp : (sto.unlessNone Value.asMap).getD Dict.empty = sto.asMap := by
    cases sto <;> rfl
  have hn : sto.unlessNone Value.asMap = none → ∀ k, sto.asMap.get? k = none := by
    intro hn k
    rw [← hp, hn]
    rfl
  rw [ContainerUpdate.added_map, MapUpdate.get?_applyAll_ops hcmp _ hn]
  have hu := MapUpdate.mem_updates hcmp (sto.unlessNone Value.asMap) k
  rw [hp] at hu
  cases hget : d.get? k with
  | none =>
    rw [if_neg, Option.none_or]
    intro hmem
    obtain ⟨a, ha, -⟩ := hu.mp hmem
    rw [hget] at ha
    cases ha
  | some v =>
    obtain ⟨a, rfl⟩ := get?_of_complete hcmp hget
    split
    · rfl
    rename_i hk
    -- What is not updated is stored already.
    cases hold : sto.asMap.get? k <;> simp_all

theorem complete_toDatabase (h : (Value.map d).complete) :
    (Value.map (c.toDatabase (.map d)).asMap).complete := by
  simp only [Value.complete, all_eq_true] at h
  simp only [Value.complete, all_eq_true]
  intro v hv
  obtain ⟨e, he, rfl⟩ := mem_map.mp hv
  have hmem := (mem_setAll _ he).resolve_left not_mem_nil
  obtain ⟨e', he', rfl⟩ := mem_map.mp hmem
  simpa using h e'.2 (mem_map_of_mem he')

/-- A key taken away is stored like none that stays. -/
def Apart (c : Column α) (value previous : Value α) : Prop :=
  ∀ k ∈ previous.asMap.keys, k ∉ value.asMap.keys → ∀ k' ∈ value.asMap.keys, c.toDb k ≠ c.toDb k'

theorem agree_map_iff (hcmp : (Value.map d).complete) (previous : Value α) :
    Kind.map.Agree (applyAll (c.mapDeleteOps (.map d) previous)
      (applyAll (ContainerUpdate.map (c.toDatabase (.map d)).asMap none
        ((c.toDatabase previous).unlessNone Value.asMap)).added (c.toDatabase previous))) (c.toDatabase (.map d)) ↔
      Apart c (.map d) previous := by
  have hsto : ∀ k, k ∈ (c.toDatabase previous).asMap.keys ↔ ∃ k' ∈ previous.asMap.keys, c.toDb k' = k := by
    cases previous with
    | map p => exact c.mem_keys_toDatabase p
    | _ => simp [Column.toDatabase, Value.asMap]
  have hdel : c.mapDeleteOps (.map d) previous = ((removals d previous.asMap).map c.toDb).map .deleteKey := by
    rw [map_map]
    rfl
  have hrem : ∀ k, k ∈ (removals d previous.asMap).map c.toDb ↔
      ∃ k' ∈ previous.asMap.keys, k' ∉ d.keys ∧ c.toDb k' = k := by
    simp [removals, mapRemovals, and_assoc]
  have hget := get?_added_map (complete_toDatabase (c := c) hcmp) (c.toDatabase previous)
  simp only [Kind.Agree, hdel, get?_applyAll_deleteKey, hrem]
  constructor
  · intro h k hk hkd k' hk' heq
    have hn := h (c.toDb k)
    rw [if_pos ⟨k, hk, hkd, rfl⟩] at hn
    exact ((get?_eq_none ..).mp hn.symm) ((c.mem_keys_toDatabase d _).mpr ⟨k', hk', heq.symm⟩)
  intro ha k
  by_cases hk : k ∈ (c.toDatabase (.map d)).asMap.keys
  · obtain ⟨k', hk', rfl⟩ := (c.mem_keys_toDatabase d k).mp hk
    obtain ⟨v, hv⟩ := Option.isSome_iff_exists.mp ((get?_isSome ..).mpr hk)
    rw [if_neg, hget, hv, Option.some_or]
    rintro ⟨k'', hk'', hkd, heq⟩
    exact ha k'' hk'' hkd k' hk' heq
  rw [hget, (get?_eq_none ..).mpr hk]
  split
  · rfl
  rename_i hkp
  refine (get?_eq_none ..).mpr fun hmem => ?_
  obtain ⟨k', hk', rfl⟩ := (hsto k).mp hmem
  exact hkp ⟨k', hk', fun hkd => hk ((c.mem_keys_toDatabase d _).mpr ⟨k', hkd, rfl⟩), rfl⟩

/-- **Changed collections.** The clauses come to the new value if the keys are apart. -/
theorem containerUpdate_agree_iff (c : Column α) (hcollection : c.kind ≠ .scalar) (field : String) (value previous : Value α)
    (hfits : value.fits c.kind = true) (hnone : value.isNone = false) (hfits' : previous.fits c.kind = true)
    (hcomplete : value.complete = true) : ∃ u, c.containerUpdate value none previous = some u ∧
      (c.kind.Agree (applyAll (c.mapDeleteOps value previous) (applyAll u.added (c.toDatabase previous)))
          (c.toDatabase value) ↔ Apart c value previous) ∧ (u.getContextSize ≠ 0 → (container field u).Sized) ∧
      (mapDelete field value.asMap previous.asMap).Sized := by
  have hs (u : ContainerUpdate α) (h : u.getContextSize ≠ 0) : (container field u).Sized :=
    sized (.inl (by simpa [isUpdate] using h))
  have hr : (mapDelete field value.asMap previous.asMap).Sized := sized (.inr rfl)
  cases value with
  | none => cases hnone
  | scalar a => exact absurd (of_decide_eq_true hfits) hcollection
  | set elems =>
    have hk : c.kind = .set := of_decide_eq_true hfits
    have hdel : c.mapDeleteOps (.set elems) previous = [] := by
      rw [hk] at hfits'
      cases previous <;> first | rfl | cases hfits'
    refine ⟨.set (some (elems.map c.toDb)) none ((c.toDatabase previous).unlessNone Value.asSet), ?_, ?_, hs _, hr⟩
    · rw [Column.containerUpdate, hk]
      rfl
    rw [hdel, hk]
    exact iff_of_true (agree_added_set (hk ▸ Column.fits_toDatabase hfits')) fun _ _ _ _ hk' => absurd hk' not_mem_nil
  | list elems =>
    have hk : c.kind = .list := of_decide_eq_true hfits
    have hdel : c.mapDeleteOps (.list elems) previous = [] := by
      rw [hk] at hfits'
      cases previous <;> first | rfl | cases hfits'
    refine ⟨.list (some (elems.map c.toDb)) none ((c.toDatabase previous).unlessNone Value.asList), ?_, ?_, hs _, hr⟩
    · rw [Column.containerUpdate, hk]
      rfl
    rw [hdel, hk]
    exact iff_of_true (agree_added_list (hk ▸ Column.fits_toDatabase hfits')) fun _ _ _ _ hk' => absurd hk' not_mem_nil
  | map d =>
    have hk : c.kind = .map := of_decide_eq_true hfits
    refine ⟨.map (c.toDatabase (.map d)).asMap none ((c.toDatabase previous).unlessNone Value.asMap), ?_, ?_, hs _, hr⟩
    · rw [Column.containerUpdate, hk]
      rfl
    rw [hk]
    exact agree_map_iff hcomplete previous
  | other => cases hfits

def pricesColumn : Column Int := .ofClass (Column.cleans_map takesAll takesAll) false .none (fun t => t / 1000) id

theorem containerUpdate_agree_prices :
    (pricesColumn.kind ≠ .scalar ∧ (Value.map (empty.set (2000000 : Int) (some 5))).complete = true) ∧
    ∃ u, pricesColumn.containerUpdate (.map (empty.set 2000000 (some 5))) none (.map (empty.set 1000000 (some 5))) = some u ∧
      pricesColumn.kind.Agree (applyAll (pricesColumn.mapDeleteOps (.map (empty.set 2000000 (some 5)))
            (.map (empty.set 1000000 (some 5))))
          (applyAll u.added (pricesColumn.toDatabase (.map (empty.set 1000000 (some 5))))))
        (pricesColumn.toDatabase (.map (empty.set 2000000 (some 5)))) := by
  obtain ⟨u, hu, ha, -⟩ := containerUpdate_agree_iff pricesColumn nofun "prices"
    (.map (empty.set 2000000 (some 5))) (.map _) rfl rfl rfl rfl
  refine ⟨⟨nofun, rfl⟩, u, hu, ha.mpr ?_⟩
  unfold Apart
  decide

/-- Two times of one millisecond: the new price goes too. -/
theorem containerUpdate_loses_price :
    pricesColumn.containerUpdate (.map (Dict.empty.set 1000001 (some 7))) none (.map (Dict.empty.set 1000000 (some 5))) =
      some (.map (Dict.empty.set 1000 (some 7)) none (some (Dict.empty.set 1000 (some 5)))) ∧
    (applyAll (pricesColumn.mapDeleteOps (.map (Dict.empty.set 1000001 (some 7)))
        (.map (Dict.empty.set 1000000 (some 5))))
      (applyAll (ContainerUpdate.map (Dict.empty.set 1000 (some 7)) none (some (Dict.empty.set 1000 (some 5)))).added
        (pricesColumn.toDatabase (.map (Dict.empty.set 1000000 (some 5)))))).asMap.get? 1000 = none ∧
    (pricesColumn.toDatabase (.map (Dict.empty.set 1000001 (some 7)))).asMap.get? 1000 = some (some 7) := by
  exact ⟨rfl, by decide +kernel, by decide +kernel⟩

end CqlDriver.Mapper
