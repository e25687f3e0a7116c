import CqlDriver.Metadata.Replicas

/-! # The carried index of `NetworkTopologyStrategy` -/

namespace CqlDriver.Metadata

open Lib List

variable {τ η : Type} [DecidableEq τ] [DecidableEq η]

/-- The positions of a datacenter from `i` on and around. -/
def positionsFrom (loc : Locations η) (owners : List η) (i : Nat) (dc : Option String) : List Nat :=
  (dcOffsets loc owners dc).filter (i ≤ ·) ++ (dcOffsets loc owners dc).filter (· < i)

/-- One datacenter, with the start looked for anew. -/
def scratchDc (loc : Locations η) (factors : Dict String Int) (owners : List η) (i : Nat) (replicas : List η)
    (dc : Option String) : List η :=
  match dcRf factors dc with
  | none => replicas
  | some rf =>
    selectDc loc (dcTables loc owners) dc rf ((positionsFrom loc owners i dc).filterMap (owners[·]?)) replicas

def scratchMap (loc : Locations η) (factors : Dict String Int) (owners : List η) (places : List (τ × Nat))
    (replicaMap : Dict τ (List η)) : Dict τ (List η) :=
  places.foldl (fun m p => m.set p.1
    ((dcTables loc owners).tokenOffset.keys.foldl (scratchDc loc factors owners p.2) (orEmpty m p.1))) replicaMap

/-! ## The start of each walk -/

variable {i : Nat} {owners : List η}

variable {dc : Option String} {loc : Locations η} {fs : Dict String Int} {reps : List η} {pls : List (τ × Nat)}
  {t : τ}

omit [DecidableEq η] in
theorem walk_positionsFrom {owners : List η} (hi : i ≤ owners.length) :
    (positionsFrom loc owners i dc).filterMap (owners[·]?) = walkFrom loc owners i dc := by
  have hbl : ∀ k ∈ (range' 0 i).filter fun k => (owners[k]?).map loc.datacenter = some dc, k < i := by
    intro k hk
    have := mem_range'_1.mp (mem_of_mem_filter hk)
    omega
  have ha : ∀ k ∈ (range' i (owners.length - i)).filter fun k => (owners[k]?).map loc.datacenter = some dc,
      i ≤ k := fun k hk => (mem_range'_1.mp (mem_of_mem_filter hk)).1
  have hb : (dcOffsets loc owners dc).filter (i ≤ ·) =
      (range' i (owners.length - i)).filter fun k => (owners[k]?).map loc.datacenter = some dc := by
    rw [dcOffsets_split loc dc hi, filter_append, filter_eq_nil_iff.mpr, nil_append, filter_eq_self.mpr]
    · exact fun k hk => decide_eq_true (ha k hk)
    · exact fun k hk => by simpa using hbl k hk
  have hf : (dcOffsets loc owners dc).filter (· < i) =
      (range' 0 i).filter fun k => (owners[k]?).map loc.datacenter = some dc := by
    rw [dcOffsets_split loc dc hi, filter_append]
    refine (congrArg₂ _ (filter_eq_self.mpr ?_) (filter_eq_nil_iff.mpr ?_)).trans (append_nil _)
    · exact fun k hk => decide_eq_true (hbl k hk)
    · exact fun k hk => by simpa using ha k hk
  rw [positionsFrom, hb, hf, filterMap_append, filterMap_offsets, filterMap_offsets, walkFrom,
    filter_append, drop_zero, take_of_length_le (by simp)]

theorem scratchDc_eq (hi : i ≤ owners.length) : scratchDc loc fs owners i = addDc loc fs owners i := by
  funext replicas dc
  rw [scratchDc, walk_positionsFrom hi]
  rfl

theorem ntsLoop_scratch (loc : Locations η) (fs : Dict String Int) (toks : List τ) :
    ∀ (i : Nat) (cur : Dict (Option String) Nat) (m : Dict τ (List η)),
      i + toks.length ≤ owners.length → IndexOk loc owners cur i →
      (ntsLoop loc fs (dcTables loc owners) owners (toks.zipIdx i) (cur, m)).2 =
        scratchMap loc fs owners (toks.zipIdx i) m := by
  induction toks with
  | nil => intro i cur m _ _; rfl
  | cons tok toks ih =>
    intro i cur m hlen hidx
    rw [length_cons] at hlen
    obtain ⟨hidx', hrep⟩ := foldl_dcStep fs (i := i) (by omega)
      (dcTables loc owners).tokenOffset.keys cur (orEmpty m tok) hidx
    simp only [zipIdx_cons, ntsLoop, scratchMap, foldl_cons, hrep]
    rw [scratchDc_eq (i := i) (by omega)]
    exact ih _ _ _ (by omega) fun dc => (hidx' dc).trans (below_mono _ (Nat.le_succ i))

/-! ## The part of one datacenter -/

theorem addDc_filter_other {owners : List η} {i : Nat} {dc' : Option String} (hdc : dc' ≠ dc) :
    (addDc loc fs owners i reps dc').filter (fun h => loc.datacenter h = dc) =
      reps.filter fun h => loc.datacenter h = dc := by
  unfold addDc
  cases dcRf fs dc' with
  | none => rfl
  | some rf =>
    obtain ⟨new, hnew, hres, -⟩ := selectLoop_new loc.rack (orEmpty (dcTables loc owners).racks dc').length
      (orEmpty (dcTables loc owners).hosts dc').length (walkFrom loc owners i dc') ⟨[], rf, 0, [], []⟩
      (r := reps) fun g _ => Iff.rfl
    have hn : new.filter (fun h => loc.datacenter h = dc) = [] := by
      refine filter_eq_nil_iff.mpr fun g hg => ?_
      rw [(mem_walkFrom.mp (hnew hg)).2]
      simpa using hdc
    dsimp only
    rw [selectDc, hres, filter_append, hn, append_nil]

theorem addDc_filter {owners : List η} {i : Nat} :
    (addDc loc fs owners i reps dc).filter (fun h => loc.datacenter h = dc) =
      addDc loc fs owners i (reps.filter fun h => loc.datacenter h = dc) dc := by
  unfold addDc
  cases dcRf fs dc with
  | none => rfl
  | some rf =>
    have hs : ∀ g ∈ walkFrom loc owners i dc, g ∈ reps ↔ g ∈ reps.filter fun h => loc.datacenter h = dc := by
      intro g hg
      simp [(mem_walkFrom.mp hg).2]
    obtain ⟨new, hnew, hres, hres'⟩ := selectLoop_new loc.rack (orEmpty (dcTables loc owners).racks dc).length
      (orEmpty (dcTables loc owners).hosts dc).length _ ⟨[], rf, 0, [], []⟩ hs
    have hall : new.filter (fun h => loc.datacenter h = dc) = new := by
      refine filter_eq_self.mpr fun g hg => ?_
      simpa using (mem_walkFrom.mp (hnew hg)).2
    dsimp only
    rw [selectDc, selectDc, hres, hres', filter_append, hall]

theorem foldl_addDc_filter {owners : List η} {i : Nat} {dcs : List (Option String)} (hn : dcs.Nodup) :
    (dcs.foldl (addDc loc fs owners i) reps).filter (fun h => loc.datacenter h = dc) =
      if dc ∈ dcs then addDc loc fs owners i (reps.filter fun h => loc.datacenter h = dc) dc
      else reps.filter fun h => loc.datacenter h = dc := by
  induction dcs generalizing reps with
  | nil => rfl
  | cons dc' dcs ih =>
    rw [nodup_cons] at hn
    rw [foldl_cons, ih hn.2]
    by_cases hdc : dc' = dc
    · rw [← hdc, if_neg hn.1, if_pos mem_cons_self, addDc_filter]
    rw [addDc_filter_other hdc]
    simp [Ne.symm hdc]

theorem position_filter {owners : List η} {i : Nat} :
    ((dcTables loc owners).tokenOffset.keys.foldl (addDc loc fs owners i) reps).filter
        (fun h => loc.datacenter h = dc) = addDc loc fs owners i (reps.filter fun h => loc.datacenter h = dc) dc := by
  rw [foldl_addDc_filter (Dict.keys_nodup _)]
  split
  · rfl
  rename_i hdc
  have hw : walkFrom loc owners i dc = [] := by
    rw [(dcTables_ok loc owners).keys] at hdc
    exact eq_nil_iff_forall_not_mem.mpr fun g hg => hdc ⟨g, mem_walkFrom.mp hg⟩
  unfold addDc
  rw [hw]
  cases dcRf fs dc <;> rfl

/-! ## The replica lists -/

def tokenPlaces (places : List (τ × Nat)) (t : τ) : List Nat := (places.filter (·.1 = t)).map Prod.snd

theorem orEmpty_scratchMap (loc : Locations η) (fs : Dict String Int) (t : τ) (dc : Option String)
    (h : ∀ p ∈ pls, p.2 ≤ owners.length) :
    (orEmpty (scratchMap loc fs owners pls Dict.empty) t).filter (fun h => loc.datacenter h = dc) =
      (tokenPlaces pls t).foldl (fun part i => scratchDc loc fs owners i part dc) [] := by
  induction pls using reverseRecOn with
  | nil => rfl
  | append_singleton pls p ih =>
    rw [forall_mem_append, forall_mem_singleton] at h
    rw [scratchMap, foldl_append, foldl_cons, foldl_nil, ← scratchMap, orEmpty_set, tokenPlaces,
      filter_append, map_append, foldl_append, ← tokenPlaces, ← ih h.1]
    by_cases hp : p.1 = t
    · rw [if_pos hp.symm, hp, filter_cons_of_pos (by simpa using hp)]
      simp only [filter_nil, map_cons, map_nil, foldl_cons, foldl_nil, scratchDc_eq h.2, position_filter]
    rw [if_neg (Ne.symm hp), filter_cons_of_neg (by simpa using hp)]
    rfl

theorem mem_keys_scratchMap {owners : List η} (m : Dict τ (List η)) :
    t ∈ (scratchMap loc fs owners pls m).keys ↔ t ∈ m.keys ∨ t ∈ pls.map Prod.fst := by
  induction pls generalizing m with
  | nil => simp [scratchMap]
  | cons p pls ih =>
    refine (ih _).trans ?_
    rw [Dict.mem_keys_set, map_cons, mem_cons]
    tauto

omit [DecidableEq η] in
theorem tokenPlaces_of_nodup {ring : List τ} (hr : ring.Nodup) (hi : ring[i]? = some t) :
    tokenPlaces ring.zipIdx t = [i] := by
  have hn : (tokenPlaces ring.zipIdx t).Nodup := by
    refine Nodup.sublist ((filter_sublist ..).map Prod.snd) ?_
    rw [zipIdx_map_snd]
    exact nodup_range'
  refine perm_singleton.mp ((perm_ext_iff_of_nodup hn (nodup_singleton i)).mpr fun j => ?_)
  have hmem : j ∈ tokenPlaces ring.zipIdx t ↔ ring[j]? = some t := by
    simp [tokenPlaces, mem_zipIdx_iff_getElem?]
  rw [hmem, mem_singleton]
  constructor
  · intro hj
    have hlt : j < ring.length := (List.getElem?_eq_some_iff.mp hj).1
    exact (getElem?_inj hlt hr).mp (hj.trans hi.symm)
  rintro rfl
  exact hi

/-- **The carried index** changes nothing in the replica map. -/
theorem nts_incremental_walk (loc : Locations η) (factors : Dict String Int) (owner : Dict τ η) (ring : List τ)
    (howned : ∀ t ∈ ring, t ∈ owner.keys) :
    ∃ owners m, ring.mapM owner.get? = some owners ∧ ntsReplicaMap loc factors owner ring = some m ∧
      m = scratchMap loc factors owners ring.zipIdx Dict.empty ∧
      ∀ i t, ring[i]? = some t → ∃ replicas, m.get? t = some replicas ∧ ∀ dc,
        replicas.filter (fun h => loc.datacenter h = dc) =
          (tokenPlaces ring.zipIdx t).foldl (fun part j => scratchDc loc factors owners j part dc) [] ∧
        (ring.Nodup → replicas.filter (fun h => loc.datacenter h = dc) = scratchDc loc factors owners i [] dc) := by
  obtain ⟨owners, hmap, hlen, -⟩ := mapM_get?_eq_some howned
  refine ⟨owners, _, hmap, ?_, rfl, fun i t hi => ?_⟩
  · simp only [ntsReplicaMap, hmap, Option.bind_eq_bind, Option.bind_some, Option.pure_def]
    rw [ntsLoop_scratch loc factors ring 0 Dict.empty Dict.empty (by omega) (fun dc => by simp)]
  have hkey : t ∈ (scratchMap loc factors owners ring.zipIdx Dict.empty).keys := by
    rw [mem_keys_scratchMap, zipIdx_map_fst]
    exact .inr (mem_of_getElem? hi)
  obtain ⟨replicas, hr⟩ := Option.isSome_iff_exists.mp ((Dict.get?_isSome ..).mpr hkey)
  refine ⟨replicas, hr, fun dc => ?_⟩
  have hpl : ∀ p ∈ ring.zipIdx, p.2 ≤ owners.length := by
    intro p hp
    have := snd_lt_of_mem_zipIdx hp
    omega
  have hpr := orEmpty_scratchMap loc factors t dc hpl
  rw [orEmpty, hr, Option.getD_some] at hpr
  refine ⟨hpr, fun hrn => ?_⟩
  rw [hpr, tokenPlaces_of_nodup hrn hi]
  rfl

theorem nts_incremental_walk_two_racks :
    ∃ m replicas, ntsReplicaMap twoRacks factorFour twoTokens twoTokens.keys = some m ∧ m.get? 30 = some replicas ∧
      replicas.filter (fun h => twoRacks.datacenter h = some "dc1") =
        scratchDc twoRacks factorFour [0, 1, 1, 2, 3] 3 [] (some "dc1") := by
  obtain ⟨owners, m, ho, hm, -, h⟩ := nts_incremental_walk twoRacks factorFour twoTokens twoTokens.keys (by decide)
  obtain rfl : [0, 1, 1, 2, 3] = owners := Option.some.inj (by rw [← ho]; rfl)
  obtain ⟨replicas, hr, hp⟩ := h 3 30 rfl
  exact ⟨m, replicas, hm, hr, (hp _).2 (by decide)⟩

end CqlDriver.Metadata
