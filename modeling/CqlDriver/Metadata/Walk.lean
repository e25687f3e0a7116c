import CqlDriver.Metadata.Strategy
import Mathlib.Data.List.Induction
import Mathlib.Data.List.TakeWhile

/-! # The walk of `NetworkTopologyStrategy` -/

namespace CqlDriver.Metadata

open Lib List

variable {τ η : Type} [DecidableEq τ] [DecidableEq η]

/-- The owners in `dc` from the token at `i` on. -/
def walkFrom (loc : Locations η) (owners : List η) (i : Nat) (dc : Option String) : List η :=
  (owners.drop i ++ owners.take i).filter fun h => loc.datacenter h = dc

def addDc (loc : Locations η) (factors : Dict String Int) (owners : List η) (i : Nat) (replicas : List η)
    (dc : Option String) : List η :=
  match dcRf factors dc with
  | none => replicas
  | some rf => selectDc loc (dcTables loc owners) dc rf (walkFrom loc owners i dc) replicas

def replicasAt (loc : Locations η) (factors : Dict String Int) (owners : List η) (i : Nat) : List η :=
  (dcTables loc owners).tokenOffset.keys.foldl (addDc loc factors owners i) []

/-! ## The tables of the first loop -/

theorem orEmpty_set {α β : Type} [DecidableEq α] (d : Dict α (List β)) (k k' : α) (v : List β) :
    orEmpty (d.set k v) k' = if k' = k then v else orEmpty d k' := by
  simp only [orEmpty, Dict.get?_set]
  split <;> rfl

def dcOffsets (loc : Locations η) (owners : List η) (dc : Option String) : List Nat :=
  (List.range owners.length).filter fun k => (owners[k]?).map loc.datacenter = some dc

variable {dc : Option String} {host : η}

omit [DecidableEq η] in
theorem dcOffsets_append {loc : Locations η} {owners : List η} : dcOffsets loc (owners ++ [host]) dc =
      dcOffsets loc owners dc ++ if loc.datacenter host = dc then [owners.length] else [] := by
  have hold : ∀ k ∈ range owners.length, (owners ++ [host])[k]? = owners[k]? := by
    intro k hk
    exact getElem?_append_left (mem_range.mp hk)
  rw [dcOffsets, length_append, length_singleton, range_succ, filter_append]
  congr 1
  · exact filter_congr fun k hk => by rw [hold k hk]
  · by_cases h : loc.datacenter host = dc <;> simp [h]

structure TablesOk (loc : Locations η) (owners : List η) (t : DcTables η) : Prop where
  offsets : ∀ dc, orEmpty t.tokenOffset dc = dcOffsets loc owners dc
  keys : ∀ dc, dc ∈ t.tokenOffset.keys ↔ ∃ h ∈ owners, loc.datacenter h = dc
  racksNodup : ∀ dc, (orEmpty t.racks dc).Nodup
  racks : ∀ dc r, r ∈ orEmpty t.racks dc ↔
    ∃ h ∈ owners, loc.datacenter h = dc ∧ loc.rack h = r ∧ truthy dc = true ∧ truthy r = true
  hostsNodup : ∀ dc, (orEmpty t.hosts dc).Nodup
  hosts : ∀ dc h, h ∈ orEmpty t.hosts dc ↔
    h ∈ owners ∧ loc.datacenter h = dc ∧ truthy dc = true ∧ truthy (loc.rack h) = true

variable {loc : Locations η} {owners : List η} {i : Nat} {ring : List τ} {owner : Dict τ η}

theorem tables_add {t : DcTables η} (h : TablesOk loc owners t) :
    TablesOk loc (owners ++ [host]) (t.add loc host owners.length) := by
  have hoff : ∀ dc, orEmpty (t.tokenOffset.set (loc.datacenter host)
      (orEmpty t.tokenOffset (loc.datacenter host) ++ [owners.length])) dc = dcOffsets loc (owners ++ [host]) dc := by
    intro dc
    rw [orEmpty_set, dcOffsets_append]
    by_cases hdc : dc = loc.datacenter host
    · simp [hdc, h.offsets]
    · simp [hdc, h.offsets, Ne.symm hdc]
  have hk : ∀ dc, dc ∈ (t.tokenOffset.set (loc.datacenter host)
      (orEmpty t.tokenOffset (loc.datacenter host) ++ [owners.length])).keys ↔
        ∃ g ∈ owners ++ [host], loc.datacenter g = dc := by
    intro dc
    rw [Dict.mem_keys_set, h.keys]
    grind
  simp only [DcTables.add]
  split
  · rename_i htru
    refine ⟨hoff, hk, ?_, ?_, ?_, ?_⟩ <;> intro dc <;> simp only [orEmpty_set]
    · split
      · exact (h.racksNodup _).insert
      · exact h.racksNodup dc
    · intro r
      have := h.racks dc r
      split <;> grind
    · split
      · exact (h.hostsNodup _).insert
      · exact h.hostsNodup dc
    intro g
    have := h.hosts dc g
    split <;> grind
  rename_i hf
  refine ⟨hoff, hk, h.racksNodup, ?_, h.hostsNodup, ?_⟩
  · intro dc r
    have := h.racks dc r
    grind
  intro dc g
  have := h.hosts dc g
  grind

theorem dcTables_ok (loc : Locations η) (owners : List η) : TablesOk loc owners (dcTables loc owners) := by
  induction owners using reverseRecOn with
  | nil => constructor <;> simp [dcTables, DcTables.empty, orEmpty, dcOffsets]
  | append_singleton owners host ih =>
    rw [dcTables, zipIdx_append]
    rw [dcTables] at ih
    simpa using tables_add ih

/-! ## The carried index -/

def below (tokenOffsets : List Nat) (i : Nat) : Nat := (tokenOffsets.takeWhile (· < i)).length

theorem advance_below {offs : List Nat} {idx : Nat} (h : idx ≤ below offs i) : advance offs idx i = below offs i := by
  induction offs generalizing idx with
  | nil => simp only [below, takeWhile_nil, length_nil] at h; simp [advance, below]; omega
  | cons a rest ih =>
    cases idx with
    | zero => simp [advance, below]
    | succ idx =>
      by_cases ha : a < i
      · simp only [below, takeWhile_cons, ha, decide_true, if_true, length_cons] at h ⊢
        have := @ih idx (by rw [below]; omega)
        simp only [advance, below, drop_succ_cons] at this ⊢
        omega
      · simp [below, ha] at h

theorem below_mono (offs : List Nat) {j : Nat} (h : i ≤ j) : below offs i ≤ below offs j := by
  induction offs with
  | nil => simp [below]
  | cons a rest ih =>
    simp only [below, takeWhile_cons] at ih ⊢
    by_cases ha : a < i
    · have : a < j := by omega
      simp only [ha, this, decide_true, if_true, length_cons]
      omega
    · simp [ha]

omit [DecidableEq η] in
theorem filterMap_offsets (loc : Locations η) (owners : List η) (dc : Option String) (a n : Nat) :
    ((range' a n).filter fun k => (owners[k]?).map loc.datacenter = some dc).filterMap (owners[·]?) =
      ((owners.drop a).take n).filter fun h => loc.datacenter h = dc := by
  induction n generalizing a with
  | zero => simp
  | succ n ih =>
    rw [range'_succ]
    rcases Nat.lt_or_ge a owners.length with ha | ha
    · rw [drop_eq_getElem_cons, take_succ_cons]
      have hget : owners[a]? = some (owners[a]) := getElem?_eq_getElem ha
      by_cases hdc : loc.datacenter owners[a] = dc
      · rw [filter_cons_of_pos (by simp [hget, hdc]), filter_cons_of_pos (by simp [hdc]), filterMap_cons_some hget, ih]
      · rw [filter_cons_of_neg (by simp [hget, hdc]), filter_cons_of_neg (by simp [hdc]), ih]
    have hn : owners[a]? = none := getElem?_eq_none ha
    rw [filter_cons_of_neg (by simp [hn]), ih, drop_eq_nil_of_le ha, drop_eq_nil_of_le (by omega)]
    simp

omit [DecidableEq η] in
theorem dcOffsets_split (loc : Locations η) (dc : Option String) (hi : i ≤ owners.length) : dcOffsets loc owners dc =
      ((range' 0 i).filter fun k => (owners[k]?).map loc.datacenter = some dc) ++
      ((range' i (owners.length - i)).filter fun k => (owners[k]?).map loc.datacenter = some dc) := by
  rw [dcOffsets, ← filter_append, range_eq_range']
  conv_lhs => rw [show owners.length = i + (owners.length - i) by omega, ← range'_append_1]
  rw [Nat.zero_add]

omit [DecidableEq η] in
theorem rotate_offsets {loc : Locations η} {owners : List η} (hi : i ≤ owners.length) :
    ((dcOffsets loc owners dc).rotate (below (dcOffsets loc owners dc) i)).filterMap (owners[·]?) =
      walkFrom loc owners i dc := by
  have hs := dcOffsets_split loc dc hi
  have hf : ∀ k ∈ (range' 0 i).filter fun k => (owners[k]?).map loc.datacenter = some dc, k < i := by
    intro k hk
    have := (mem_range'_1.mp (mem_of_mem_filter hk)).2
    omega
  have hb : ((range' i (owners.length - i)).filter fun k =>
      (owners[k]?).map loc.datacenter = some dc).takeWhile (· < i) = [] := by
    rw [takeWhile_eq_nil_iff]
    intro hl hlt
    have hmem := mem_range'_1.mp (mem_of_mem_filter (get_mem _ ⟨0, hl⟩))
    simp only [decide_eq_true_eq] at hlt
    omega
  have hbl : below (dcOffsets loc owners dc) i =
      ((range' 0 i).filter fun k => (owners[k]?).map loc.datacenter = some dc).length := by
    rw [below, hs, takeWhile_append_of_pos (by simpa using hf), hb, append_nil]
  rw [hbl, hs, rotate_append_length_eq, filterMap_append, filterMap_offsets,
    filterMap_offsets, walkFrom, filter_append, drop_zero, take_of_length_le (by simp)]

/-! ## The loop over the ring -/

def IndexOk (loc : Locations η) (owners : List η) (currentIndex : Dict (Option String) Nat) (i : Nat) : Prop :=
  ∀ dc, (currentIndex.get? dc).getD 0 ≤ below (dcOffsets loc owners dc) i

theorem dcStep_spec {fs : Dict String Int} (hi : i ≤ owners.length) {cur : Dict (Option String) Nat}
    (h : IndexOk loc owners cur i) (reps : List η) {dc : Option String} : let r := dcStep loc fs (dcTables loc owners) owners i (cur, reps) dc
    IndexOk loc owners r.1 i ∧ r.2 = addDc loc fs owners i reps dc := by
  simp only [dcStep, addDc]
  cases dcRf fs dc with
  | none => exact ⟨h, rfl⟩
  | some rf =>
    rw [(dcTables_ok loc owners).offsets, advance_below (h dc), rotate_offsets hi]
    refine ⟨?_, rfl⟩
    intro dc'
    rw [Dict.get?_set]
    split
    · rename_i hdc
      rw [hdc]
      exact le_rfl
    · exact h dc'

theorem foldl_dcStep (fs : Dict String Int) (hi : i ≤ owners.length) (dcs : List (Option String)) :
    ∀ (cur : Dict (Option String) Nat) (replicas : List η), IndexOk loc owners cur i →
      let r := dcs.foldl (dcStep loc fs (dcTables loc owners) owners i) (cur, replicas)
      IndexOk loc owners r.1 i ∧ r.2 = dcs.foldl (addDc loc fs owners i) replicas := by
  induction dcs with
  | nil => intro cur replicas h; exact ⟨h, rfl⟩
  | cons dc dcs ih =>
    intro cur replicas h
    obtain ⟨hidx, hrep⟩ := dcStep_spec hi h replicas
    rw [foldl_cons, foldl_cons, ← hrep]
    exact ih _ _ hidx

theorem ntsLoop_eq {fs : Dict String Int} (toks : List τ) :
    ∀ (i : Nat) (cur : Dict (Option String) Nat) (m : Dict τ (List η)),
      i + toks.length ≤ owners.length → toks.Nodup → (∀ t ∈ toks, t ∉ m.keys) → IndexOk loc owners cur i →
      (ntsLoop loc fs (dcTables loc owners) owners (toks.zipIdx i) (cur, m)).2 =
        m.setAll ((toks.zipIdx i).map fun p => (p.1, replicasAt loc fs owners p.2)) := by
  induction toks with
  | nil => intro i cur m _ _ _ _; rfl
  | cons tok toks ih =>
    intro i cur m hlen hn hf hidx
    rw [nodup_cons] at hn
    rw [length_cons] at hlen
    have hm : orEmpty m tok = [] := by
      rw [orEmpty, (m.get?_eq_none tok).mpr (hf tok mem_cons_self)]
      rfl
    obtain ⟨hidx', hrep⟩ := foldl_dcStep fs (i := i) (by omega) (dcTables loc owners).tokenOffset.keys cur [] hidx
    have hf' : ∀ t ∈ toks, t ∉ (m.set tok (replicasAt loc fs owners i)).keys := by
      intro t ht hmem
      rcases (Dict.mem_keys_set ..).mp hmem with rfl | hm'
      · exact hn.1 ht
      · exact hf t (mem_cons_of_mem _ ht) hm'
    simp only [zipIdx_cons, ntsLoop, hm, hrep]
    exact ih _ _ _ (by omega) hn.2 hf' fun dc => (hidx' dc).trans (below_mono _ (Nat.le_succ i))

omit [DecidableEq η] in
theorem setAll_ring (hr : ring.Nodup) (lists : Nat → List η) : let m := (Dict.empty : Dict τ (List η)).setAll (ring.zipIdx.map fun p => (p.1, lists p.2))
    m.keys = ring ∧ ∀ i t, ring[i]? = some t → m.get? t = some (lists i) := by
  have hfst : (ring.zipIdx.map fun p => (p.1, lists p.2)).map Prod.fst = ring := by
    rw [map_map]
    exact zipIdx_map_fst 0 ring
  obtain ⟨hk, hget, -⟩ := Dict.setAll_fresh (ring.zipIdx.map fun p => (p.1, lists p.2)) Dict.empty
    (by rwa [hfst]) (by simp)
  refine ⟨by simpa [hfst] using hk, ?_⟩
  intro i t ht
  exact hget _ (mem_map.mpr ⟨(t, i), mem_zipIdx_iff_getElem?.mpr ht, rfl⟩)

omit [DecidableEq η] in
theorem mapM_get?_eq_some (h : ∀ t ∈ ring, t ∈ owner.keys) :
    ∃ owners, ring.mapM owner.get? = some owners ∧ owners.length = ring.length ∧
      ∀ (k : Nat) (t : τ), ring[k]? = some t → owners[k]? = owner.get? t := by
  induction ring with
  | nil => exact ⟨[], rfl, rfl, by simp⟩
  | cons tok ring ih =>
    obtain ⟨owners, hmap, hlen, hget⟩ := ih fun t ht => h t (mem_cons_of_mem _ ht)
    obtain ⟨host, hh⟩ := Option.isSome_iff_exists.mp ((owner.get?_isSome tok).mpr (h tok mem_cons_self))
    refine ⟨host :: owners, by simp [hh, hmap], by simp [hlen], ?_⟩
    intro k t hk
    cases k with
    | zero =>
      obtain rfl : tok = t := by simpa using hk
      simp [hh]
    | succ k => simpa using hget k t (by simpa using hk)

/-- **The walk** from each ring token gives its replicas. -/
theorem ntsReplicaMap_spec (loc : Locations η) (fs : Dict String Int) (hr : ring.Nodup)
    (ho : ∀ t ∈ ring, t ∈ owner.keys) :
    ∃ owners m, ring.mapM owner.get? = some owners ∧ ntsReplicaMap loc fs owner ring = some m ∧
      m.keys = ring ∧ ∀ i t, ring[i]? = some t → m.get? t = some (replicasAt loc fs owners i) := by
  obtain ⟨owners, hmap, hlen, -⟩ := mapM_get?_eq_some ho
  obtain ⟨hk, hget⟩ := setAll_ring hr _
  refine ⟨owners, _, hmap, ?_, hk, hget⟩
  simp only [ntsReplicaMap, hmap, Option.bind_eq_bind, Option.bind_some, Option.pure_def]
  rw [ntsLoop_eq ring 0 Dict.empty Dict.empty (by omega) hr (by simp) (fun dc => by simp)]

end CqlDriver.Metadata
