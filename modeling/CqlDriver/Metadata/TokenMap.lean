import CqlDriver.Lib.Bisect
import CqlDriver.Metadata.Replicas
import CqlDriver.Metadata.Simple
import Mathlib.Tactic.IntervalCases

/-! # Looking up replicas -/

namespace CqlDriver.Metadata

open Lib List

variable {τ η : Type} [LinearOrder τ] [DecidableEq η]

structure KeyspaceMetadata where
  replicationStrategy : Option Strategy

structure TokenMap (τ η : Type) where
  ring : List τ
  tokenToHostOwner : Dict τ η
  tokensToHostsByKs : Dict String (Option (Dict τ (List η)))

def TokenMap.init (ring : List τ) (tokenToHostOwner : Dict τ η) : TokenMap τ η :=
  ⟨ring, tokenToHostOwner, Dict.empty⟩

/-- The outer `none` is an exception. -/
def replicaMapForKeyspace (loc : Locations η) (m : TokenMap τ η) (ks : KeyspaceMetadata) :
    Option (Option (Dict τ (List η))) :=
  match ks.replicationStrategy with
  | some strategy => (makeTokenReplicaMap loc m.tokenToHostOwner m.ring strategy).map some
  | none => some none

def rebuildKeyspace (loc : Locations η) (keyspaces : Dict String KeyspaceMetadata) (m : TokenMap τ η)
    (keyspace : String) (buildIfAbsent : Bool) : TokenMap τ η :=
  let current := (m.tokensToHostsByKs.get? keyspace).join
  if current.isNone = buildIfAbsent then
    match keyspaces.get? keyspace with
    | none => m
    | some ksMeta =>
      match replicaMapForKeyspace loc m ksMeta with
      | some replicaMap => { m with tokensToHostsByKs := m.tokensToHostsByKs.set keyspace replicaMap }
      | none => { m with tokensToHostsByKs := m.tokensToHostsByKs.set keyspace (some Dict.empty) }
  else m

/-- With the token map after the call. A `none` result is an exception. -/
def getReplicas (loc : Locations η) (keyspaces : Dict String KeyspaceMetadata) (m : TokenMap τ η)
    (keyspace : String) (token : τ) : TokenMap τ η × Option (List η) :=
  let m := if (m.tokensToHostsByKs.get? keyspace).join.isNone then rebuildKeyspace loc keyspaces m keyspace true
    else m
  match (m.tokensToHostsByKs.get? keyspace).join with
  | none => (m, some [])
  | some tokensToHosts =>
    if tokensToHosts.keys = [] then (m, some [])
    else
      let point := bisectRight m.ring token 0
      if point = m.ring.length then (m, m.ring.head?.bind tokensToHosts.get?)
      else (m, (m.ring[point]?).bind tokensToHosts.get?)

/-- The first ring token not below `t`, or the first. -/
def ownerToken (ring : List τ) (t : τ) : Option τ := (ring.find? (t ≤ ·)).or ring.head?

/-! ## The lists of neighbouring ring tokens -/

variable {nr numHosts : Nat} {rack : η → Option String} {walk : List η}

omit [LinearOrder τ] in
theorem prefix_selectLoop (s : Selection η) : s.replicas <+: (selectLoop rack nr numHosts walk s).replicas := by
  induction walk generalizing s with
  | nil => exact prefix_refl _
  | cons host rest ih =>
    rw [selectLoop]
    split
    · exact prefix_refl _
    split
    · exact ih s
    split
    · exact ih { s with skippedHosts := s.skippedHosts ++ [host] }
    refine IsPrefix.trans ?_ (ih _)
    simp only [Selection.place, addSkipped_eq]
    split <;> simp

variable {h : η} {s : Selection η} {wk owners : List η} {nh rf i : Nat} {loc : Locations η}
  {factors : Dict String Int} {ring : List τ} {t : τ} {strategy : Strategy}

theorem selectLoop_append_old {nh : Nat} (hh : h ∈ s.replicas) :
    selectLoop rack nr nh (wk ++ [h]) s = selectLoop rack nr nh wk s := by
  induction wk generalizing s with
  | nil => simp [selectLoop, hh]
  | cons host rest ih =>
    rw [cons_append, selectLoop, selectLoop]
    split
    · rfl
    split
    · exact ih hh
    split
    · exact ih hh
    refine ih ?_
    simp only [Selection.place, addSkipped_eq]
    split <;> simp [hh]

theorem selectLoop_stop (h : s.replicasRemaining = 0 ∨ s.replicasThisDc = nh) : selectLoop rack nr nh wk s = s := by
  cases wk with
  | nil => rfl
  | cons host rest => rw [selectLoop, if_pos h]

theorem selectLoop_cons_old {nh : Nat} (hh : h ∈ s.replicas) :
    selectLoop rack nr nh (h :: wk) s = selectLoop rack nr nh wk s := by
  rw [selectLoop]
  split
  · rename_i hs
    exact (selectLoop_stop hs).symm
  · rfl

theorem selectLoop_first (rack : η → Option String) {nr : Nat} (hrf : 0 < rf) (hn : 0 < numHosts) {h : η}
    {walk : List η} : let s := Selection.place (rack h) nr ⟨[], rf, 0, [], []⟩ h
    s.replicas = [h] ∧
      selectLoop rack nr numHosts (h :: walk) ⟨[], rf, 0, [], []⟩ = selectLoop rack nr numHosts walk s := by
  refine ⟨?_, ?_⟩
  · simp only [Selection.place, addSkipped_eq]
    split <;> simp
  · have hgo : ¬ (rf = 0 ∨ 0 = numHosts) := by omega
    rw [selectLoop, if_neg hgo, if_neg (by simp), if_neg (by simp)]

theorem selectLoop_rotate (hrf : 0 < rf) {h : η} :
    (selectLoop rack nr numHosts (walk ++ [h]) ⟨[], rf, 0, [], []⟩).replicas =
        (selectLoop rack nr numHosts (h :: walk) ⟨[], rf, 0, [], []⟩).replicas ↔
      numHosts = 0 ∨ (walk ++ [h]).head? = some h := by
  rcases Nat.eq_zero_or_pos numHosts with rfl | hpos
  · simp only [true_or, iff_true]
    have hst : ∀ w, selectLoop rack nr 0 w ⟨[], rf, 0, [], []⟩ = ⟨[], rf, 0, [], []⟩ :=
      fun w => selectLoop_stop (Or.inr rfl)
    rw [hst, hst]
  rw [or_iff_right (by omega)]
  cases walk with
  | nil => simp
  | cons g rest =>
    obtain ⟨hg, heq⟩ := selectLoop_first rack hrf hpos
    obtain ⟨hh, heq'⟩ := selectLoop_first rack hrf hpos
    rw [cons_append, head?_cons, heq, heq']
    constructor
    · intro hs
      obtain ⟨a, ha⟩ := prefix_selectLoop (Selection.place _ nr ⟨[], rf, 0, [], []⟩ g)
      obtain ⟨b, hb⟩ := prefix_selectLoop (Selection.place _ nr ⟨[], rf, 0, [], []⟩ h)
      rw [hs, ← hb, hg, hh, singleton_append, singleton_append, cons.injEq] at ha
      rw [ha.1]
    intro hs
    cases hs
    rw [selectLoop_append_old (by simp [hg]), selectLoop_cons_old (by simp [hg])]

omit [DecidableEq η] in
theorem walkFrom_succ (loc : Locations η) (hi : owners[i]? = some h) (dc : Option String) :
    if loc.datacenter h = dc then
      ∃ rest, walkFrom loc owners i dc = h :: rest ∧ walkFrom loc owners (i + 1) dc = rest ++ [h]
    else walkFrom loc owners (i + 1) dc = walkFrom loc owners i dc := by
  obtain ⟨hlt, rfl⟩ := List.getElem?_eq_some_iff.mp hi
  rw [walkFrom, walkFrom, drop_eq_getElem_cons, take_succ_eq_append_getElem hlt,
    ← append_assoc, cons_append, filter_append]
  split
  · rename_i hdc
    exact ⟨_, filter_cons_of_pos (by simpa using hdc), by simp [hdc]⟩
  rename_i hdc
  simp [hdc]

def SharedWithNext (loc : Locations η) (owners : List η) (i : Nat) : Strategy → Prop
  | .simple rf => rf ≤ 0 ∨ owners[(i + 1) % owners.length]? = owners[i]?
  | .networkTopology factors =>
    ∀ h, owners[i]? = some h → dcRf factors (loc.datacenter h) = none ∨
      -- No host of the datacenter has a rack, and then none is counted.
      (∀ g ∈ owners, loc.datacenter g = loc.datacenter h →
        ¬ (truthy (loc.datacenter g) = true ∧ truthy (loc.rack g) = true)) ∨
      (walkFrom loc owners (i + 1) (loc.datacenter h)).head? = some h
  | .localStrategy | .unknown _ => True

theorem dcHosts_eq_zero {dc : Option String} : (orEmpty (dcTables loc owners).hosts dc).length = 0 ↔
      ∀ g ∈ owners, loc.datacenter g = dc → ¬ (truthy (loc.datacenter g) ∧ truthy (loc.rack g)) := by
  rw [length_eq_zero_iff, eq_nil_iff_forall_not_mem]
  simp only [(dcTables_ok loc owners).hosts]
  grind

theorem dcReplicas_succ (hi : owners[i]? = some h) :
    dcReplicas loc factors owners (i + 1) (loc.datacenter h) = dcReplicas loc factors owners i (loc.datacenter h) ↔
      dcRf factors (loc.datacenter h) = none ∨ (orEmpty (dcTables loc owners).hosts (loc.datacenter h)).length = 0 ∨
        (walkFrom loc owners (i + 1) (loc.datacenter h)).head? = some h := by
  have hs := walkFrom_succ loc hi (loc.datacenter h)
  rw [if_pos rfl] at hs
  obtain ⟨rest, hw, hn⟩ := hs
  unfold dcReplicas addDc
  cases hrf : dcRf factors (loc.datacenter h) with
  | none => simp
  | some rf =>
    have hpos : 0 < rf := by
      unfold dcRf at hrf
      split at hrf
      · split at hrf <;> simp at hrf
        omega
      · simp at hrf
    simp only [hw, hn, reduceCtorEq, false_or]
    exact selectLoop_rotate hpos

theorem replicasAt_succ (hi : owners[i]? = some h) :
    replicasAt loc factors owners (i + 1) = replicasAt loc factors owners i ↔
      SharedWithNext loc owners i (.networkTopology factors) := by
  have hsr : SharedWithNext loc owners i (.networkTopology factors) ↔
      dcReplicas loc factors owners (i + 1) (loc.datacenter h) =
        dcReplicas loc factors owners i (loc.datacenter h) := by
    rw [dcReplicas_succ hi, dcHosts_eq_zero]
    constructor
    · exact fun hs => hs h hi
    intro hs h' hi'
    rw [hi, Option.some.injEq] at hi'
    exact hi' ▸ hs
  rw [hsr]
  constructor
  · intro heq
    rw [← replicasAt_filter, ← replicasAt_filter, heq]
  intro heq
  have hall : dcReplicas loc factors owners (i + 1) = dcReplicas loc factors owners i := by
    funext dc
    by_cases hdc : loc.datacenter h = dc
    · rw [← hdc, heq]
    have hsc := walkFrom_succ loc hi dc
    rw [if_neg hdc] at hsc
    simp only [dcReplicas, addDc, hsc]
  rw [replicasAt_eq, replicasAt_eq, hall]

theorem takeNew_succ {loc : Locations η} (rf : Int) (hi : owners[i]? = some h) :
    takeNew rf (owners.rotate (i + 1)) [] = takeNew rf (owners.rotate i) [] ↔
      SharedWithNext loc owners i (.simple rf) := by
  obtain ⟨hlt, rfl⟩ := List.getElem?_eq_some_iff.mp hi
  have hw : owners.rotate i = owners[i] :: (owners.drop (i + 1) ++ owners.take i) := by
    rw [rotate_eq_drop_append_take hlt.le, drop_eq_getElem_cons, cons_append]
  have hn : owners.rotate (i + 1) = (owners.drop (i + 1) ++ owners.take i) ++ [owners[i]] := by
    rw [rotate_eq_drop_append_take hlt, take_succ_eq_append_getElem, append_assoc]
  have hh : (owners.rotate (i + 1)).head? = owners[(i + 1) % owners.length]? := by
    rw [← rotate_mod, head?_rotate (Nat.mod_lt _ (by omega))]
  rw [SharedWithNext, ← hh, hi, hw, hn]
  exact takeNew_rotate rf _ _

/-! ## The point that the bisection finds -/

theorem point_of_mem (hr : ring.Pairwise (· < ·)) (hi : ring[i]? = some t) :
    bisectRight ring t 0 = i + 1 ∧ ownerToken ring t = some t := by
  obtain ⟨hlt, rfl⟩ := List.getElem?_eq_some_iff.mp hi
  have hs := pairwise_iff_getElem.mp hr
  obtain ⟨hle, hsp⟩ := bisectRight_splits (hr.imp le_of_lt) ring[i]
  simp only [Bool.not_eq_true', decide_eq_false_iff_not, not_lt] at hsp
  refine ⟨?_, ?_⟩
  · have h1 : i < bisectRight ring ring[i] 0 := (hsp i _ hi).mp le_rfl
    by_contra hne
    have h2 : i + 1 < bisectRight ring ring[i] 0 := by omega
    have h3 : ring[i + 1] ≤ ring[i] := (hsp _ _ (getElem?_eq_getElem (by omega))).mpr h2
    exact absurd (hs i _ hlt (by omega) (Nat.lt_succ_self i)) (not_lt.mpr h3)
  have hf : ring.find? (ring[i] ≤ ·) = some ring[i] := by
    rw [find?_eq_some_iff_getElem]
    refine ⟨by simp, i, hlt, rfl, ?_⟩
    intro j hj
    simpa using hs j i (by omega) hlt hj
  rw [ownerToken, hf]
  rfl

theorem point_of_not_mem (hr : ring.Pairwise (· < ·)) (ht : t ∉ ring) :
    ownerToken ring t = (ring[bisectRight ring t 0]?).or ring.head? := by
  obtain ⟨hle, hs⟩ := bisectRight_splits (hr.imp le_of_lt) t
  simp only [Bool.not_eq_true', decide_eq_false_iff_not, not_lt] at hs
  rw [ownerToken]
  congr 1
  rcases Nat.lt_or_eq_of_le hle with hlt | heq
  · rw [getElem?_eq_getElem hlt, find?_eq_some_iff_getElem]
    refine ⟨?_, _, hlt, rfl, ?_⟩
    · have : ¬ ring[bisectRight ring t 0] ≤ t :=
        fun h => absurd ((hs _ _ (getElem?_eq_getElem hlt)).mp h) (Nat.lt_irrefl _)
      simpa using (not_le.mp this).le
    intro j hj
    have hjlt : j < ring.length := by omega
    have hle' : ring[j] ≤ t := (hs j _ (getElem?_eq_getElem hjlt)).mpr hj
    have hne : ring[j] ≠ t := fun h => ht (h ▸ getElem_mem hjlt)
    simpa using lt_of_le_of_ne hle' hne
  rw [heq, getElem?_eq_none (le_refl _), find?_eq_none]
  intro x hx
  obtain ⟨j, hj, rfl⟩ := mem_iff_getElem.mp hx
  have hle' : ring[j] ≤ t := (hs j _ (getElem?_eq_getElem hj)).mpr (by omega)
  have hne : ring[j] ≠ t := fun h => ht (h ▸ getElem_mem hj)
  simpa using lt_of_le_of_ne hle' hne

/-! ## The lookup -/

theorem getReplicas_eq {kss : Dict String KeyspaceMetadata} {tm : TokenMap τ η} {ks : String}
    {m : Dict τ (List η)} (hks : kss.get? ks = some ⟨some strategy⟩) (hr : tm.ring.Pairwise (· < ·))
    (hm : makeTokenReplicaMap loc tm.tokenToHostOwner tm.ring strategy = some m) (hne : m.keys ≠ [])
    (hcc : ∀ m', (tm.tokensToHostsByKs.get? ks).join = some m' → m' = m) (t : τ) :
    (getReplicas loc kss tm ks t).2 = ((tm.ring[bisectRight tm.ring t 0]?).or tm.ring.head?).bind m.get? := by
  have hb : ∃ tm', tm'.ring = tm.ring ∧ (tm'.tokensToHostsByKs.get? ks).join = some m ∧
      (if (tm.tokensToHostsByKs.get? ks).join.isNone then rebuildKeyspace loc kss tm ks true
        else tm) = tm' := by
    cases hc : (tm.tokensToHostsByKs.get? ks).join with
    | none =>
      refine ⟨_, ?_, ?_, rfl⟩ <;> simp [rebuildKeyspace, hc, hks, replicaMapForKeyspace, hm]
    | some m' =>
      obtain rfl := hcc m' hc
      exact ⟨tm, rfl, hc, by simp⟩
  obtain ⟨tm', hs, hget, heq⟩ := hb
  have hp : bisectRight tm.ring t 0 ≤ tm.ring.length := (bisectRight_splits (hr.imp le_of_lt) t).1
  simp only [getReplicas, heq, hget, if_neg hne, hs]
  split
  · rename_i hend
    simp [hend]
  rw [getElem?_eq_getElem (by omega)]
  rfl

theorem makeTokenReplicaMap_lists (loc : Locations η) {owner : Dict τ η} (hrn : ring.Nodup)
    (ho : ∀ t ∈ ring, t ∈ owner.keys)
    (hstr : (∃ rf, strategy = .simple rf) ∨ ∃ factors, strategy = .networkTopology factors) :
    ∃ owners m, ∃ lists : Nat → List η, ring.mapM owner.get? = some owners ∧
      makeTokenReplicaMap loc owner ring strategy = some m ∧ m.keys = ring ∧
      (∀ i t, ring[i]? = some t → m.get? t = some (lists i)) ∧ lists ring.length = lists 0 ∧
      (∀ i < ring.length, lists (i + 1) = lists i ↔ SharedWithNext loc owners i strategy) ∧
      ∀ rf, strategy = .simple rf → 1 ≤ rf → ∀ i t, ring[i]? = some t → (lists i).head? = owner.get? t := by
  obtain ⟨owners, hmap, hlen, how⟩ := mapM_get?_eq_some ho
  have hat : ∀ i < ring.length, ∃ h, owners[i]? = some h := fun i hi =>
    ⟨owners[i], getElem?_eq_getElem (by omega)⟩
  rcases hstr with ⟨rf, rfl⟩ | ⟨factors, rfl⟩
  · obtain ⟨owners', m, hmap', hm, hk, hget⟩ := simpleReplicaMap_spec rf hrn ho
    cases hmap.symm.trans hmap'
    refine ⟨owners, m, fun i => takeNew rf _ [], hmap, hm, hk, hget, ?_, ?_, ?_⟩
    · simp only [← hlen, rotate_length, rotate_zero]
    · intro i hi
      obtain ⟨h, hh⟩ := hat i hi
      exact takeNew_succ rf hh
    rintro rf' hrf' hpos i t ht
    obtain rfl := Strategy.simple.inj hrf'
    have hi : i < owners.length := hlen ▸ (List.getElem?_eq_some_iff.mp ht).1
    have hrot : owners.rotate i = owners[i] :: (owners.drop (i + 1) ++ owners.take i) := by
      rw [rotate_eq_drop_append_take hi.le, drop_eq_getElem_cons, cons_append]
    obtain ⟨rest, hr⟩ := prefix_takeNew rf (owners.drop (i + 1) ++ owners.take i) [owners[i]]
    simp only [hrot, takeNew_cons rf hpos, ← hr, singleton_append, head?_cons]
    rw [← how i t ht, getElem?_eq_getElem hi]
  obtain ⟨owners', m, hmap', hm, hk, hget⟩ := ntsReplicaMap_spec loc factors hrn ho
  cases hmap.symm.trans hmap'
  refine ⟨owners, m, replicasAt loc factors owners, hmap, hm, hk, hget, ?_, ?_, by simp⟩
  · have hw : ∀ dc, walkFrom loc owners ring.length dc = walkFrom loc owners 0 dc := by
      simp [walkFrom, ← hlen]
    simp only [replicasAt_eq]
    congr 1
    funext dc
    simp only [dcReplicas, addDc, hw]
  intro i hi
  obtain ⟨h, hh⟩ := hat i hi
  exact replicasAt_succ hh

/-- The replicas of the range that has `t`. -/
structure FollowsRing (loc : Locations η) (keyspaces : Dict String KeyspaceMetadata) (tm : TokenMap τ η)
    (keyspace : String) (strategy : Strategy) (m : Dict τ (List η)) (t : τ) : Prop where
  replicas : (getReplicas loc keyspaces tm keyspace t).2 = (ownerToken tm.ring t).bind m.get?
  first : ∀ rf, strategy = .simple rf → 1 ≤ rf → t ∈ tm.ring →
    (getReplicas loc keyspaces tm keyspace t).2.bind List.head? = tm.tokenToHostOwner.get? t

/-- **Replica lookup** is off by one at ring tokens only. -/
theorem get_replicas_follow_ring (loc : Locations η) (keyspaces : Dict String KeyspaceMetadata)
    (tm : TokenMap τ η) (keyspace : String) (strategy : Strategy) (t : τ)
    (hks : keyspaces.get? keyspace = some ⟨some strategy⟩)
    (hstrategy : (∃ rf, strategy = .simple rf) ∨ ∃ factors, strategy = .networkTopology factors)
    (hring : tm.ring.Pairwise (· < ·)) (hne : tm.ring ≠ []) (howned : ∀ u ∈ tm.ring, u ∈ tm.tokenToHostOwner.keys)
    (hcache : ∀ m, (tm.tokensToHostsByKs.get? keyspace).join = some m →
      makeTokenReplicaMap loc tm.tokenToHostOwner tm.ring strategy = some m) :
    ∃ owners m, tm.ring.mapM tm.tokenToHostOwner.get? = some owners ∧
      makeTokenReplicaMap loc tm.tokenToHostOwner tm.ring strategy = some m ∧
      (FollowsRing loc keyspaces tm keyspace strategy m t ↔
        ∀ i, tm.ring[i]? = some t → SharedWithNext loc owners i strategy) := by
  obtain ⟨owners, m, lists, hmap, hm, hk, hget, hw, hs, hf⟩ :=
    makeTokenReplicaMap_lists loc (hring.imp ne_of_lt) howned hstrategy
  have hres := getReplicas_eq hks hring hm (by rwa [hk]) (fun m' h => Option.some.inj ((hcache m' h).symm.trans hm)) t
  refine ⟨owners, m, hmap, hm, ?_⟩
  by_cases ht : t ∈ tm.ring
  · obtain ⟨i, hlt, hit⟩ := mem_iff_getElem.mp ht
    have hi : tm.ring[i]? = some t := by rw [getElem?_eq_getElem hlt, hit]
    obtain ⟨hp, how⟩ := point_of_mem hring hi
    -- The next place in the ring, around the end.
    have hn : (getReplicas loc keyspaces tm keyspace t).2 = some (lists (i + 1)) := by
      rw [hres, hp]
      rcases Nat.lt_or_ge _ tm.ring.length with hin | hend
      · rw [getElem?_eq_getElem hin]
        exact hget _ _ (getElem?_eq_getElem hin)
      have hz : 0 < tm.ring.length := by omega
      rw [getElem?_eq_none hend, Option.none_or, head?_eq_getElem?, getElem?_eq_getElem hz,
        Option.bind_some, hget 0 _ (getElem?_eq_getElem hz), ← hw, show tm.ring.length = i + 1 by omega]
    have ho : (∀ j, tm.ring[j]? = some t → SharedWithNext loc owners j strategy) ↔
        SharedWithNext loc owners i strategy := by
      refine ⟨fun h => h i hi, fun h j hj => ?_⟩
      obtain rfl : i = j := (getElem?_inj hlt (hring.imp ne_of_lt)).mp (hi.trans hj.symm)
      exact h
    rw [ho, ← hs i hlt]
    constructor
    · intro h
      have := h.replicas
      rwa [hn, how, Option.bind_some, hget i t hi, Option.some.injEq] at this
    intro h
    refine ⟨by rw [hn, how, Option.bind_some, hget i t hi, h], ?_⟩
    intro rf hrf hpos _
    rw [hn, h]
    exact hf rf hrf hpos i t hi
  rw [← point_of_not_mem hring ht] at hres
  refine iff_of_true ⟨hres, fun rf hrf hpos hmem => absurd hmem ht⟩ ?_
  intro i hi
  exact absurd (mem_of_getElem? hi) ht

def smallRing : TokenMap Nat Nat := TokenMap.init [0, 10, 20, 30] ⟨[(0, 0), (10, 1), (20, 1), (30, 2)], by decide⟩

def oneKeyspace : Dict String KeyspaceMetadata := ⟨[("ks", ⟨some (.simple 2)⟩)], by decide⟩

theorem get_replicas_follow_ring_shared :
    ∃ m, makeTokenReplicaMap twoRacks smallRing.tokenToHostOwner smallRing.ring (.simple 2) = some m ∧
      FollowsRing twoRacks oneKeyspace smallRing "ks" (.simple 2) m 10 := by
  obtain ⟨owners, m, ho, hm, h⟩ := get_replicas_follow_ring twoRacks oneKeyspace smallRing "ks" (.simple 2) 10
    rfl (Or.inl ⟨2, rfl⟩) (by decide) (by decide) (by decide) (by simp [smallRing, TokenMap.init])
  obtain rfl : [0, 1, 1, 2] = owners := Option.some.inj (by rw [← ho]; rfl)
  refine ⟨m, hm, h.mpr ?_⟩
  intro i hi
  have hlt : i < 4 := (List.getElem?_eq_some_iff.mp hi).1
  obtain rfl : i = 1 := by interval_cases i <;> revert hi <;> decide
  exact Or.inr (by decide)

/-- It gives the next token's replicas, without the owner of 0. -/
theorem ring_token_gets_next_replicas :
    ¬ ∃ m, makeTokenReplicaMap twoRacks smallRing.tokenToHostOwner smallRing.ring (.simple 2) = some m ∧
      FollowsRing twoRacks oneKeyspace smallRing "ks" (.simple 2) m 0 := by
  rintro ⟨m, -, h⟩
  have hres : (getReplicas twoRacks oneKeyspace smallRing "ks" 0).2 = some [1, 2] := by decide
  have hf := h.first 2 rfl (by decide) (by decide)
  exact absurd hf (by decide)

end CqlDriver.Metadata
