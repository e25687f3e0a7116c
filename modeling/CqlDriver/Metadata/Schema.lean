import CqlDriver.Metadata.Refresh
import CqlDriver.Lib.Run

/-! # Schema changes and the replica cache -/

namespace CqlDriver.Metadata

open Lib Option Dict ClusterMetadata

def Strategy.eq : Strategy → Strategy → Bool
  | .simple rf, .simple rf' => rf = rf'
  | .networkTopology factors, .networkTopology factors' => factors.equals factors'
  | .localStrategy, .localStrategy => true
  | .unknown name, .unknown name' => name = name'
  | _, _ => false

/-- With `apart`, strategies that are alike here may differ. -/
def strategiesDiffer (apart : Bool) : Option Strategy → Option Strategy → Bool
  | some a, some b => !a.eq b || apart
  | none, none => false
  | _, _ => true

section Model

variable {τ : Type} [LinearOrder τ]

def TokenMap.removeKeyspace (m : TokenMap τ Address) (keyspace : String) : TokenMap τ Address :=
  { m with tokensToHostsByKs := m.tokensToHostsByKs.erase keyspace }

namespace ClusterMetadata

def keyspaceRebuilt (s : ClusterMetadata τ) (ksname : String) : ClusterMetadata τ :=
  { s with tokenMap := s.tokenMap.map fun m => rebuildKeyspace (locations s.hosts) s.keyspaces m ksname false }

def keyspaceAdded (s : ClusterMetadata τ) (ksname : String) : ClusterMetadata τ := s.keyspaceRebuilt ksname

def keyspaceUpdated (s : ClusterMetadata τ) (ksname : String) : ClusterMetadata τ := s.keyspaceRebuilt ksname

def keyspaceRemoved (s : ClusterMetadata τ) (ksname : String) : ClusterMetadata τ :=
  { s with tokenMap := s.tokenMap.map fun m => m.removeKeyspace ksname }

def rebuildOne (s : ClusterMetadata τ) (ks : String × KeyspaceMetadata) : ClusterMetadata τ :=
  let old := s.keyspaces.get? ks.1
  let s := { s with keyspaces := s.keyspaces.set ks.1 ks.2 }
  if old.isSome then s.keyspaceUpdated ks.1 else s.keyspaceAdded ks.1

def rebuildAll (s : ClusterMetadata τ) (parsed : List (String × KeyspaceMetadata)) : ClusterMetadata τ :=
  let currentKeyspaces := parsed.map Prod.fst
  let s := parsed.foldl rebuildOne s
  let removedKeyspaces := s.keyspaces.keys.filter (· ∉ currentKeyspaces)
  let s := { s with keyspaces := s.keyspaces.filterKeys (· ∈ currentKeyspaces) }
  removedKeyspaces.foldl keyspaceRemoved s

def updateKeyspace (s : ClusterMetadata τ) (ksName : String) (ksMeta : KeyspaceMetadata) (apart : Bool) :
    ClusterMetadata τ :=
  let old := s.keyspaces.get? ksName
  let s := { s with keyspaces := s.keyspaces.set ksName ksMeta }
  match old with
  | some oldMeta =>
    if strategiesDiffer apart ksMeta.replicationStrategy oldMeta.replicationStrategy then s.keyspaceUpdated ksName
    else s
  | none => s.keyspaceAdded ksName

def dropKeyspace (s : ClusterMetadata τ) (keyspace : String) : ClusterMetadata τ :=
  match s.keyspaces.pop keyspace with
  | some (_, keyspaces) => { s with keyspaces }.keyspaceRemoved keyspace
  | none => s

end ClusterMetadata

inductive MetadataOp (τ : Type)
  | rebuildAll (parsed : List (String × KeyspaceMetadata))
  | updateKeyspace (ksName : String) (ksMeta : KeyspaceMetadata) (apart : Bool)
  | dropKeyspace (keyspace : String)
  | rebuildTokenMap (partitioner : String) (tokenMap : Dict Address (List String))
  | getReplicas (keyspace : String) (token : τ)

variable (fromString : TokenClass → String → Option τ)

def metadataStep (s : ClusterMetadata τ) : MetadataOp τ → ClusterMetadata τ
  | .rebuildAll parsed => s.rebuildAll parsed
  | .updateKeyspace ksName ksMeta apart => s.updateKeyspace ksName ksMeta apart
  | .dropKeyspace keyspace => s.dropKeyspace keyspace
  | .rebuildTokenMap partitioner tokenMap =>
    -- where `from_string` raises, only the partitioner has been set
    (rebuildTokenMap fromString s partitioner tokenMap).getD { s with partitioner := some partitioner }
  | .getReplicas keyspace token =>
    { s with tokenMap := s.tokenMap.map fun m => (getReplicas (locations s.hosts) s.keyspaces m keyspace token).1 }

def ClusterMetadata.init (hosts : Dict Address Host) : ClusterMetadata τ := ⟨hosts, none, none, Dict.empty⟩

end Model

/-! ## Replica maps -/

section Maps

variable {τ η : Type} [LinearOrder τ] [DecidableEq η]

variable {owner : Dict τ η} {ring : List τ}

theorem makeTokenReplicaMap_isSome (loc : Locations η) (ho : ∀ t ∈ ring, t ∈ owner.keys) (st : Strategy) :
    ∃ replicaMap, makeTokenReplicaMap loc owner ring st = some replicaMap := by
  obtain ⟨ows, hmap, -, -⟩ := mapM_get?_eq_some ho
  cases st with
  | simple rf =>
    refine ⟨_, foldlM_set ring.zipIdx (fun i => simpleLoop rf owner _ [])
      (fun i => takeNew rf (ows.rotate i) []) ?_ Dict.empty⟩
    intro p hp
    exact simpleLoop_rotate rf (forall₂_of_mapM hmap) (by simpa using (List.snd_lt_of_mem_zipIdx hp).le)
  | networkTopology fs => exact ⟨_, by simp only [makeTokenReplicaMap, ntsReplicaMap, hmap]; rfl⟩
  | localStrategy => exact ⟨_, rfl⟩
  | unknown name => exact ⟨_, rfl⟩

omit [LinearOrder τ] in
theorem ntsLoop_congr [DecidableEq τ] {loc : Locations η} {fs fs' : Dict String Int}
    (h : ∀ dc, dcRf fs dc = dcRf fs' dc) (t : DcTables η) (ows : List η) (pls : List (τ × Nat))
    (s : Dict (Option String) Nat × Dict τ (List η)) : ntsLoop loc fs t ows pls s = ntsLoop loc fs' t ows pls s := by
  have hs : ∀ i, dcStep loc fs t ows i = dcStep loc fs' t ows i := by
    intro i
    funext s dc
    simp only [dcStep, h dc]
  induction pls generalizing s with
  | nil => rfl
  | cons p rest ih =>
    obtain ⟨tok, i⟩ := p
    simp only [ntsLoop, hs i, ih]

theorem makeTokenReplicaMap_eq {loc : Locations η} {a b : Strategy} (h : a.eq b) :
    makeTokenReplicaMap loc owner ring a = makeTokenReplicaMap loc owner ring b := by
  cases a <;> cases b <;> simp only [Strategy.eq, decide_eq_true_eq, reduceCtorEq] at h <;>
    first | rfl | (rw [h]) | skip
  rename_i fs fs'
  have hget := (equals_iff fs fs').mp h
  have hrf : ∀ dc, dcRf fs dc = dcRf fs' dc := by
    intro dc
    have hb : dc.bind fs.get? = dc.bind fs'.get? := by
      cases dc with
      | none => rfl
      | some name => exact hget name
    simp only [dcRf, hb]
  simp only [makeTokenReplicaMap, ntsReplicaMap, ntsLoop_congr hrf]

end Maps

/-! ## The cache -/

section Cache

variable {τ : Type} [LinearOrder τ] {loc : Locations Address} {keyspaces : Dict String KeyspaceMetadata}
variable {off : List String} {m : TokenMap τ Address}

def CurrentMap (loc : Locations Address) (keyspaces : Dict String KeyspaceMetadata) (m : TokenMap τ Address)
    (keyspace : String) (replicaMap : Dict τ (List Address)) : Prop :=
  ∃ strategy, keyspaces.get? keyspace = some ⟨some strategy⟩ ∧
    makeTokenReplicaMap loc m.tokenToHostOwner m.ring strategy = some replicaMap

/-- The cache agrees with the schema, but for the keyspaces `off`. -/
structure Coherent (loc : Locations Address) (keyspaces : Dict String KeyspaceMetadata) (off : List String)
    (m : TokenMap τ Address) : Prop where
  owned : ∀ t ∈ m.ring, t ∈ m.tokenToHostOwner.keys
  cached : ∀ ks ∉ off, ∀ replicaMap, m.tokensToHostsByKs.get? ks = some (some replicaMap) →
    CurrentMap loc keyspaces m ks replicaMap
  absent : ∀ ks ∉ off, keyspaces.get? ks = none → m.tokensToHostsByKs.get? ks = none

variable {keyspace : String}

variable (loc) in
theorem replicaMapForKeyspace_current (ho : ∀ t ∈ m.ring, t ∈ m.tokenToHostOwner.keys) {km : KeyspaceMetadata}
    (hks : keyspaces.get? keyspace = some km) : ∃ e, replicaMapForKeyspace loc m km = some e ∧
      ∀ replicaMap, e = some replicaMap → CurrentMap loc keyspaces m keyspace replicaMap := by
  obtain ⟨st⟩ := km
  cases st with
  | none => exact ⟨none, rfl, nofun⟩
  | some st =>
    obtain ⟨built, hb⟩ := makeTokenReplicaMap_isSome loc ho st
    refine ⟨some built, by simp [replicaMapForKeyspace, hb], ?_⟩
    rintro _ ⟨rfl⟩
    exact ⟨st, hks, hb⟩

variable (loc keyspaces) in
theorem rebuildKeyspace_cases (ho : ∀ t ∈ m.ring, t ∈ m.tokenToHostOwner.keys) {keyspace : String}
    (buildIfAbsent : Bool) : (rebuildKeyspace loc keyspaces m keyspace buildIfAbsent = m ∧
      ((m.tokensToHostsByKs.get? keyspace).join.isNone ≠ buildIfAbsent ∨ keyspaces.get? keyspace = none)) ∨
    ∃ e, rebuildKeyspace loc keyspaces m keyspace buildIfAbsent =
        { m with tokensToHostsByKs := m.tokensToHostsByKs.set keyspace e } ∧
      keyspaces.get? keyspace ≠ none ∧
      ∀ replicaMap, e = some replicaMap → CurrentMap loc keyspaces m keyspace replicaMap := by
  unfold rebuildKeyspace
  by_cases hc : (m.tokensToHostsByKs.get? keyspace).join.isNone = buildIfAbsent
  · cases hks : keyspaces.get? keyspace with
    | none =>
      simp
    | some km =>
      right
      obtain ⟨e, he, hmap⟩ := replicaMapForKeyspace_current loc ho hks
      exact ⟨e, by simp [hc, he], by simp, hmap⟩
  left
  exact ⟨if_neg hc, .inl hc⟩

theorem coherent_set {e : Option (Dict τ (List Address))} (h : Coherent loc keyspaces (keyspace :: off) m)
    (ht : keyspaces.get? keyspace ≠ none) (he : ∀ rm, e = some rm → CurrentMap loc keyspaces m keyspace rm) :
    Coherent loc keyspaces off { m with tokensToHostsByKs := m.tokensToHostsByKs.set keyspace e } := by
  refine ⟨h.owned, ?_, ?_⟩
  · intro ks hks rm hget
    rw [get?_set] at hget
    split at hget
    · rename_i heq
      subst heq
      exact he rm (some.inj hget)
    rename_i hne
    exact h.cached ks (by simp [hne, hks]) rm hget
  intro ks hks hn
  rw [get?_set]
  split
  · rename_i heq
    subst heq
    exact absurd hn ht
  rename_i hne
  exact h.absent ks (by simp [hne, hks]) hn

theorem Coherent.mono {off' : List String} (h : Coherent loc keyspaces off m) (hsub : ∀ ks ∈ off, ks ∈ off') :
    Coherent loc keyspaces off' m :=
  ⟨h.owned, fun ks hks => h.cached ks fun hmem => hks (hsub ks hmem),
    fun ks hks => h.absent ks fun hmem => hks (hsub ks hmem)⟩

theorem coherent_rebuilt (h : Coherent loc keyspaces [keyspace] m) (ht : keyspaces.get? keyspace ≠ none) :
    Coherent loc keyspaces [] (rebuildKeyspace loc keyspaces m keyspace false) := by
  rcases rebuildKeyspace_cases loc keyspaces h.owned false with
    ⟨heq, hs⟩ | ⟨entry, heq, -, hmap⟩
  · have hn : (m.tokensToHostsByKs.get? keyspace).join = none := by
      have hi := hs.resolve_right ht
      simpa using hi
    rw [heq]
    refine ⟨h.owned, ?_, ?_⟩
    · intro ks _ rm hget
      by_cases hks : ks = keyspace
      · rw [← hks, hget] at hn
        cases hn
      · exact h.cached ks (by simpa using hks) rm hget
    intro ks _ hget
    by_cases hks : ks = keyspace
    · exact absurd (hks ▸ hget) ht
    · exact h.absent ks (by simpa using hks) hget
  rw [heq]
  exact coherent_set h ht hmap

theorem coherent_lookup (h : Coherent loc keyspaces [] m) {keyspace : String} :
    Coherent loc keyspaces [] (rebuildKeyspace loc keyspaces m keyspace true) := by
  rcases rebuildKeyspace_cases loc keyspaces h.owned true with
    ⟨heq, -⟩ | ⟨entry, heq, ht, hmap⟩
  · rw [heq]
    exact h
  rw [heq]
  exact coherent_set (h.mono (by simp)) ht hmap

theorem coherent_removeKeyspace (h : Coherent loc keyspaces (keyspace :: off) m) :
    Coherent loc keyspaces off (m.removeKeyspace keyspace) := by
  refine ⟨h.owned, ?_, ?_⟩
  · intro ks hks rm hget
    simp only [TokenMap.removeKeyspace, get?_erase] at hget
    split at hget
    · cases hget
    rename_i hne
    exact h.cached ks (by simp [hne, hks]) rm hget
  intro ks hks hn
  simp only [TokenMap.removeKeyspace, get?_erase]
  split
  · rfl
  rename_i hne
  exact h.absent ks (by simp [hne, hks]) hn

variable (h : Coherent loc keyspaces [] m)
include h

theorem coherent_keyspaces {kss' : Dict String KeyspaceMetadata}
    (hs : ∀ ks ∉ off, kss'.get? ks = keyspaces.get? ks) : Coherent loc kss' off m := by
  refine ⟨h.owned, ?_, ?_⟩
  · intro ks hks rm hget
    obtain ⟨st, hstr, hmap⟩ := h.cached ks (by simp) rm hget
    exact ⟨st, (hs ks hks).trans hstr, hmap⟩
  intro ks hks hn
  exact h.absent ks (by simp) ((hs ks hks).symm.trans hn)

theorem coherent_alike {old new : KeyspaceMetadata} {apart : Bool} (hold : keyspaces.get? keyspace = some old)
    (ha : strategiesDiffer apart new.replicationStrategy old.replicationStrategy = false) :
    Coherent loc (keyspaces.set keyspace new) [] m := by
  refine ⟨h.owned, ?_, ?_⟩
  · intro ks hks rm hget
    obtain ⟨st, hstr, hmap⟩ := h.cached ks hks rm hget
    by_cases heq : ks = keyspace
    · subst heq
      obtain rfl := some.inj (hold.symm.trans hstr)
      obtain ⟨newStrategy⟩ := new
      cases newStrategy with
      | none => cases ha
      | some newStrategy =>
        simp only [strategiesDiffer, Bool.or_eq_false_iff, Bool.not_eq_false'] at ha
        refine ⟨newStrategy, by simp, ?_⟩
        rw [makeTokenReplicaMap_eq ha.1]
        exact hmap
    · exact ⟨st, by simpa [heq] using hstr, hmap⟩
  intro ks hks hn
  rw [get?_set] at hn
  split at hn
  · cases hn
  · exact h.absent ks hks hn

end Cache

/-! ## Every operation -/

section Steps

variable {τ : Type} [LinearOrder τ] {off : List String} {s : ClusterMetadata τ}

def CacheOk (off : List String) (s : ClusterMetadata τ) : Prop :=
  ∀ m, s.tokenMap = some m → Coherent (locations s.hosts) s.keyspaces off m

namespace ClusterMetadata

theorem cacheOk_map {s' : ClusterMetadata τ} {g : TokenMap τ Address → TokenMap τ Address} (h : CacheOk off s)
    (ht : s'.tokenMap = s.tokenMap.map g) {off' : List String}
    (hg : ∀ m, Coherent (locations s.hosts) s.keyspaces off m →
      Coherent (locations s'.hosts) s'.keyspaces off' (g m)) : CacheOk off' s' := by
  intro m hm
  rw [ht, map_eq_some_iff] at hm
  obtain ⟨m', hm', rfl⟩ := hm
  exact hg m' (h m' hm')

theorem cacheOk_set (h : CacheOk [] s) (kn : String) (km : KeyspaceMetadata) :
    CacheOk [kn] { s with keyspaces := s.keyspaces.set kn km } := by
  intro m hm
  apply coherent_keyspaces (h m hm)
  intro ks hks
  simp only [List.mem_singleton] at hks
  simp [hks]

variable {ksname : String}

theorem cacheOk_rebuilt (h : CacheOk [ksname] s) (ht : s.keyspaces.get? ksname ≠ none) :
    CacheOk [] (s.keyspaceRebuilt ksname) :=
  cacheOk_map h rfl fun _ hm => coherent_rebuilt hm ht

theorem cacheOk_rebuildOne (h : CacheOk [] s) (ks : String × KeyspaceMetadata) : CacheOk [] (s.rebuildOne ks) := by
  have hset := cacheOk_set h ks.1 ks.2
  have hr := cacheOk_rebuilt hset (by simp)
  unfold rebuildOne keyspaceUpdated keyspaceAdded
  simpa only [ite_self] using hr

theorem cacheOk_keyspaceRemoved (h : CacheOk (ksname :: off) s) : CacheOk off (s.keyspaceRemoved ksname) :=
  cacheOk_map h rfl fun _ hm => coherent_removeKeyspace hm

variable (h : CacheOk [] s)
include h

theorem cacheOk_rebuildAll (parsed : List (String × KeyspaceMetadata)) : CacheOk [] (s.rebuildAll parsed) := by
  have hl : CacheOk [] (parsed.foldl rebuildOne s) := by
    induction parsed generalizing s with
    | nil => exact h
    | cons ks rest ih => exact ih (cacheOk_rebuildOne h ks)
  have hrm : ∀ removed (s : ClusterMetadata τ), CacheOk removed s → CacheOk [] (removed.foldl keyspaceRemoved s) := by
    intro removed
    induction removed with
    | nil => exact fun s hs => hs
    | cons ksname rest ih => exact fun s hs => ih _ (cacheOk_keyspaceRemoved hs)
  apply hrm
  intro m hm
  apply coherent_keyspaces (hl m hm)
  intro ks hks
  rw [get?_filterKeys]
  split
  · rfl
  rename_i hnot
  -- What is neither current nor removed was not there.
  rw [eq_comm, get?_eq_none]
  intro hmem
  apply hks
  simpa [hmem] using hnot

theorem cacheOk_updateKeyspace {kn : String} (km : KeyspaceMetadata) (apart : Bool) :
    CacheOk [] (s.updateKeyspace kn km apart) := by
  have hr := cacheOk_rebuilt (cacheOk_set h kn km) (by simp)
  unfold updateKeyspace
  cases hold : s.keyspaces.get? kn with
  | none => exact hr
  | some old =>
    simp only
    split
    · exact hr
    rename_i ha
    intro m hm
    exact coherent_alike (h m hm) hold (by simpa using ha)

theorem cacheOk_dropKeyspace {keyspace : String} : CacheOk [] (s.dropKeyspace keyspace) := by
  unfold dropKeyspace
  cases hpop : s.keyspaces.pop keyspace with
  | none => exact h
  | some popped =>
    obtain ⟨km, keyspaces⟩ := popped
    obtain ⟨-, rfl⟩ := (pop_eq_some _ _ _ _).mp hpop
    apply cacheOk_keyspaceRemoved
    intro m hm
    apply coherent_keyspaces (h m hm)
    intro ks hks
    simp only [List.mem_singleton] at hks
    simp [hks]

end ClusterMetadata

variable (fromString : TokenClass → String → Option τ)

variable {tokenMap : Dict Address (List String)}

theorem coherent_buildTokenMap {loc : Locations Address} {keyspaces : Dict String KeyspaceMetadata}
    {tokenClass : TokenClass} {m : TokenMap τ Address} (h : buildTokenMap fromString tokenClass tokenMap = some m) :
    Coherent loc keyspaces [] m := by
  unfold buildTokenMap tokenMapOf at h
  simp only [bind_eq_bind, bind_eq_some_iff, pure_def, some.injEq] at h
  obtain ⟨owned, -, rfl⟩ := h
  refine ⟨?_, by intros; contradiction, fun _ _ _ => rfl⟩
  intro t ht
  apply (mem_keys_setAll owned).mpr
  right
  exact (List.mem_insertionSort _).mp ht

theorem cacheOk_rebuildTokenMap {s' : ClusterMetadata τ} {part : String}
    (h : rebuildTokenMap fromString s part tokenMap = some s') : CacheOk [] s' := by
  unfold rebuildTokenMap at h
  split at h
  · cases h
    exact fun m hm => nomatch hm
  obtain ⟨built, hb, rfl⟩ := map_eq_some_iff.mp h
  rintro m ⟨rfl⟩
  exact coherent_buildTokenMap fromString hb

theorem getReplicas_fst (loc : Locations Address) (keyspaces : Dict String KeyspaceMetadata) (m : TokenMap τ Address)
    (keyspace : String) (tok : τ) : (getReplicas loc keyspaces m keyspace tok).1 =
      if (m.tokensToHostsByKs.get? keyspace).join.isNone then rebuildKeyspace loc keyspaces m keyspace true
      else m := by
  unfold getReplicas
  simp only
  repeat' split
  all_goals rfl

variable {op : MetadataOp τ}

theorem metadataStep_cacheOk (h : CacheOk [] s) : CacheOk [] (metadataStep fromString s op) := by
  cases op with
  | rebuildAll parsed => exact cacheOk_rebuildAll h parsed
  | updateKeyspace kn km apart => exact cacheOk_updateKeyspace h km apart
  | dropKeyspace keyspace => exact cacheOk_dropKeyspace h
  | rebuildTokenMap part tokenMap =>
    simp only [metadataStep]
    cases hreb : rebuildTokenMap fromString s part tokenMap with
    | none => exact h
    | some s' => exact cacheOk_rebuildTokenMap fromString hreb
  | getReplicas keyspace tok =>
    refine cacheOk_map h rfl fun m hm => ?_
    rw [getReplicas_fst]
    split
    · exact coherent_lookup hm
    · exact hm

theorem metadataStep_hosts : (metadataStep fromString s op).hosts = s.hosts := by
  have hone : ∀ (s : ClusterMetadata τ) ks, (s.rebuildOne ks).hosts = s.hosts := by
    intro s ks
    unfold rebuildOne keyspaceUpdated keyspaceAdded
    simp only [ite_self]
    rfl
  have hf : ∀ {α} (g : ClusterMetadata τ → α → ClusterMetadata τ), (∀ s a, (g s a).hosts = s.hosts) →
      ∀ (l : List α) s, (l.foldl g s).hosts = s.hosts := by
    intro α g hg l
    induction l with
    | nil => exact fun _ => rfl
    | cons a rest ih => exact fun s => (ih _).trans (hg s a)
  cases op with
  | rebuildAll parsed =>
    refine (hf _ ?_ _ _).trans (hf _ hone parsed s)
    exact fun _ _ => rfl
  | updateKeyspace kn km apart =>
    simp only [metadataStep, updateKeyspace]
    repeat' split
    all_goals rfl
  | dropKeyspace keyspace =>
    simp only [metadataStep, dropKeyspace]
    split <;> rfl
  | rebuildTokenMap part tokenMap =>
    simp only [metadataStep]
    cases hreb : rebuildTokenMap fromString s part tokenMap with
    | none => rfl
    | some s' =>
      unfold rebuildTokenMap at hreb
      split at hreb
      · cases hreb
        rfl
      obtain ⟨_, -, rfl⟩ := map_eq_some_iff.mp hreb
      rfl
  | getReplicas keyspace tok => rfl

end Steps

section Coherence

variable {τ : Type} [LinearOrder τ]

def lookUp (ring : List τ) (replicaMap : Dict τ (List Address)) (token : τ) : Option (List Address) :=
  if replicaMap.keys = [] then some []
  else if bisectRight ring token 0 = ring.length then ring.head?.bind replicaMap.get?
  else (ring[bisectRight ring token 0]?).bind replicaMap.get?

theorem getReplicas_snd (loc : Locations Address) (keyspaces : Dict String KeyspaceMetadata) (m : TokenMap τ Address)
    (keyspace : String) (token : τ) : (getReplicas loc keyspaces m keyspace token).2 =
      match ((getReplicas loc keyspaces m keyspace token).1.tokensToHostsByKs.get? keyspace).join with
      | none => some []
      | some rm => lookUp (getReplicas loc keyspaces m keyspace token).1.ring rm token := by
  rw [getReplicas_fst]
  unfold getReplicas
  simp only
  split
  · rename_i hn
    rw [hn]
  rename_i hs
  rw [hs]
  simp only [lookUp]
  split_ifs <;> rfl

variable {keyspace : String}

theorem getReplicas_coherent {loc : Locations Address} {keyspaces : Dict String KeyspaceMetadata}
    {m : TokenMap τ Address} (h : Coherent loc keyspaces [] m) {strategy : Strategy}
    (hks : keyspaces.get? keyspace = some ⟨some strategy⟩) {token : τ} :
    ∃ replicaMap, makeTokenReplicaMap loc m.tokenToHostOwner m.ring strategy = some replicaMap ∧
      (getReplicas loc keyspaces m keyspace token).2 = lookUp m.ring replicaMap token := by
  obtain ⟨replicaMap, hmap⟩ := makeTokenReplicaMap_isSome loc h.owned strategy
  refine ⟨replicaMap, hmap, ?_⟩
  have hb : (getReplicas loc keyspaces m keyspace token).1.ring = m.ring ∧
      ((getReplicas loc keyspaces m keyspace token).1.tokensToHostsByKs.get? keyspace).join = some replicaMap := by
    rw [getReplicas_fst]
    cases hc : (m.tokensToHostsByKs.get? keyspace).join with
    | none => simp [rebuildKeyspace, hc, hks, replicaMapForKeyspace, hmap]
    | some cached =>
      obtain ⟨st', hks', hmap'⟩ := h.cached keyspace (by simp) cached (join_eq_some_iff.mp hc)
      obtain rfl : st' = strategy := by
        rw [hks] at hks'
        simpa using hks'.symm
      cases hmap'.symm.trans hmap
      simpa using hc
  rw [getReplicas_snd, hb.2, hb.1]

theorem getReplicas_no_strategy {loc : Locations Address} {keyspaces : Dict String KeyspaceMetadata}
    {m : TokenMap τ Address} (h : Coherent loc keyspaces [] m)
    (hks : ∀ st, keyspaces.get? keyspace ≠ some ⟨some st⟩) {tok : τ} :
    (getReplicas loc keyspaces m keyspace tok).2 = some [] := by
  have ha : Coherent loc keyspaces [] (getReplicas loc keyspaces m keyspace tok).1 := by
    rw [getReplicas_fst]
    split
    · exact coherent_lookup h
    · exact h
  rw [getReplicas_snd]
  split
  · rfl
  rename_i rm hs
  obtain ⟨st, hstr, -⟩ :=
    ha.cached keyspace (by simp) rm (join_eq_some_iff.mp hs)
  exact absurd hstr (hks st)

/-- **The replica cache** is that of the current strategies and ring. -/
theorem replica_cache_coherent (fromString : TokenClass → String → Option τ) (hosts : Dict Address Host)
    (ops : List (MetadataOp τ)) : let s := run (metadataStep fromString) (ClusterMetadata.init hosts) ops
    ∀ m, s.tokenMap = some m → (∀ keyspace replicaMap, m.tokensToHostsByKs.get? keyspace = some (some replicaMap) →
        ∃ strategy, s.keyspaces.get? keyspace = some ⟨some strategy⟩ ∧
          makeTokenReplicaMap (locations hosts) m.tokenToHostOwner m.ring strategy = some replicaMap) ∧
      (∀ keyspace, s.keyspaces.get? keyspace = none → m.tokensToHostsByKs.get? keyspace = none) ∧
      (∀ keyspace strategy token, s.keyspaces.get? keyspace = some ⟨some strategy⟩ →
        ∃ replicaMap, makeTokenReplicaMap (locations hosts) m.tokenToHostOwner m.ring strategy = some replicaMap ∧
          (getReplicas (locations hosts) s.keyspaces m keyspace token).2 = lookUp m.ring replicaMap token) ∧
      ∀ keyspace token, (∀ strategy, s.keyspaces.get? keyspace ≠ some ⟨some strategy⟩) →
        (getReplicas (locations hosts) s.keyspaces m keyspace token).2 = some [] := by
  intro s m hm
  have hst : CacheOk [] (ClusterMetadata.init (τ := τ) hosts) := nofun
  have hok : CacheOk [] s ∧ s.hosts = hosts := by
    have hsp : ∀ (s : ClusterMetadata τ) op, CacheOk [] s ∧ s.hosts = hosts →
        CacheOk [] (metadataStep fromString s op) ∧ (metadataStep fromString s op).hosts = hosts := by
      rintro s op ⟨hs, hh⟩
      exact ⟨metadataStep_cacheOk fromString hs, (metadataStep_hosts fromString).trans hh⟩
    exact run_invariant_all hsp ops ⟨hst, rfl⟩
  have hcoh := hok.1 m hm
  rw [hok.2] at hcoh
  refine ⟨fun keyspace => hcoh.cached keyspace (by simp), fun keyspace => hcoh.absent keyspace (by simp), ?_, ?_⟩
  · intro keyspace strategy token hks
    exact getReplicas_coherent hcoh hks
  intro keyspace token hks
  exact getReplicas_no_strategy hcoh hks

end Coherence

end CqlDriver.Metadata
