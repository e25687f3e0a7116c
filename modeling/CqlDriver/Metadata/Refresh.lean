import CqlDriver.Lib.Traversal
import CqlDriver.Metadata.TokenMap
import Mathlib.Data.List.Sort

/-!
# Refreshing the nodes

`ControlConnection._refresh_node_list_and_token_map` takes the hosts from the rows of `system.local`
and `system.peers`, and rebuilds the token map when a flag was raised on the way. A `Host` object
stands for its address.
-/

namespace CqlDriver.Metadata

open Lib List Option Dict

abbrev Address := String

structure Host where
  datacenter : Option String
  rack : Option String
  deriving DecidableEq

structure ClusterMetadata (τ : Type) where
  hosts : Dict Address Host
  partitioner : Option String
  tokenMap : Option (TokenMap τ Address)
  keyspaces : Dict String KeyspaceMetadata

structure LocalRow where
  partitioner : Option String
  tokens : Option (List String)
  datacenter : Option String
  rack : Option String

structure PeerRow where
  peer : Address
  rpcAddress : Option Address
  /-- The outer `none` is a column that was not selected. -/
  tokens : Option (Option (List String))
  datacenter : Option String
  rack : Option String

def locations (hosts : Dict Address Host) : Locations Address where
  datacenter addr := (hosts.get? addr).bind Host.datacenter
  rack addr := (hosts.get? addr).bind Host.rack

/-! ## `rebuild_token_map` -/

inductive TokenClass
  | md5
  | murmur3
  | bytes
  deriving DecidableEq

def endsWith (s suffix : String) : Bool := suffix.toList.isSuffixOf s.toList

def tokenClassOf (partitioner : String) : Option TokenClass :=
  if endsWith partitioner "RandomPartitioner" then some .md5
  else if endsWith partitioner "Murmur3Partitioner" then some .murmur3
  else if endsWith partitioner "ByteOrderedPartitioner" then some .bytes
  else none

section Model

variable {τ : Type} [LinearOrder τ]
/- `from_string` of a token class, `none` when it raises. -/
variable (fromString : TokenClass → String → Option τ)
/- `_translate_address` -/
variable (translate : Address → Address)
/- What `on_add` and `on_remove` of a host set off, a refresh of their own included. -/
variable (signal : Address → ClusterMetadata τ → ClusterMetadata τ)

def owned (tokenMap : Dict Address (List String)) : List (String × Address) :=
  tokenMap.entries.flatMap fun (host, tokens) => tokens.map (·, host)

def tokenMapOf (tokenClass : TokenClass) (owners : List (String × Address)) : Option (TokenMap τ Address) := do
  let owned ← owners.mapM fun (token, host) => (fromString tokenClass token).map (·, host)
  return TokenMap.init ((owned.map Prod.fst).insertionSort (· ≤ ·)) (Dict.empty.setAll owned)

def buildTokenMap (tokenClass : TokenClass) (tokenMap : Dict Address (List String)) : Option (TokenMap τ Address) :=
  tokenMapOf fromString tokenClass (owned tokenMap)

def rebuildTokenMap (metadata : ClusterMetadata τ) (partitioner : String) (tokenMap : Dict Address (List String)) :
    Option (ClusterMetadata τ) :=
  match tokenClassOf partitioner with
  | none => some { metadata with partitioner := some partitioner, tokenMap := none }
  | some tokenClass =>
    (buildTokenMap fromString tokenClass tokenMap).map fun built =>
      { metadata with partitioner := some partitioner, tokenMap := some built }

/-! ## The refresh -/

def updateLocationInfo (metadata : ClusterMetadata τ) (addr : Address) (host : Host) (datacenter rack : Option String) :
    ClusterMetadata τ × Bool :=
  if host.datacenter = datacenter ∧ host.rack = rack then (metadata, false)
  else ({ metadata with hosts := metadata.hosts.set addr ⟨datacenter, rack⟩ }, true)

def rpcFromPeerRow (row : PeerRow) : Address :=
  match row.rpcAddress with
  | none => translate row.peer
  | some addr => if addr = "" ∨ addr = "0.0.0.0" ∨ addr = "::" then translate row.peer else translate addr

structure Scan (τ : Type) where
  metadata : ClusterMetadata τ
  foundHosts : List Address
  tokenMap : Dict Address (List String)
  shouldRebuildTokenMap : Bool

def addTokens (partitioner : Option String) (tokenMap : Dict Address (List String)) (addr : Address)
    (tokens : Option (List String)) : Dict Address (List String) :=
  match tokens with
  | some (token :: rest) => if truthy partitioner then tokenMap.set addr (token :: rest) else tokenMap
  | _ => tokenMap

def scanLocal (metadata : ClusterMetadata τ) (control : Address) (localRow : Option LocalRow) (force : Bool) : Scan τ :=
  let rebuild := force || metadata.partitioner.isNone
  match localRow with
  | none => ⟨metadata, [], Dict.empty, rebuild⟩
  | some row =>
    match metadata.hosts.get? control with
    | none => ⟨metadata, [control], Dict.empty, rebuild⟩
    | some host =>
      -- what `_update_location_info` returns is dropped here
      ⟨(updateLocationInfo metadata control host row.datacenter row.rack).1, [control],
        addTokens row.partitioner Dict.empty control row.tokens, rebuild⟩

def scanPeer (partitioner : Option String) (s : Scan τ) (row : PeerRow) : Scan τ :=
  let addr := rpcFromPeerRow translate row
  if row.tokens = some none ∨ row.tokens = some (some []) then s
  else if addr ∈ s.foundHosts then s
  else
    let (metadata, rebuild) :=
      match s.metadata.hosts.get? addr with
      | none =>
        (signal addr { s.metadata with hosts := s.metadata.hosts.set addr ⟨row.datacenter, row.rack⟩ }, true)
      | some host => updateLocationInfo s.metadata addr host row.datacenter row.rack
    ⟨metadata, s.foundHosts ++ [addr], addTokens partitioner s.tokenMap addr row.tokens.join,
      s.shouldRebuildTokenMap || rebuild⟩

def removeOld (control : Address) (s : Scan τ) (addr : Address) : Scan τ :=
  if addr ≠ control ∧ addr ∉ s.foundHosts then
    { s with
      shouldRebuildTokenMap := true
      metadata :=
        if addr ∈ s.metadata.hosts.keys then signal addr { s.metadata with hosts := s.metadata.hosts.erase addr }
        else s.metadata }
  else s

def refreshNodeListAndTokenMap (metadata : ClusterMetadata τ) (control : Address) (localRow : Option LocalRow)
    (peers : List PeerRow) (forceTokenRebuild : Bool) : Option (ClusterMetadata τ) :=
  let partitioner := localRow.bind LocalRow.partitioner
  let s := peers.foldl (scanPeer translate signal partitioner) (scanLocal metadata control localRow forceTokenRebuild)
  let s := s.metadata.hosts.keys.foldl (removeOld signal control) s
  match partitioner with
  | some partitioner =>
    if truthy (some partitioner) && s.shouldRebuildTokenMap then
      rebuildTokenMap fromString s.metadata partitioner s.tokenMap
    else some s.metadata
  | none => some s.metadata

/-! ## What the rows say -/

def keptPeers (found : List Address) : List PeerRow → List PeerRow
  | [] => []
  | row :: rest =>
    let addr := rpcFromPeerRow translate row
    if row.tokens = some none ∨ row.tokens = some (some []) then keptPeers found rest
    else if addr ∈ found then keptPeers found rest
    else row :: keptPeers (found ++ [addr]) rest

def localTokens (control : Address) (row : LocalRow) : List (String × Address) := (row.tokens.getD []).map (·, control)

def peerTokens (peers : List PeerRow) : List (String × Address) :=
  peers.flatMap fun peer => (peer.tokens.join.getD []).map (·, rpcFromPeerRow translate peer)

/-- The tokens in the rows, with the addresses of those who own them. -/
def tokenRows (control : Address) (row : LocalRow) (peers : List PeerRow) : List (String × Address) :=
  localTokens control row ++ peerTokens translate (keptPeers translate [control] peers)

/-- Asked for, never built, or a peer is new, moved or gone. -/
def RebuildDue (metadata : ClusterMetadata τ) (control : Address) (peers : List PeerRow) (force : Bool) : Prop :=
  force = true ∨ metadata.partitioner = none ∨
    (∃ row ∈ keptPeers translate [control] peers,
      metadata.hosts.get? (rpcFromPeerRow translate row) ≠ some ⟨row.datacenter, row.rack⟩) ∨
    ∃ addr ∈ metadata.hosts.keys, addr ≠ control ∧
      addr ∉ (keptPeers translate [control] peers).map (rpcFromPeerRow translate)

def relocated (metadata : ClusterMetadata τ) (control : Address) (row : LocalRow) : Dict Address Host :=
  if control ∈ metadata.hosts.keys then metadata.hosts.set control ⟨row.datacenter, row.rack⟩ else metadata.hosts

/-- The same owners, and the same replicas everywhere. -/
structure Fits (hosts : Dict Address Host) (keyspaces : Dict String KeyspaceMetadata) (m fresh : TokenMap τ Address) :
    Prop where
  owners : ∀ t, m.tokenToHostOwner.get? t = fresh.tokenToHostOwner.get? t
  replicas : ∀ keyspace ∈ keyspaces.keys, ∀ t,
    (getReplicas (locations hosts) keyspaces m keyspace t).2 = (getReplicas (locations hosts) keyspaces fresh keyspace t).2

def UpToDate (metadata : ClusterMetadata τ) (fresh : TokenMap τ Address) : Prop :=
  ∃ m, metadata.tokenMap = some m ∧ Fits metadata.hosts metadata.keyspaces m fresh

end Model

/-! ## What the scan finds -/

section Scan

variable {τ : Type} (translate : Address → Address) (signal : Address → ClusterMetadata τ → ClusterMetadata τ)
variable {metadata : ClusterMetadata τ} {control : Address} {row : LocalRow}

structure ScanOk (partitioner : Option String) (s : Scan τ) (peers : List PeerRow) (s' : Scan τ) : Prop where
  foundHosts : s'.foundHosts = s.foundHosts ++ (keptPeers translate s.foundHosts peers).map (rpcFromPeerRow translate)
  tokenMap : truthy partitioner → s.tokenMap.keys ⊆ s.foundHosts →
    owned s'.tokenMap = owned s.tokenMap ++ peerTokens translate (keptPeers translate s.foundHosts peers)
  rebuild : s'.shouldRebuildTokenMap = true ↔ s.shouldRebuildTokenMap = true ∨
    ∃ row ∈ keptPeers translate s.foundHosts peers,
      s.metadata.hosts.get? (rpcFromPeerRow translate row) ≠ some ⟨row.datacenter, row.rack⟩
  metadata : s'.shouldRebuildTokenMap = false → s'.metadata = s.metadata

variable {s : Scan τ} {peers : List PeerRow} {addr : Address}

variable {translate} in
theorem scanPeer_skip {part : Option String} {row : PeerRow}
    (h : (row.tokens = some none ∨ row.tokens = some (some [])) ∨ rpcFromPeerRow translate row ∈ s.foundHosts) :
    scanPeer translate signal part s row = s := by
  unfold scanPeer
  dsimp only
  split_ifs with he hf
  · rfl
  · rfl
  · exact absurd h (by tauto)

theorem scanPeer_kept {part : Option String} (s : Scan τ) {row : PeerRow}
    (ht : ¬ (row.tokens = some none ∨ row.tokens = some (some [])))
    (hf : rpcFromPeerRow translate row ∉ s.foundHosts) :
    let s' := scanPeer translate signal part s row
    let addr := rpcFromPeerRow translate row
    s'.foundHosts = s.foundHosts ++ [addr] ∧ s'.tokenMap = addTokens part s.tokenMap addr row.tokens.join ∧
      (s.metadata.hosts.get? addr = some ⟨row.datacenter, row.rack⟩ ∧ s'.metadata = s.metadata ∧
          s'.shouldRebuildTokenMap = s.shouldRebuildTokenMap ∨
        s.metadata.hosts.get? addr ≠ some ⟨row.datacenter, row.rack⟩ ∧ s'.shouldRebuildTokenMap) := by
  simp only [scanPeer, if_neg ht, if_neg hf, true_and]
  cases hget : s.metadata.hosts.get? (rpcFromPeerRow translate row) with
  | none => simp
  | some host =>
    by_cases hs : host.datacenter = row.datacenter ∧ host.rack = row.rack
    · have hh : host = ⟨row.datacenter, row.rack⟩ := by
        rw [← hs.1, ← hs.2]
      simp only [updateLocationInfo, if_pos hs]
      exact .inl ⟨by rw [hh], by simp⟩
    right
    refine ⟨?_, by simp [updateLocationInfo, hs]⟩
    rintro heq
    cases heq
    exact hs ⟨rfl, rfl⟩

theorem owned_addTokens {part : Option String} (hp : truthy part) {tokenMap : Dict Address (List String)}
    (h : addr ∉ tokenMap.keys) (tokens : Option (List String)) :
    owned (addTokens part tokenMap addr tokens) = owned tokenMap ++ (tokens.getD []).map (·, addr) := by
  match tokens with
  | none | some [] => simp [addTokens]
  | some (token :: rest) => simp [addTokens, hp, owned, entries_set_of_not_mem h]

theorem keys_addTokens {part : Option String} {tokenMap : Dict Address (List String)} {tokens : Option (List String)} :
    (addTokens part tokenMap addr tokens).keys ⊆ tokenMap.keys ++ [addr] := by
  unfold addTokens
  split
  · split_ifs
    · intro a ha
      rw [mem_append, mem_singleton]
      exact ((mem_keys_set ..).mp ha).symm
    · exact subset_append_left ..
  · exact subset_append_left ..

theorem scanPeers_ok (part : Option String) (peers : List PeerRow) (s : Scan τ) :
    ScanOk translate part s peers (peers.foldl (scanPeer translate signal part) s) := by
  induction peers generalizing s with
  | nil => exact ⟨by simp [keptPeers], by simp [keptPeers, peerTokens], by simp [keptPeers], fun _ => rfl⟩
  | cons row rest ih =>
    rw [foldl_cons]
    by_cases hsk : (row.tokens = some none ∨ row.tokens = some (some [])) ∨ rpcFromPeerRow translate row ∈ s.foundHosts
    · have hk : keptPeers translate s.foundHosts (row :: rest) = keptPeers translate s.foundHosts rest := by
        rw [keptPeers]
        split_ifs with he hfn
        · rfl
        · rfl
        · exact absurd hsk (by tauto)
      rw [scanPeer_skip signal hsk]
      obtain ⟨hfn, htk, hreb, hm⟩ := ih s
      exact ⟨by rw [hk]; exact hfn, by rw [hk]; exact htk, by rw [hk]; exact hreb, hm⟩
    rw [not_or] at hsk
    have hk : keptPeers translate s.foundHosts (row :: rest) =
        row :: keptPeers translate (s.foundHosts ++ [rpcFromPeerRow translate row]) rest := by
      rw [keptPeers]
      simp only [if_neg hsk.1, if_neg hsk.2]
    obtain ⟨hf, ht, hc⟩ := scanPeer_kept translate signal s hsk.1 hsk.2
    obtain ⟨hfn, htk, hreb, hm⟩ := ih _
    rw [hf] at hfn htk hreb
    refine ⟨by rw [hk, hfn]; simp, fun hp hs => ?_, ?_, ?_⟩
    · have hsub : (scanPeer translate signal part s row).tokenMap.keys ⊆ s.foundHosts ++ [rpcFromPeerRow translate row] := by
        rw [ht]
        exact List.Subset.trans keys_addTokens (append_subset.mpr
          ⟨List.Subset.trans hs (subset_append_left ..), subset_append_right ..⟩)
      rw [hk, htk hp hsub, ht, owned_addTokens hp fun hmem => hsk.2 (hs hmem)]
      simp [peerTokens]
    · rw [hk, hreb]
      rcases hc with ⟨hget, hs, hfg⟩ | ⟨hget, hfg⟩
      · simp [hs, hfg, hget]
      · simp [hfg, hget]
    intro hfl
    rw [hm hfl]
    rcases hc with ⟨-, hs, -⟩ | ⟨-, hfg⟩
    · exact hs
    have htr := hreb.mpr (.inl hfg)
    rw [hfl] at htr
    cases htr

theorem removeOlds_ok (control : Address) (addrs : List Address) (s : Scan τ) :
    let s' := addrs.foldl (removeOld signal control) s
    s'.tokenMap = s.tokenMap ∧
      (s'.shouldRebuildTokenMap ↔ s.shouldRebuildTokenMap ∨
        ∃ addr ∈ addrs, addr ≠ control ∧ addr ∉ s.foundHosts) ∧
      (s'.shouldRebuildTokenMap = false → s' = s) := by
  induction addrs generalizing s with
  | nil => simp
  | cons addr rest ih =>
    obtain ⟨ht, hreb, hs⟩ := ih _
    by_cases hg : addr ≠ control ∧ addr ∉ s.foundHosts
    · have hold : (removeOld signal control s addr).tokenMap = s.tokenMap ∧
          (removeOld signal control s addr).shouldRebuildTokenMap := by
        simp [removeOld, if_pos hg]
      have hfl := hreb.mpr (.inl hold.2)
      refine ⟨ht.trans hold.1, ⟨fun _ => ?_, fun _ => hfl⟩, fun hf => ?_⟩
      · exact .inr ⟨addr, mem_cons_self, hg⟩
      · rw [foldl_cons, hfl] at hf
        cases hf
    have hk : removeOld signal control s addr = s := by simp only [removeOld, if_neg hg]
    rw [hk] at ht hreb hs
    rw [foldl_cons, hk]
    refine ⟨ht, ?_, hs⟩
    rw [hreb]
    simp [hg]

theorem scanLocal_some (metadata : ClusterMetadata τ) (control : Address) {row : LocalRow} (force : Bool) :
    let s := scanLocal metadata control (some row) force
    s.foundHosts = [control] ∧ (truthy row.partitioner → s.tokenMap.keys ⊆ [control] ∧
        owned s.tokenMap = if control ∈ metadata.hosts.keys then localTokens control row else []) ∧
      (s.shouldRebuildTokenMap ↔ force ∨ metadata.partitioner = none) ∧
      s.metadata = { metadata with hosts := relocated metadata control row } := by
  unfold scanLocal relocated
  cases hget : metadata.hosts.get? control with
  | none =>
    have hmem := (get?_eq_none _ _).mp hget
    simp [hmem, show owned Dict.empty = [] from rfl]
  | some host =>
    have hmem := mem_keys_of_get? hget
    simp only [Bool.or_eq_true, isNone_iff_eq_none, true_and, if_pos hmem]
    refine ⟨fun hp => ⟨keys_addTokens, ?_⟩, ?_⟩
    · rw [owned_addTokens hp (by simp)]
      rfl
    unfold updateLocationInfo
    split_ifs with hs
    · have hset : metadata.hosts.set control ⟨row.datacenter, row.rack⟩ = metadata.hosts := by
        apply set_of_get?
        rw [hget, ← hs.1, ← hs.2]
      rw [hset]
    · rfl

theorem keptPeers_not_found (found : List Address) :
    ∀ row ∈ keptPeers translate found peers, rpcFromPeerRow translate row ∉ found := by
  induction peers generalizing found with
  | nil => simp [keptPeers]
  | cons row rest ih =>
    intro x hx
    rw [keptPeers] at hx
    split_ifs at hx with he hf
    · exact ih found x hx
    · exact ih found x hx
    rcases mem_cons.mp hx with rfl | hx
    · exact hf
    · intro hmem
      exact ih _ x hx (mem_append_left _ hmem)

theorem mem_keys_relocated : addr ∈ (relocated metadata control row).keys ↔ addr ∈ metadata.hosts.keys := by
  unfold relocated
  split_ifs with hmem
  · rw [mem_keys_set]
    constructor
    · rintro (rfl | h)
      · exact hmem
      · exact h
    · exact .inr
  · rfl

theorem get?_relocated (h : addr ≠ control) :
    (relocated metadata control row).get? addr = metadata.hosts.get? addr := by
  unfold relocated
  split_ifs
  · rw [get?_set, if_neg h]
  · rfl

theorem tokenClassOf_truthy {part : String} {tokenClass : TokenClass}
    (h : tokenClassOf part = some tokenClass) : truthy (some part) := by
  have hne : part ≠ "" := by
    rintro rfl
    revert h
    simp [tokenClassOf, endsWith]
  simpa [truthy] using hne

theorem scan_ok {force : Bool} {s₁ : Scan τ}
    (h₁ : peers.foldl (scanPeer translate signal row.partitioner) (scanLocal metadata control (some row) force) = s₁)
    (h : s₁.metadata.hosts.keys.foldl (removeOld signal control) s₁ = s) :
    (truthy row.partitioner → owned s.tokenMap = (if control ∈ metadata.hosts.keys then localTokens control row else []) ++
        peerTokens translate (keptPeers translate [control] peers)) ∧
      (s.shouldRebuildTokenMap ↔ RebuildDue translate metadata control peers force) ∧
      (s.shouldRebuildTokenMap = false → s.metadata = { metadata with hosts := relocated metadata control row }) := by
  obtain ⟨hfn₀, ht₀, hf₀, hm₀⟩ := scanLocal_some metadata control force
  have hsc := scanPeers_ok translate signal row.partitioner peers (scanLocal metadata control (some row) force)
  rw [h₁] at hsc
  obtain ⟨hfn, ht, hfl, hm⟩ := hsc
  rw [hfn₀] at hfn ht hfl
  rw [hm₀] at hm hfl
  have hrm := removeOlds_ok signal control s₁.metadata.hosts.keys s₁
  rw [h] at hrm
  obtain ⟨ht', hf', hsm⟩ := hrm
  have hpr : (∃ r ∈ keptPeers translate [control] peers, (relocated metadata control row).get?
      (rpcFromPeerRow translate r) ≠ some ⟨r.datacenter, r.rack⟩) ↔ ∃ r ∈ keptPeers translate [control] peers,
      metadata.hosts.get? (rpcFromPeerRow translate r) ≠ some ⟨r.datacenter, r.rack⟩ := by
    refine exists_congr fun r => and_congr_right fun hr => ?_
    rw [get?_relocated fun heq => keptPeers_not_found translate _ r hr (by simp [heq])]
  rw [hf₀, hpr] at hfl
  refine ⟨fun hp => ?_, ?_, ?_⟩
  · rw [ht', ht hp (ht₀ hp).1, (ht₀ hp).2]
  · rw [hf']
    by_cases hrsd : s₁.shouldRebuildTokenMap
    · refine iff_of_true (.inl hrsd) ?_
      rcases hfl.mp hrsd with (hfr | hn) | hp
      · exact .inl hfr
      · exact .inr (.inl hn)
      · exact .inr (.inr (.inl hp))
    have hno := mt hfl.mpr hrsd
    have hk : ∀ addr, addr ∈ s₁.metadata.hosts.keys ↔ addr ∈ metadata.hosts.keys := by
      intro addr
      rw [hm (by simpa using hrsd)]
      exact mem_keys_relocated
    have hf₁ : ∀ addr, addr ≠ control → (addr ∉ s₁.foundHosts ↔
        addr ∉ (keptPeers translate [control] peers).map (rpcFromPeerRow translate)) := by
      intro addr hne
      rw [hfn, mem_append, mem_singleton, not_or]
      exact and_iff_right hne
    constructor
    · rintro (htr | ⟨addr, hmem, hne, hg⟩)
      · exact absurd htr hrsd
      · exact .inr (.inr (.inr ⟨addr, (hk addr).mp hmem, hne, (hf₁ addr hne).mp hg⟩))
    rintro (hfr | hn | hp | ⟨addr, hmem, hne, hg⟩)
    · exact absurd (.inl (.inl hfr)) hno
    · exact absurd (.inl (.inr hn)) hno
    · exact absurd (.inr hp) hno
    · exact .inr ⟨addr, (hk addr).mpr hmem, hne, (hf₁ addr hne).mpr hg⟩
  intro hf
  have hs := hsm hf
  rw [hs] at hf ⊢
  exact hm hf

end Scan

/-! ## The token map after a refresh -/

section Refresh

variable {τ : Type} [LinearOrder τ]

variable {hs : Dict Address Host} {kss : Dict String KeyspaceMetadata} {m : TokenMap τ Address}

theorem fits_refl : Fits hs kss m m := ⟨fun _ => rfl, fun _ _ _ => rfl⟩

variable {fromString : TokenClass → String → Option τ} {tokenClass : TokenClass}

theorem mem_ring_of_tokenMapOf {owners : List (String × Address)} {t : τ} (h : tokenMapOf fromString tokenClass owners = some m) :
    t ∈ m.tokenToHostOwner.keys ↔ some t ∈ owners.map fun owner => fromString tokenClass owner.1 := by
  obtain ⟨pairs, hp, hm⟩ := Option.bind_eq_some_iff.mp h
  obtain rfl := Option.some.inj hm
  have hk : t ∈ (Dict.empty.setAll pairs).keys ↔ t ∈ pairs.map Prod.fst := by simp [mem_keys_setAll]
  have hmap : owners.map (fun owner => fromString tokenClass owner.1) = (pairs.map Prod.fst).map some := by
    have hall := mapM_eq_some.mp hp
    clear hp hm h hk
    induction hall with
    | nil => rfl
    | cons hab _ ih =>
      obtain ⟨t, ht, rfl⟩ := Option.map_eq_some_iff.mp hab
      simp [ht, ih]
  rw [hmap]
  simpa [TokenMap.init] using hk

/-- The control host's tokens are missing from such a map. -/
theorem not_fits_without_control {control : Address} {row : LocalRow} {owners : List (String × Address)}
    {fresh : TokenMap τ Address} (hn : localTokens control row ≠ [])
    (hfresh : tokenMapOf fromString tokenClass (localTokens control row ++ owners) = some fresh)
    (hd : ((localTokens control row ++ owners).map fun owner => fromString tokenClass owner.1).Nodup)
    (hm : tokenMapOf fromString tokenClass owners = some m) : ¬ Fits hs kss m fresh := by
  intro hf
  obtain ⟨first, rest, hl⟩ := exists_cons_of_ne_nil hn
  rw [hl] at hfresh hd
  obtain ⟨pairs, hp, -⟩ := Option.bind_eq_some_iff.mp hfresh
  obtain ⟨t, ht⟩ : ∃ t, fromString tokenClass first.1 = some t := by
    obtain ⟨p, -, hp, -⟩ := forall₂_cons_left_iff.mp (mapM_eq_some.mp hp)
    obtain ⟨t, ht, -⟩ := Option.map_eq_some_iff.mp hp
    exact ⟨t, ht⟩
  have hin : t ∈ fresh.tokenToHostOwner.keys := (mem_ring_of_tokenMapOf hfresh).mpr (by simp [ht])
  have hout : t ∉ m.tokenToHostOwner.keys := by
    rw [mem_ring_of_tokenMapOf hm, ← ht]
    rw [cons_append, map_cons, nodup_cons, map_append] at hd
    exact fun h => hd.1 (mem_append_right _ h)
  have ho := hf.owners t
  rw [(get?_eq_none _ _).mpr hout] at ho
  exact (get?_eq_none _ _).mp ho.symm hin

/-- **The token map after a refresh** is fresh when due and complete, or fits still. -/
theorem token_map_up_to_date_iff (fromString : TokenClass → String → Option τ) (translate : Address → Address)
    (signal : Address → ClusterMetadata τ → ClusterMetadata τ) (metadata : ClusterMetadata τ) (control : Address)
    (row : LocalRow) (peers : List PeerRow) (force : Bool) (partitioner : String) (tokenClass : TokenClass)
    (fresh : TokenMap τ Address) (hpartitioner : row.partitioner = some partitioner)
    (hclass : tokenClassOf partitioner = some tokenClass)
    (hfresh : tokenMapOf fromString tokenClass (tokenRows translate control row peers) = some fresh)
    (hdistinct : ((tokenRows translate control row peers).map fun owner => fromString tokenClass owner.1).Nodup) :
    ∃ metadata', refreshNodeListAndTokenMap fromString translate signal metadata control (some row) peers force =
        some metadata' ∧ (UpToDate metadata' fresh ↔
        RebuildDue translate metadata control peers force ∧
          (control ∈ metadata.hosts.keys ∨ localTokens control row = []) ∨
        ¬ RebuildDue translate metadata control peers force ∧
          ∃ m, metadata.tokenMap = some m ∧ Fits (relocated metadata control row) metadata.keyspaces m fresh) := by
  obtain ⟨s₁, h₁⟩ : ∃ s₁, peers.foldl (scanPeer translate signal row.partitioner)
      (scanLocal metadata control (some row) force) = s₁ := ⟨_, rfl⟩
  obtain ⟨s, h⟩ : ∃ s, s₁.metadata.hosts.keys.foldl (removeOld signal control) s₁ = s := ⟨_, rfl⟩
  obtain ⟨ht, hf, hm⟩ := scan_ok translate signal h₁ h
  have hp := tokenClassOf_truthy hclass
  replace ht := ht (by rw [hpartitioner]; exact hp)
  simp only [refreshNodeListAndTokenMap, bind_some, h₁, h]
  simp only [hpartitioner, hp, Bool.true_and]
  by_cases hdue : RebuildDue translate metadata control peers force
  · rw [if_pos (hf.mpr hdue)]
    simp only [rebuildTokenMap, hclass, buildTokenMap, ht, hdue, true_and, not_true, false_and, or_false]
    by_cases hc : control ∈ metadata.hosts.keys ∨ localTokens control row = []
    · have he : (if control ∈ metadata.hosts.keys then localTokens control row else []) = localTokens control row := by
        split_ifs with hk
        · rfl
        · exact (hc.resolve_left hk).symm
      rw [he, show tokenMapOf _ _ (_ ++ _) = some fresh from hfresh]
      exact ⟨_, rfl, iff_of_true ⟨fresh, rfl, fits_refl ..⟩ hc⟩
    obtain ⟨hk, hn⟩ := not_or.mp hc
    rw [if_neg hk, nil_append]
    obtain ⟨built, hb⟩ : ∃ built, tokenMapOf fromString tokenClass
        (peerTokens translate (keptPeers translate [control] peers)) = some built := by
      obtain ⟨pairs, hpairs, -⟩ := Option.bind_eq_some_iff.mp hfresh
      have hall := mapM_isSome.mp (Option.isSome_iff_exists.mpr ⟨pairs, hpairs⟩)
      obtain ⟨rest, hrest⟩ := Option.isSome_iff_exists.mp
        (mapM_isSome.mpr fun owner ho => hall owner (mem_append_right _ ho))
      exact ⟨_, by rw [tokenMapOf, hrest]; rfl⟩
    rw [hb]
    refine ⟨_, rfl, iff_of_false ?_ hc⟩
    rintro ⟨m, hm, hfits⟩
    obtain rfl := Option.some.inj hm
    exact not_fits_without_control hn hfresh hdistinct hb hfits
  have hd : s.shouldRebuildTokenMap = false := by simpa using mt hf.mp hdue
  rw [if_neg (by simp [hd])]
  refine ⟨_, rfl, ?_⟩
  simp only [hm hd, hdue, false_and, not_false_eq_true, true_and, false_or]
  rfl

theorem fits_of_cached {fresh : TokenMap τ Address} (hr : m.ring = fresh.ring)
    (ho : m.tokenToHostOwner = fresh.tokenToHostOwner) (he : fresh.tokensToHostsByKs = Dict.empty)
    (hcch : ∀ ks ksMeta rm, kss.get? ks = some ksMeta → (m.tokensToHostsByKs.get? ks).join = some rm →
      replicaMapForKeyspace (locations hs) fresh ksMeta = some (some rm)) : Fits hs kss m fresh := by
  refine ⟨fun t => by rw [ho], fun ks hmem t => ?_⟩
  obtain ⟨ksMeta, hks⟩ := isSome_iff_exists.mp ((get?_isSome kss ks).mpr hmem)
  have hb : ∀ m', replicaMapForKeyspace (locations hs) { m with tokensToHostsByKs := m' } ksMeta =
      replicaMapForKeyspace (locations hs) fresh ksMeta := by
    intro m'
    unfold replicaMapForKeyspace
    rw [ho, hr]
  unfold getReplicas
  cases hj : (m.tokensToHostsByKs.get? ks).join with
  | none =>
    simp only [rebuildKeyspace, hj, hks, he, hb m.tokensToHostsByKs]
    -- both maps are built now, from the same ring and owners
    rcases replicaMapForKeyspace _ fresh ksMeta with _ | _ | rm <;> simp [hr]
    split_ifs <;> rfl
  | some rm =>
    have hf := hcch ks ksMeta rm hks hj
    simp only [rebuildKeyspace, hks, he, hf, hj, hr, get?_empty, join_none, isNone_none,
      isNone_some, Bool.false_eq_true, if_false, if_true, get?_set, join_some]
    split_ifs <;> rfl

/-! ## A ring of three hosts -/

def unary (_ : TokenClass) (token : String) : Option Nat := some token.length

def threeHosts : Dict Address Host :=
  ⟨[("a", ⟨some "dc", some "r1"⟩), ("b", ⟨some "dc", some "r1"⟩), ("c", ⟨some "dc", some "r2"⟩)], by decide⟩

def threePeers (tokens : List String) : List PeerRow :=
  [⟨"b", none, some (some tokens), some "dc", some "r1"⟩, ⟨"c", none, some (some ["ttt"]), some "dc", some "r2"⟩]

def controlRow (rack : String) : LocalRow := ⟨some "Murmur3Partitioner", some ["t"], some "dc", some rack⟩

def twoReplicas : Dict String KeyspaceMetadata :=
  ⟨[("ks", ⟨some (.networkTopology ⟨[("dc", 2)], by decide⟩)⟩)], by decide⟩

def threeRing : ClusterMetadata Nat where
  hosts := threeHosts
  partitioner := some "Murmur3Partitioner"
  tokenMap := some (getReplicas (locations threeHosts) twoReplicas
    (TokenMap.init [1, 2, 3] ⟨[(1, "a"), (2, "b"), (3, "c")], by decide⟩) "ks" 0).1
  keyspaces := twoReplicas

theorem token_map_up_to_date_unchanged :
    ∃ fresh metadata', tokenMapOf unary .murmur3 (tokenRows id "a" (controlRow "r1") (threePeers ["tt"])) =
        some fresh ∧
      refreshNodeListAndTokenMap unary id (fun _ => id) threeRing "a" (some (controlRow "r1")) (threePeers ["tt"]) false =
        some metadata' ∧ UpToDate metadata' fresh := by
  have hdue : ¬ RebuildDue id threeRing "a" (threePeers ["tt"]) false := by unfold RebuildDue; decide
  obtain ⟨metadata', hr, hiff⟩ := token_map_up_to_date_iff unary id (fun _ => id) threeRing "a" (controlRow "r1")
    (threePeers ["tt"]) false "Murmur3Partitioner" .murmur3
    (TokenMap.init [1, 2, 3] ⟨[(1, "a"), (2, "b"), (3, "c")], by decide⟩) rfl (by decide) rfl (by decide)
  refine ⟨_, metadata', rfl, hr, hiff.mpr (.inr ⟨hdue, _, rfl, ?_⟩)⟩
  refine fits_of_cached rfl rfl rfl ?_
  intro keyspace ksMeta replicaMap hks hcch
  have hn : keyspace = "ks" := by
    have hmem := mem_keys_of_get? hks
    simpa [threeRing, twoReplicas, Dict.keys] using hmem
  subst hn
  cases hks
  cases hcch
  rfl

/-- A token or the control host moved, or the control host is unknown. -/
theorem refresh_keeps_old_token_map : (∃ fresh metadata', tokenMapOf unary .murmur3
          (tokenRows id "a" (controlRow "r1") (threePeers ["tttt"])) = some fresh ∧
        refreshNodeListAndTokenMap unary id (fun _ => id) threeRing "a" (some (controlRow "r1")) (threePeers ["tttt"])
          false = some metadata' ∧ ¬ UpToDate metadata' fresh) ∧ (∃ fresh metadata', tokenMapOf unary .murmur3
          (tokenRows id "a" (controlRow "r2") (threePeers ["tt"])) = some fresh ∧
        refreshNodeListAndTokenMap unary id (fun _ => id) threeRing "a" (some (controlRow "r2")) (threePeers ["tt"])
          false = some metadata' ∧ ¬ UpToDate metadata' fresh) ∧ ∃ fresh metadata', tokenMapOf unary .murmur3
          (tokenRows id "d" (controlRow "r1") (threePeers ["tt"])) = some fresh ∧
        refreshNodeListAndTokenMap unary id (fun _ => id) threeRing "d" (some (controlRow "r1")) (threePeers ["tt"])
          true = some metadata' ∧ ¬ UpToDate metadata' fresh := by
  refine ⟨⟨_, _, rfl, rfl, ?_⟩, ⟨_, _, rfl, rfl, ?_⟩, ⟨_, _, rfl, rfl, ?_⟩⟩
  · rintro ⟨m, hm, hf⟩
    have ho := hf.owners 4
    cases hm
    revert ho
    decide
  · rintro ⟨m, hm, hf⟩
    have hr := hf.replicas "ks" (by decide) 0
    cases hm
    revert hr
    decide
  rintro ⟨m, hm, hf⟩
  have ho := hf.owners 1
  cases hm
  revert ho
  decide

end Refresh

end CqlDriver.Metadata
