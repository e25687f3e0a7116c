import CqlDriver.Metadata.Schema
import CqlDriver.Policies.DCAware

/-! # `TokenAwarePolicy` -/

namespace CqlDriver.Policies

open Lib Metadata List Option

structure Query (κ : Type) where
  /-- An empty `BatchStatement` is false. -/
  isTrue : Bool
  keyspace : Option String
  routingKey : Option κ

structure ChildPolicy (κ : Type) where
  makeQueryPlan : Option String → Option (Query κ) → List Address
  distance : Address → HostDistance

section Model

variable {τ κ : Type} [LinearOrder τ]
/- `from_key` of the token class, `none` when it raises `NoMurmur3`. -/
variable (fromKey : κ → Option τ)

/-- With the metadata after the call. A `none` result is an exception. -/
def metadataGetReplicas (s : ClusterMetadata τ) (keyspace : String) (key : κ) :
    ClusterMetadata τ × Option (List Address) :=
  match s.tokenMap, fromKey key with
  | some m, some token =>
    let (m, replicas) := getReplicas (locations s.hosts) s.keyspaces m keyspace token
    ({ s with tokenMap := some m }, replicas)
  | _, _ => (s, some [])

def pointToken (ring : List τ) (token : τ) : Option τ :=
  if bisectRight ring token 0 = ring.length then ring.head? else ring[bisectRight ring token 0]?

/-- An empty list that is not from a map is a new one. -/
def shuffleInMap (m : TokenMap τ Address) (keyspace : String) (token : τ)
    (shuffle : List Address → List Address) : TokenMap τ Address :=
  match (m.tokensToHostsByKs.get? keyspace).join, pointToken m.ring token with
  | some replicaMap, some point =>
    match replicaMap.get? point with
    | some replicas =>
      { m with tokensToHostsByKs :=
          m.tokensToHostsByKs.set keyspace (some (replicaMap.set point (shuffle replicas))) }
    | none => m
  | _, _ => m

def planKeyspace (workingKeyspace : Option String) (query : Option (Query κ)) : Option String :=
  match query with
  | some query => if query.isTrue && truthy query.keyspace then query.keyspace else workingKeyspace
  | none => workingKeyspace

def routing (workingKeyspace : Option String) (query : Option (Query κ)) : Option (String × κ) :=
  match query.bind Query.routingKey, planKeyspace workingKeyspace query with
  | some key, some keyspace => some (keyspace, key)
  | _, _ => none

def planReplicas (shuffleReplicas : Bool) (shuffle : List Address → List Address) (s : ClusterMetadata τ)
    (keyspace : String) (key : κ) : ClusterMetadata τ × Option (List Address) :=
  let (s, replicas) := metadataGetReplicas fromKey s keyspace key
  if shuffleReplicas then
    ({ s with tokenMap :=
        match s.tokenMap, fromKey key with
        | some m, some token => some (shuffleInMap m keyspace token shuffle)
        | tokenMap, _ => tokenMap },
      replicas.map shuffle)
  else (s, replicas)

def planLoops (child : ChildPolicy κ) (isUp : Address → Option Bool) (replicas childPlan : List Address) :
    List Address :=
  replicas.filter (fun replica => isUp replica = some true ∧ child.distance replica = .LOCAL) ++
    childPlan.filter fun host => host ∉ replicas ∨ child.distance host = .REMOTE

/-- Consumed to its end. A `none` result is an exception. -/
def makeQueryPlan (shuffleReplicas : Bool) (shuffle : List Address → List Address) (child : ChildPolicy κ)
    (isUp : Address → Option Bool) (s : ClusterMetadata τ) (workingKeyspace : Option String)
    (query : Option (Query κ)) : ClusterMetadata τ × Option (List Address) :=
  let childPlan := child.makeQueryPlan (planKeyspace workingKeyspace query) query
  match routing workingKeyspace query with
  | none => (s, some childPlan)
  | some (keyspace, key) =>
    let (s, replicas) := planReplicas fromKey shuffleReplicas shuffle s keyspace key
    (s, replicas.map fun replicas => planLoops child isUp replicas childPlan)

end Model

/-! ## What a plan lists -/

section Plan

variable {τ κ : Type} [LinearOrder τ] (fromKey : κ → Option τ)

def replicasOf (s : ClusterMetadata τ) (workingKeyspace : Option String) (query : Option (Query κ)) :
    Option (List Address) :=
  match routing workingKeyspace query with
  | none => some []
  | some (keyspace, key) => (metadataGetReplicas fromKey s keyspace key).2

/-- First the local replicas that are up, then the child's plan. -/
structure Covers (child : ChildPolicy κ) (isUp : Address → Option Bool) (replicas childPlan plan : List Address) :
    Prop where
  eq : plan =
    replicas.filter (fun replica => isUp replica = some true ∧ child.distance replica = .LOCAL) ++
      childPlan.filter fun host =>
        host ∉ replicas.filter fun replica => isUp replica = some true ∧ child.distance replica = .LOCAL
  nodup : plan.Nodup
  complete : ∀ host ∈ childPlan, host ∈ plan

theorem filter_eq_filter_iff {α : Type} {p q : α → Bool} {l : List α} :
    l.filter p = l.filter q ↔ ∀ x ∈ l, p x = q x := by
  constructor
  · intro h x hx
    have hmem : x ∈ l.filter p ↔ x ∈ l.filter q := by rw [h]
    exact Bool.eq_iff_iff.mpr (by simpa [hx] using hmem)
  · exact fun h => filter_congr h

theorem planLoops_covers_iff {child : ChildPolicy κ} {isUp : Address → Option Bool} {reps cp : List Address}
    (hr : reps.Nodup) (hc : cp.Nodup) : Covers child isUp reps cp (planLoops child isUp reps cp) ↔
      ∀ host ∈ cp, host ∈ reps →
        child.distance host = .REMOTE ∨ isUp host = some true ∧ child.distance host = .LOCAL := by
  have hone : ∀ host, (decide (host ∉ reps ∨ child.distance host = .REMOTE) =
        decide (host ∉ reps.filter fun rep => isUp rep = some true ∧ child.distance rep = .LOCAL)) ↔
      (host ∈ reps → child.distance host = .REMOTE ∨ isUp host = some true ∧ child.distance host = .LOCAL) := by
    intro host
    by_cases hmem : host ∈ reps <;> by_cases hup : isUp host = some true <;>
      cases hd : child.distance host <;> simp [hup, hd]
  constructor
  · intro h host hh
    have hf := append_cancel_left h.eq
    exact (hone host).mp (filter_eq_filter_iff.mp hf host hh)
  intro h
  have hf := filter_eq_filter_iff.mpr fun host hh => (hone host).mpr (h host hh)
  have heq : planLoops child isUp reps cp =
      reps.filter (fun rep => isUp rep = some true ∧ child.distance rep = .LOCAL) ++ cp.filter fun host =>
          host ∉ reps.filter fun rep => isUp rep = some true ∧ child.distance rep = .LOCAL := by
    rw [planLoops, hf]
  refine ⟨heq, ?_, ?_⟩
  · rw [heq, nodup_append']
    refine ⟨hr.filter _, hc.filter _, ?_⟩
    intro host hlst hrs
    exact of_decide_eq_true (mem_filter.mp hrs).2 hlst
  intro host hh
  rw [heq, mem_append]
  by_cases hlst : host ∈ reps.filter fun rep =>
      isUp rep = some true ∧ child.distance rep = .LOCAL
  · exact .inl hlst
  · exact .inr (mem_filter.mpr ⟨hh, decide_eq_true hlst⟩)

/-- **Plans cover the child's plan** exactly if its replicas are `REMOTE`, or up and `LOCAL`. -/
theorem token_aware_plan_covers_iff (child : ChildPolicy κ) (isUp : Address → Option Bool) (s : ClusterMetadata τ)
    (workingKeyspace : Option String) (query : Option (Query κ)) (shuffle : List Address → List Address)
    (replicas : List Address) (hreplicas : replicasOf fromKey s workingKeyspace query = some replicas)
    (hnodup : replicas.Nodup) (hchild : (child.makeQueryPlan (planKeyspace workingKeyspace query) query).Nodup) :
    ∃ plan, (makeQueryPlan fromKey false shuffle child isUp s workingKeyspace query).2 = some plan ∧
      (Covers child isUp replicas (child.makeQueryPlan (planKeyspace workingKeyspace query) query) plan ↔
        ∀ host ∈ child.makeQueryPlan (planKeyspace workingKeyspace query) query, host ∈ replicas →
          child.distance host = .REMOTE ∨ isUp host = some true ∧ child.distance host = .LOCAL) := by
  unfold replicasOf at hreplicas
  unfold makeQueryPlan
  cases hrt : routing workingKeyspace query with
  | none =>
    rw [hrt] at hreplicas
    obtain rfl := Option.some.inj hreplicas
    refine ⟨_, rfl, iff_of_true ⟨?_, hchild, fun host hh => hh⟩ fun host _ hmem => (by cases hmem)⟩
    simp
  | some target =>
    rw [hrt] at hreplicas
    refine ⟨planLoops child isUp replicas _, ?_, planLoops_covers_iff hnodup hchild⟩
    simp [planReplicas, hreplicas]

end Plan

def twoHosts : ClusterMetadata Nat where
  hosts := ⟨[("a", ⟨some "dc1", some "r1"⟩), ("b", ⟨some "dc1", some "r1"⟩)], by decide⟩
  partitioner := some "Murmur3Partitioner"
  tokenMap := some (TokenMap.init [10, 20] ⟨[(10, "a"), (20, "b")], by decide⟩)
  keyspaces := oneKeyspace

def threeLocal : ChildPolicy Nat where
  makeQueryPlan _ _ := ["c", "b", "a"]
  distance _ := .LOCAL

theorem token_aware_plan_covers_up :
    ∃ plan, (makeQueryPlan some false id threeLocal (fun _ => some true) twoHosts (some "ks")
        (some ⟨true, none, some 5⟩)).2 = some plan ∧
      Covers threeLocal (fun _ => some true) ["a", "b"] ["c", "b", "a"] plan := by
  obtain ⟨plan, hp, h⟩ := token_aware_plan_covers_iff some threeLocal (fun _ => some true) twoHosts (some "ks")
    (some ⟨true, none, some 5⟩) id ["a", "b"] (by decide +kernel) (by decide) (by decide)
  exact ⟨plan, hp, h.mpr (by decide)⟩

/-- Whether `a` is up is unknown: it is in neither part. -/
theorem token_aware_plan_loses_host : let isUp := fun host => if host = "a" then none else some true
    (makeQueryPlan some false id threeLocal isUp twoHosts (some "ks") (some ⟨true, none, some 5⟩)).2 = some ["b", "c"] ∧
      "a" ∈ threeLocal.makeQueryPlan (some "ks") (some ⟨true, none, some 5⟩) ∧
      replicasOf some twoHosts (some "ks") (some ⟨true, none, some 5⟩) = some ["a", "b"] := by
  decide +kernel

/-! ## What a plan leaves behind -/

section Frame

variable {τ κ : Type} [LinearOrder τ] {loc : Locations Address} {keyspaces : Dict String KeyspaceMetadata}
variable {m : TokenMap τ Address}

def cachedMap (m : TokenMap τ Address) (keyspace : String) : Option (Dict τ (List Address)) :=
  (m.tokensToHostsByKs.get? keyspace).join

def builtMap (loc : Locations Address) (keyspaces : Dict String KeyspaceMetadata) (m : TokenMap τ Address)
    (keyspace : String) : Option (Dict τ (List Address)) :=
  (keyspaces.get? keyspace).bind fun ksMeta => (replicaMapForKeyspace loc m ksMeta).getD (some Dict.empty)

variable {ks : String}

omit [LinearOrder τ] in
theorem cachedMap_set {m : TokenMap τ Address} (e : Option (Dict τ (List Address))) (keyspace' : String) :
    cachedMap { m with tokensToHostsByKs := m.tokensToHostsByKs.set ks e } keyspace' =
      if keyspace' = ks then e else cachedMap m keyspace' := by
  unfold cachedMap
  rw [Dict.get?_set]
  split <;> rfl

variable (loc keyspaces m)

variable {token : τ}

theorem getReplicas_state : (getReplicas loc keyspaces m ks token).1.ring = m.ring ∧
    (getReplicas loc keyspaces m ks token).1.tokenToHostOwner = m.tokenToHostOwner ∧
    ∀ keyspace', cachedMap (getReplicas loc keyspaces m ks token).1 keyspace' =
      if keyspace' = ks then (cachedMap m ks).or (builtMap loc keyspaces m ks)
      else cachedMap m keyspace' := by
  rw [getReplicas_fst]
  cases hcch : cachedMap m ks with
  | some rm =>
    have hs : (m.tokensToHostsByKs.get? ks).join.isNone = false := by
      rw [show (m.tokensToHostsByKs.get? ks).join = some rm from hcch]
      rfl
    simp only [hs, Bool.false_eq_true, if_false, some_or, true_and]
    intro keyspace'
    split
    · rename_i heq
      rw [heq, hcch]
    · rfl
  | none =>
    have hn : (m.tokensToHostsByKs.get? ks).join.isNone := by
      rw [show (m.tokensToHostsByKs.get? ks).join = none from hcch]
      rfl
    simp only [hn, if_true, rebuildKeyspace, builtMap]
    cases keyspaces.get? ks with
    | none =>
      refine ⟨rfl, rfl, fun keyspace' => ?_⟩
      by_cases heq : keyspace' = ks
      · rw [heq, if_pos rfl]
        exact hcch
      · rw [if_neg heq]
    | some km =>
      simp only [bind_some]
      cases replicaMapForKeyspace loc m km with
      | none | some rm => exact ⟨rfl, rfl, cachedMap_set _⟩

variable {m} in
theorem builtMap_congr {m' : TokenMap τ Address} (hr : m'.ring = m.ring)
    (ho : m'.tokenToHostOwner = m.tokenToHostOwner) (keyspace : String) :
    builtMap loc keyspaces m' keyspace = builtMap loc keyspaces m keyspace := by
  simp only [builtMap, replicaMapForKeyspace, hr, ho]

theorem getReplicas_answer : (getReplicas loc keyspaces m ks token).2 =
      match (cachedMap m ks).or (builtMap loc keyspaces m ks) with
      | none => some []
      | some rm => lookUp m.ring rm token := by
  obtain ⟨hr, -, hmap⟩ := getReplicas_state loc keyspaces m
  rw [getReplicas_snd, hr]
  have ht : ((getReplicas loc keyspaces m ks token).1.tokensToHostsByKs.get? ks).join = _ :=
    (hmap ks).trans (if_pos rfl)
  cases hb : (cachedMap m ks).or (builtMap loc keyspaces m ks) with
  | none | some rm =>
    rw [hb] at ht
    simp only [ht]

theorem getReplicas_stable (ks : String) {ks' : String} (token tok' : τ) :
    (getReplicas loc keyspaces (getReplicas loc keyspaces m ks token).1 ks' tok').2 =
      (getReplicas loc keyspaces m ks' tok').2 := by
  obtain ⟨hr, ho, hmap⟩ := getReplicas_state loc keyspaces m
  rw [getReplicas_answer, getReplicas_answer, hmap, hr, builtMap_congr loc keyspaces hr ho]
  by_cases heq : ks' = ks
  · subst heq
    rw [if_pos rfl, Option.or_assoc, Option.or_self]
  · rw [if_neg heq]

variable {m}

variable {ring : List τ} {rm : Dict τ (List Address)}

theorem lookUp_eq : lookUp ring rm token = if rm.keys = [] then some [] else (pointToken ring token).bind rm.get? := by
  unfold lookUp pointToken
  split_ifs <;> rfl

theorem lookUp_set {point : τ} {reps : List Address} (hget : rm.get? point = some reps) (reps' : List Address) :
    lookUp ring (rm.set point reps') token =
      if pointToken ring token = some point then some reps' else lookUp ring rm token := by
  have hmem : point ∈ rm.keys := Dict.mem_keys_of_get? hget
  have hne : rm.keys ≠ [] := ne_nil_of_mem hmem
  have hne' : (rm.set point reps').keys ≠ [] :=
    ne_nil_of_mem ((Dict.mem_keys_set rm point point reps').mpr (.inl rfl))
  rw [lookUp_eq, lookUp_eq, if_neg hne, if_neg hne']
  cases hp : pointToken ring token with
  | none => simp
  | some place =>
    simp

variable {shuf : List Address → List Address}

theorem shuffleInMap_cases {m : TokenMap τ Address} (token : τ) :
    (∃ rm point replicas, cachedMap m ks = some rm ∧ pointToken m.ring token = some point ∧
      rm.get? point = some replicas ∧ shuffleInMap m ks token shuf =
        { m with tokensToHostsByKs :=
            m.tokensToHostsByKs.set ks (some (rm.set point (shuf replicas))) }) ∨
    (shuffleInMap m ks token shuf = m ∧ ∀ rm replicas, cachedMap m ks = some rm →
        lookUp m.ring rm token = some replicas → replicas = []) := by
  unfold shuffleInMap
  cases hcch : cachedMap m ks with
  | none =>
    right
    rw [show (m.tokensToHostsByKs.get? ks).join = none from hcch]
    exact ⟨rfl, nofun⟩
  | some rm =>
    rw [show (m.tokensToHostsByKs.get? ks).join = some rm from hcch]
    have he : (pointToken m.ring token).bind rm.get? = none → ∀ rm' replicas,
        some rm = some rm' → lookUp m.ring rm' token = some replicas → replicas = [] := by
      rintro hn _ replicas ⟨rfl⟩ hl
      rw [lookUp_eq, hn] at hl
      split at hl
      · exact (some.inj hl).symm
      · cases hl
    cases hp : pointToken m.ring token with
    | none => exact .inr ⟨rfl, he (by rw [hp]; rfl)⟩
    | some point =>
      cases hget : rm.get? point with
      | none => exact .inr ⟨by simp [hget], he (by rw [hp]; exact hget)⟩
      | some replicas => exact .inl ⟨rm, point, replicas, rfl, rfl, hget, by simp [hget]⟩

theorem shuffleInMap_same_iff (hshuffle : ∀ l, (shuf l).Perm l)
    (hf : cachedMap m ks = none → builtMap loc keyspaces m ks = none) :
    (∀ keyspace' tok', (getReplicas loc keyspaces (shuffleInMap m ks token shuf) keyspace' tok').2 =
      (getReplicas loc keyspaces m keyspace' tok').2) ↔
    ∀ replicas, (getReplicas loc keyspaces m ks token).2 = some replicas → shuf replicas = replicas := by
  rcases shuffleInMap_cases token with
    ⟨rm, point, replicas, hcch, hp, hget, heq⟩ | ⟨heq, he⟩
  · have hl : lookUp m.ring rm token = some replicas := by
      have hne : rm.keys ≠ [] := ne_nil_of_mem (Dict.mem_keys_of_get? hget)
      rw [lookUp_eq, if_neg hne, hp]
      exact hget
    have hbef : (getReplicas loc keyspaces m ks token).2 = some replicas := by
      rw [getReplicas_answer, hcch]
      exact hl
    rw [heq, hbef]
    constructor
    · rintro hs _ ⟨rfl⟩
      have ht := hs ks token
      rw [getReplicas_answer, cachedMap_set, if_pos rfl, hbef] at ht
      simp only [some_or] at ht
      rw [lookUp_set hget, if_pos hp] at ht
      exact some.inj ht
    intro hk keyspace' tok'
    rw [hk replicas rfl, Dict.set_of_get? hget, getReplicas_answer, getReplicas_answer, cachedMap_set]
    have hb : builtMap loc keyspaces
        { m with tokensToHostsByKs := m.tokensToHostsByKs.set ks (some rm) } keyspace' =
        builtMap loc keyspaces m keyspace' := rfl
    rw [hb]
    by_cases hks : keyspace' = ks
    · rw [if_pos hks, hks, hcch]
    · rw [if_neg hks]
  rw [heq]
  refine iff_of_true (fun _ _ => rfl) fun replicas hr => ?_
  have hnil : replicas = [] := by
    rw [getReplicas_answer] at hr
    cases hcch : cachedMap m ks with
    | none =>
      rw [hcch, hf hcch] at hr
      exact (some.inj hr).symm
    | some rm =>
      rw [hcch] at hr
      exact he rm replicas hcch hr
  rw [hnil]
  exact (hshuffle []).eq_nil

end Frame

/-- Nothing of it runs before the first host is asked for. -/
structure PlanCall (κ : Type) where
  workingKeyspace : Option String
  query : Option (Query κ)
  started : Bool
  /- What `random.shuffle` makes of a list in this call. -/
  shuffle : List Address → List Address
  shuffle_perm : ∀ hosts, (shuffle hosts).Perm hosts

section Calls

variable {τ κ : Type} [LinearOrder τ] (fromKey : κ → Option τ) (shuffleReplicas : Bool) (child : ChildPolicy κ)
variable (isUp : Address → Option Bool)

def planStep (s : ClusterMetadata τ) (call : PlanCall κ) : ClusterMetadata τ :=
  if call.started then
    (makeQueryPlan fromKey shuffleReplicas call.shuffle child isUp s call.workingKeyspace call.query).1
  else s

def answer (s : ClusterMetadata τ) (keyspace : String) (token : τ) : Option (Option (List Address)) :=
  s.tokenMap.map fun m => (getReplicas (locations s.hosts) s.keyspaces m keyspace token).2

/-- The call does not shuffle, or what it shuffles keeps its order. -/
def KeepsOrder (s : ClusterMetadata τ) (call : PlanCall κ) : Prop :=
  shuffleReplicas = true → call.started = true →
    ∀ keyspace key, routing call.workingKeyspace call.query = some (keyspace, key) →
      ∀ replicas, (metadataGetReplicas fromKey s keyspace key).2 = some replicas → call.shuffle replicas = replicas

variable {key : κ} {ks : String} {s : ClusterMetadata τ}

theorem planReplicas_same_iff {shuf : List Address → List Address} (hshuffle : ∀ hs, (shuf hs).Perm hs) :
    (∀ ks' tok', answer (planReplicas fromKey true shuf s ks key).1 ks' tok' = answer s ks' tok') ↔
    ∀ replicas, (metadataGetReplicas fromKey s ks key).2 = some replicas → shuf replicas = replicas := by
  have hnil : ∀ replicas, some [] = some replicas → shuf replicas = replicas := by
    rintro _ ⟨rfl⟩
    exact (hshuffle []).eq_nil
  cases hmap : s.tokenMap with
  | none =>
    simp only [planReplicas, metadataGetReplicas, hmap, answer, if_true, implies_true, true_iff]
    exact hnil
  | some m =>
    cases htk : fromKey key with
    | none =>
      simp only [planReplicas, metadataGetReplicas, hmap, htk, answer, if_true, implies_true, true_iff]
      exact hnil
    | some token =>
      obtain ⟨hr, ho, hcch⟩ := getReplicas_state _ s.keyspaces m
      simp only [planReplicas, metadataGetReplicas, hmap, htk, answer, if_true, map_some, some.injEq]
      rw [← getReplicas_stable _ s.keyspaces m ks token, ← shuffleInMap_same_iff _ s.keyspaces hshuffle]
      · simp only [getReplicas_stable]
      intro hn
      have ht := hcch ks
      rw [if_pos rfl, hn] at ht
      rw [builtMap_congr _ _ hr ho]
      exact (or_eq_none_iff.mp ht.symm).2

theorem planReplicas_same (shuf : List Address → List Address) {ks' : String} (token' : τ) :
    answer (planReplicas fromKey false shuf s ks key).1 ks' token' = answer s ks' token' := by
  cases hmap : s.tokenMap with
  | none => simp [planReplicas, metadataGetReplicas, hmap]
  | some m =>
    cases ht : fromKey key with
    | none => simp [planReplicas, metadataGetReplicas, ht]
    | some token => simp [planReplicas, metadataGetReplicas, hmap, ht, answer, getReplicas_stable]

theorem planStep_same_iff (call : PlanCall κ) :
    (∀ ks token, answer (planStep fromKey shuffleReplicas child isUp s call) ks token =
      answer s ks token) ↔ KeepsOrder fromKey shuffleReplicas s call := by
  unfold planStep KeepsOrder
  by_cases hs : call.started
  · rw [if_pos hs]
    unfold makeQueryPlan
    cases hrt : routing call.workingKeyspace call.query with
    | none => exact iff_of_true (fun _ _ => rfl) nofun
    | some target =>
      obtain ⟨ks, key⟩ := target
      cases shuffleReplicas with
      | false => exact iff_of_true (fun _ _ => planReplicas_same fromKey call.shuffle _) nofun
      | true =>
        refine (planReplicas_same_iff fromKey call.shuffle_perm).trans ⟨?_, ?_⟩
        · rintro h - - _ _ ⟨rfl⟩
          exact h
        · exact fun h => h rfl hs ks key rfl
  rw [if_neg hs]
  exact iff_of_true (fun _ _ => rfl) fun _ h => absurd h hs

/-- **Planning** changes no lookup exactly if no shuffle changes an order. -/
theorem planning_keeps_lookups_iff (s : ClusterMetadata τ) (calls : List (PlanCall κ)) : (∀ n keyspace token,
      answer (run (planStep fromKey shuffleReplicas child isUp) s (calls.take n)) keyspace token =
        answer s keyspace token) ↔
    RunOk (planStep fromKey shuffleReplicas child isUp) (KeepsOrder fromKey shuffleReplicas) s calls := by
  induction calls generalizing s with
  | nil => simp [RunOk]
  | cons call calls ih =>
    rw [RunOk, ← planStep_same_iff, ← ih]
    constructor
    · intro h
      have hf := h 1
      exact ⟨hf, fun n keyspace token => (h (n + 1) keyspace token).trans (hf keyspace token).symm⟩
    rintro ⟨hf, hr⟩ n keyspace token
    cases n with
    | zero => rfl
    | succ n =>
      rw [← hf]
      exact hr n keyspace token

end Calls

def consumed (shuffle : List Address → List Address) (hshuffle : ∀ hosts, (shuffle hosts).Perm hosts) : PlanCall Nat where
  workingKeyspace := some "ks"
  query := some ⟨true, none, some 5⟩
  started := true
  shuffle := shuffle
  shuffle_perm := hshuffle

theorem planning_keeps_lookups_in_order :
    RunOk (planStep some true threeLocal fun _ => some true) (KeepsOrder some true) twoHosts
      [consumed id List.Perm.refl, consumed id List.Perm.refl] ∧ ∀ n keyspace token,
      answer (run (planStep some true threeLocal fun _ => some true) twoHosts
        ([consumed id List.Perm.refl, consumed id List.Perm.refl].take n)) keyspace token =
        answer twoHosts keyspace token := by
  have hok : RunOk (planStep some true threeLocal fun _ => some true) (KeepsOrder some true) twoHosts
      [consumed id List.Perm.refl, consumed id List.Perm.refl] :=
    ⟨fun _ _ _ _ _ _ _ => rfl, fun _ _ _ _ _ _ _ => rfl, trivial⟩
  exact ⟨hok, (planning_keeps_lookups_iff some true threeLocal (fun _ => some true) twoHosts _).mpr hok⟩

theorem planning_changes_order : (answer twoHosts "ks" 5 = some (some ["a", "b"])) ∧
    answer (run (planStep some true threeLocal fun _ => some true) twoHosts [consumed List.reverse reverse_perm])
      "ks" 5 = some (some ["b", "a"]) := by
  decide +kernel

end CqlDriver.Policies
