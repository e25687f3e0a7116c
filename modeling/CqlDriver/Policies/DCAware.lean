import CqlDriver.Lib.Dict
import CqlDriver.Lib.Run
import Mathlib.Data.List.Dedup
import Mathlib.Data.List.Perm.Subperm
import Mathlib.Data.List.Rotate
import Mathlib.Data.List.SplitBy

/-! # `DCAwareRoundRobinPolicy` -/

namespace CqlDriver.Policies

open Lib List

inductive HostDistance
  | IGNORED
  | LOCAL
  | REMOTE
  deriving DecidableEq

/-- The order in which `tuple(set(hosts))` lists the hosts. -/
structure SetOrder (η : Type) where
  list : List η → List η
  nodup : ∀ hosts, (list hosts).Nodup
  mem_iff : ∀ hosts host, host ∈ list hosts ↔ host ∈ hosts

structure DCAwareRoundRobinPolicy (η : Type) where
  /-- Empty until it is known. -/
  localDc : String
  usedHostsPerRemoteDc : Nat
  dcLiveHosts : Dict String (List η) := Dict.empty
  position : Nat := 0
  contactPoints : List η := []

namespace DCAwareRoundRobinPolicy

variable {η : Type} [DecidableEq η]

def dc (p : DCAwareRoundRobinPolicy η) (datacenter : Option String) : String :=
  match datacenter with
  | some name => if name = "" then p.localDc else name
  | none => p.localDc

def populate (p : DCAwareRoundRobinPolicy η) (order : SetOrder η) (datacenter : η → Option String)
    (contactPointsResolved hosts : List η) (position : Nat) : DCAwareRoundRobinPolicy η :=
  let groups := hosts.splitBy fun a b => p.dc (datacenter a) = p.dc (datacenter b)
  { p with
    dcLiveHosts := groups.foldl (fun live group =>
      match group with
      | [] => live
      | host :: _ => live.set (p.dc (datacenter host)) (order.list group)) p.dcLiveHosts
    contactPoints := if p.localDc = "" then contactPointsResolved else p.contactPoints
    position }

def distance (p : DCAwareRoundRobinPolicy η) (datacenter : η → Option String) (host : η) : HostDistance :=
  let dc := p.dc (datacenter host)
  if dc = p.localDc then .LOCAL
  else if p.usedHostsPerRemoteDc = 0 then .IGNORED
  else
    match p.dcLiveHosts.get? dc with
    | none | some [] => .IGNORED
    | some dcHosts => if host ∈ dcHosts.take p.usedHostsPerRemoteDc then .REMOTE else .IGNORED

def bucket (p : DCAwareRoundRobinPolicy η) (dc : String) : List η := (p.dcLiveHosts.get? dc).getD []

def localPlan (p : DCAwareRoundRobinPolicy η) : List η :=
  let localLive := p.bucket p.localDc
  let pos := if localLive = [] then 0 else p.position % localLive.length
  localLive.rotate pos

def remotePlan (p : DCAwareRoundRobinPolicy η) : List η :=
  let otherDcs := p.dcLiveHosts.keys.filter (· ≠ p.localDc)
  otherDcs.flatMap fun dc => (p.bucket dc).take p.usedHostsPerRemoteDc

def makeQueryPlan (p : DCAwareRoundRobinPolicy η) : List η := p.localPlan ++ p.remotePlan

def detect (p : DCAwareRoundRobinPolicy η) (datacenter : Option String) (host : η) : DCAwareRoundRobinPolicy η :=
  match datacenter with
  | some name =>
    if p.localDc = "" ∧ name ≠ "" ∧ host ∈ p.contactPoints then { p with localDc := name, contactPoints := [] } else p
  | none => p

def file (p : DCAwareRoundRobinPolicy η) (datacenter : Option String) (host : η) : DCAwareRoundRobinPolicy η :=
  let dc := p.dc datacenter
  if host ∈ p.bucket dc then p else { p with dcLiveHosts := p.dcLiveHosts.set dc (p.bucket dc ++ [host]) }

def onUp (p : DCAwareRoundRobinPolicy η) (datacenter : Option String) (host : η) : DCAwareRoundRobinPolicy η :=
  (p.detect datacenter host).file datacenter host

def onDown (p : DCAwareRoundRobinPolicy η) (datacenter : Option String) (host : η) : DCAwareRoundRobinPolicy η :=
  let dc := p.dc datacenter
  if host ∈ p.bucket dc then
    let hosts := (p.bucket dc).filter (· ≠ host)
    if hosts = [] then { p with dcLiveHosts := p.dcLiveHosts.erase dc }
    else { p with dcLiveHosts := p.dcLiveHosts.set dc hosts }
  else p

end DCAwareRoundRobinPolicy

/-! ## Events -/

/-- `live` is history, whether the last event brought a host up. -/
structure World (η : Type) where
  policy : DCAwareRoundRobinPolicy η
  datacenter : η → Option String
  live : η → Bool

inductive HostEvent (η : Type)
  | onUp (host : η)
  | onAdd (host : η)
  | onDown (host : η)
  | onRemove (host : η)
  | updateLocation (host : η) (datacenter : Option String)

namespace World

variable {η : Type} [DecidableEq η]

def up (w : World η) (host : η) : World η :=
  { w with policy := w.policy.onUp (w.datacenter host) host, live := Function.update w.live host true }

def down (w : World η) (host : η) : World η :=
  { w with policy := w.policy.onDown (w.datacenter host) host, live := Function.update w.live host false }

def move (w : World η) (host : η) (datacenter : Option String) : World η :=
  { w with datacenter := Function.update w.datacenter host datacenter }

def step (w : World η) : HostEvent η → World η
  | .onUp host | .onAdd host => w.up host
  | .onDown host | .onRemove host => w.down host
  | .updateLocation host datacenter => ((w.down host).move host datacenter).up host

def start (localDc : String) (usedHostsPerRemoteDc : Nat) (order : SetOrder η) (datacenter : η → Option String)
    (contactPoints hosts : List η) (position : Nat) : World η where
  policy := { localDc, usedHostsPerRemoteDc : DCAwareRoundRobinPolicy η }.populate order datacenter contactPoints hosts
    position
  datacenter
  live host := host ∈ hosts

def distance (w : World η) (host : η) : HostDistance := w.policy.distance w.datacenter host

def dcOf (w : World η) (host : η) : String := w.policy.dc (w.datacenter host)

end World

/-! ## The buckets -/

namespace DCAwareRoundRobinPolicy

variable {η : Type} (p : DCAwareRoundRobinPolicy η)

theorem dc_congr {p p' : DCAwareRoundRobinPolicy η} (h : p'.localDc = p.localDc) (datacenter : Option String) :
    p'.dc datacenter = p.dc datacenter := by
  unfold dc
  rw [h]

theorem mem_localPlan {host : η} : host ∈ p.localPlan ↔ host ∈ p.bucket p.localDc := mem_rotate

theorem mem_remotePlan {host : η} :
    host ∈ p.remotePlan ↔ ∃ dc, dc ≠ p.localDc ∧ host ∈ (p.bucket dc).take p.usedHostsPerRemoteDc := by
  unfold remotePlan
  simp only [mem_flatMap, mem_filter, decide_eq_true_eq]
  constructor
  · rintro ⟨dc, ⟨-, hdc⟩, hmem⟩
    exact ⟨dc, hdc, hmem⟩
  rintro ⟨dc, hdc, hmem⟩
  refine ⟨dc, ⟨?_, hdc⟩, hmem⟩
  rw [← Dict.get?_isSome, Option.isSome_iff_ne_none]
  intro hn
  simp [bucket, hn] at hmem

theorem makeQueryPlan_nodup (hn : ∀ dc, (p.bucket dc).Nodup)
    (hl : ∀ dc, dc ≠ p.localDc → ∀ h ∈ (p.bucket dc).take p.usedHostsPerRemoteDc, h ∉ p.bucket p.localDc)
    (hr : ∀ dc dc', dc ≠ p.localDc → dc' ≠ p.localDc → dc ≠ dc' →
      ∀ h ∈ (p.bucket dc).take p.usedHostsPerRemoteDc, h ∉ (p.bucket dc').take p.usedHostsPerRemoteDc) :
    p.makeQueryPlan.Nodup := by
  unfold makeQueryPlan
  rw [nodup_append']
  refine ⟨nodup_rotate.mpr (hn _), ?_, ?_⟩
  · unfold remotePlan
    rw [nodup_flatMap]
    refine ⟨fun dc _ => (hn dc).sublist (take_sublist ..), ?_⟩
    refine Pairwise.imp_of_mem ?_ (p.dcLiveHosts.keys_nodup.filter _)
    intro dc dc' hdc hdc' hne
    rw [mem_filter, decide_eq_true_eq] at hdc hdc'
    exact fun h hh hh' => hr dc dc' hdc.2 hdc'.2 hne h hh hh'
  intro h hh hh'
  obtain ⟨dc, hdc, hmem⟩ := p.mem_remotePlan.mp hh'
  exact hl dc hdc h hmem (p.mem_localPlan.mp hh)

theorem bucket_set {key : String} {hosts : List η} {dc : String} :
    { p with dcLiveHosts := p.dcLiveHosts.set key hosts }.bucket dc = if dc = key then hosts else p.bucket dc := by
  unfold bucket
  rw [Dict.get?_set]
  split <;> rfl

theorem bucket_erase {key dc : String} :
    { p with dcLiveHosts := p.dcLiveHosts.erase key }.bucket dc = if dc = key then [] else p.bucket dc := by
  unfold bucket
  rw [Dict.get?_erase]
  split <;> rfl

variable [DecidableEq η]

section

variable (datacenter : Option String)

variable (host : η)
include host

theorem bucket_file (dc : String) : (p.file datacenter host).bucket dc =
      if dc = p.dc datacenter ∧ host ∉ p.bucket dc then p.bucket dc ++ [host] else p.bucket dc := by
  unfold file
  by_cases hmem : host ∈ p.bucket (p.dc datacenter)
  · simp only [if_pos hmem]
    rw [if_neg]
    rintro ⟨rfl, hnot⟩
    exact hnot hmem
  simp only [if_neg hmem]
  rw [bucket_set]
  by_cases hdc : dc = p.dc datacenter
  · subst hdc
    rw [if_pos rfl, if_pos ⟨rfl, hmem⟩]
  · rw [if_neg hdc, if_neg fun h => hdc h.1]

theorem bucket_onDown (dc : String) : (p.onDown datacenter host).bucket dc =
      if dc = p.dc datacenter then (p.bucket dc).filter (· ≠ host) else p.bucket dc := by
  unfold onDown
  by_cases hmem : host ∈ p.bucket (p.dc datacenter)
  · simp only [if_pos hmem]
    by_cases he : (p.bucket (p.dc datacenter)).filter (· ≠ host) = []
    · rw [if_pos he, bucket_erase]
      split
      · rename_i hdc
        rw [hdc, he]
      · rfl
    rw [if_neg he, bucket_set]
    split
    · rename_i hdc
      rw [hdc]
    · rfl
  simp only [if_neg hmem]
  split
  · rename_i hdc
    rw [hdc, eq_comm, filter_eq_self]
    intro h hh
    simp only [decide_eq_true_eq]
    rintro rfl
    exact hmem hh
  · rfl

@[simp] theorem localDc_file : (p.file datacenter host).localDc = p.localDc := by
  simp only [file]
  split <;> rfl

@[simp] theorem localDc_onDown :
    (p.onDown datacenter host).localDc = p.localDc := by
  simp only [onDown]
  repeat' split
  all_goals rfl

@[simp] theorem used_file :
    (p.file datacenter host).usedHostsPerRemoteDc = p.usedHostsPerRemoteDc := by
  simp only [file]
  split <;> rfl

@[simp] theorem used_onDown :
    (p.onDown datacenter host).usedHostsPerRemoteDc = p.usedHostsPerRemoteDc := by
  simp only [onDown]
  repeat' split
  all_goals rfl

end

theorem detect_of_localDc (hl : p.localDc ≠ "") {datacenter : Option String} {host : η} :
    p.detect datacenter host = p := by
  unfold detect
  split
  · rw [if_neg fun h => hl h.1]
  · rfl

end DCAwareRoundRobinPolicy

/-! ## With `local_dc` given -/

namespace World

variable {η : Type} [DecidableEq η] {w : World η}

/-- Each bucket has the live hosts of its datacenter, once. -/
structure Filed (w : World η) : Prop where
  nodup : ∀ dc, (w.policy.bucket dc).Nodup
  mem_iff : ∀ dc host, host ∈ w.policy.bucket dc ↔ w.live host = true ∧ w.dcOf host = dc

def filing (w : World η) (host : η) : World η :=
  { w with policy := w.policy.file (w.datacenter host) host, live := Function.update w.live host true }

variable {host g : η} {datacenter : η → Option String} {hosts : List η}

omit [DecidableEq η] in
theorem nodup_append_host {l : List η} (h : l.Nodup) (hnot : host ∉ l) : (l ++ [host]).Nodup := by
  rw [nodup_append']
  exact ⟨h, nodup_singleton host, by simpa using hnot⟩

theorem filed_filing (h : Filed w) (host : η) : Filed (w.filing host) := by
  have hdc : ∀ g, (w.filing host).dcOf g = w.dcOf g := fun g =>
    DCAwareRoundRobinPolicy.dc_congr (w.policy.localDc_file ..) _
  constructor
  · intro dc
    simp only [filing, DCAwareRoundRobinPolicy.bucket_file]
    split
    · rename_i hnew
      exact nodup_append_host (h.nodup dc) hnew.2
    · exact h.nodup dc
  intro dc g
  rw [hdc]
  simp only [filing, DCAwareRoundRobinPolicy.bucket_file, Function.update_apply]
  have hmem := h.mem_iff dc g
  by_cases hg : g = host
  · subst hg
    by_cases hkey : dc = w.dcOf g
    · subst hkey
      by_cases hin : g ∈ w.policy.bucket (w.dcOf g)
      · simp [hin]
      rw [if_pos ⟨rfl, hin⟩]
      simp
    rw [if_neg fun hnew => hkey hnew.1, hmem]
    simp [Ne.symm hkey]
  split
  · rw [mem_append, mem_singleton, or_iff_left hg]
    exact hmem
  · exact hmem

theorem filed_down (h : Filed w) (host : η) : Filed (w.down host) := by
  have hdc : ∀ g, (w.down host).dcOf g = w.dcOf g := fun g =>
    DCAwareRoundRobinPolicy.dc_congr (w.policy.localDc_onDown ..) _
  constructor
  · intro dc
    simp only [down, DCAwareRoundRobinPolicy.bucket_onDown]
    split
    · exact (h.nodup dc).filter _
    · exact h.nodup dc
  intro dc g
  rw [hdc]
  simp only [down, DCAwareRoundRobinPolicy.bucket_onDown, Function.update_apply]
  have hmem := h.mem_iff dc g
  by_cases hg : g = host
  · subst hg
    rw [if_pos rfl]
    split
    · simp
    rename_i hkey
    rw [hmem]
    simp only [Bool.false_eq_true, false_and, iff_false, not_and]
    exact fun _ heq => hkey heq.symm
  split
  · rw [mem_filter, hmem]
    simp [hg]
  · exact hmem

theorem filed_move (h : Filed w) (hd : w.live host = false) (datacenter : Option String) :
    Filed (w.move host datacenter) := by
  refine ⟨h.nodup, fun dc g => ?_⟩
  rw [show (w.move host datacenter).policy = w.policy from rfl, h.mem_iff]
  by_cases hg : g = host
  · subst hg
    simp [move, hd]
  · simp [move, dcOf, hg]

theorem bucket_start {localDc : String} {used : Nat} {ord : SetOrder η} {cps : List η} {pos : Nat}
    (hunk : ∀ h ∈ hosts, datacenter h = none) {dc : String} :
    (start localDc used ord datacenter cps hosts pos).policy.bucket dc =
      if dc = localDc then ord.list hosts else [] := by
  cases hosts with
  | nil =>
    have hn : ord.list [] = [] := by
      rw [eq_nil_iff_forall_not_mem]
      intro h hh
      exact absurd ((ord.mem_iff _ _).mp hh) not_mem_nil
    rw [hn, ite_self]
    rfl
  | cons host rest =>
    have hdc : ∀ h ∈ host :: rest, ({ localDc, usedHostsPerRemoteDc := used } : DCAwareRoundRobinPolicy η).dc
        (datacenter h) = localDc := by
      intro h hh
      rw [hunk h hh]
      rfl
    have hg : (host :: rest).splitBy (fun a b =>
        decide (({ localDc, usedHostsPerRemoteDc := used } : DCAwareRoundRobinPolicy η).dc (datacenter a) =
          ({ localDc, usedHostsPerRemoteDc := used } : DCAwareRoundRobinPolicy η).dc (datacenter b))) =
        [host :: rest] := by
      apply splitBy_of_isChain (cons_ne_nil host rest)
      apply Pairwise.isChain
      apply pairwise_of_forall_mem_list
      intro a ha b hb
      rw [hdc a ha, hdc b hb]
      exact decide_eq_true rfl
    simp only [start, DCAwareRoundRobinPolicy.populate, hg, foldl_cons, foldl_nil,
      hdc host mem_cons_self, DCAwareRoundRobinPolicy.bucket, Dict.get?_set]
    split <;> rfl

theorem filed_start (localDc : String) (used : Nat) (ord : SetOrder η) (cps : List η) (pos : Nat)
    (hunk : ∀ h ∈ hosts, datacenter h = none) : Filed (start localDc used ord datacenter cps hosts pos) := by
  constructor
  · intro dc
    rw [bucket_start hunk]
    split
    · exact ord.nodup hosts
    · exact nodup_nil
  intro dc h
  rw [bucket_start hunk]
  have hl : (start localDc used ord datacenter cps hosts pos).live h ↔ h ∈ hosts := by
    simp [start]
  have hdc : h ∈ hosts → (start localDc used ord datacenter cps hosts pos).dcOf h = localDc := by
    intro hh
    simp only [dcOf, start, hunk h hh]
    rfl
  rw [hl]
  split
  · rename_i heq
    rw [ord.mem_iff, heq]
    exact ⟨fun hh => ⟨hh, hdc hh⟩, fun hh => hh.1⟩
  rename_i hne
  simp only [not_mem_nil, false_iff, not_and]
  exact fun hh heq => hne (heq.symm.trans (hdc hh))

theorem up_of_localDc (hl : w.policy.localDc ≠ "") (host : η) : w.up host = w.filing host := by
  simp only [up, filing, DCAwareRoundRobinPolicy.onUp, w.policy.detect_of_localDc hl]

theorem filed_step (h : Filed w) (hl : w.policy.localDc ≠ "") (ev : HostEvent η) :
    Filed (w.step ev) ∧ (w.step ev).policy.localDc = w.policy.localDc ∧
      (w.step ev).policy.usedHostsPerRemoteDc = w.policy.usedHostsPerRemoteDc := by
  have hup : ∀ {w} (host : η), Filed w → w.policy.localDc ≠ "" →
      Filed (w.up host) ∧ (w.up host).policy.localDc = w.policy.localDc ∧
        (w.up host).policy.usedHostsPerRemoteDc = w.policy.usedHostsPerRemoteDc := by
    intro w host hw hl
    rw [up_of_localDc hl]
    exact ⟨filed_filing hw host, w.policy.localDc_file .., w.policy.used_file ..⟩
  have hd := filed_down h
  cases ev with
  | onUp host | onAdd host => exact hup host h hl
  | onDown host | onRemove host => exact ⟨hd host, w.policy.localDc_onDown .., w.policy.used_onDown ..⟩
  | updateLocation host datacenter =>
    have hm : Filed ((w.down host).move host datacenter) := filed_move (hd host) (by simp [down]) datacenter
    have hl' : ((w.down host).move host datacenter).policy.localDc = w.policy.localDc := w.policy.localDc_onDown ..
    obtain ⟨hf, hs, hu⟩ := hup host hm (by rwa [hl'])
    exact ⟨hf, hs.trans hl', hu.trans (w.policy.used_onDown ..)⟩

/-! ### Plans -/

theorem distance_local : w.distance host = .LOCAL ↔ w.dcOf host = w.policy.localDc := by
  unfold distance DCAwareRoundRobinPolicy.distance dcOf
  simp only
  repeat' split
  all_goals simp_all

theorem distance_remote : w.distance host = .REMOTE ↔ w.dcOf host ≠ w.policy.localDc ∧
      host ∈ (w.policy.bucket (w.dcOf host)).take w.policy.usedHostsPerRemoteDc := by
  unfold distance DCAwareRoundRobinPolicy.distance dcOf DCAwareRoundRobinPolicy.bucket
  simp only
  repeat' split
  all_goals simp_all

omit [DecidableEq η] in
theorem filed_plan_nodup (h : Filed w) : w.policy.makeQueryPlan.Nodup := by
  have hkey : ∀ dc g, g ∈ w.policy.bucket dc → w.dcOf g = dc := fun dc g hg => ((h.mem_iff dc g).mp hg).2
  apply w.policy.makeQueryPlan_nodup h.nodup
  · intro dc hdc g hg hg'
    exact hdc ((hkey dc g (mem_of_mem_take hg)).symm.trans (hkey _ g hg'))
  intro dc dc' _ _ hne g hg hg'
  exact hne ((hkey dc g (mem_of_mem_take hg)).symm.trans (hkey dc' g (mem_of_mem_take hg')))

variable (h : Filed w)
include h

theorem filed_remote (hg : g ∈ w.policy.remotePlan) : w.live g ∧ w.distance g = .REMOTE := by
  obtain ⟨dc, hdc, hmem⟩ := w.policy.mem_remotePlan.mp hg
  obtain ⟨hl, rfl⟩ := (h.mem_iff dc g).mp (mem_of_mem_take hmem)
  exact ⟨hl, distance_remote.mpr ⟨hdc, hmem⟩⟩

theorem filed_local (hg : g ∈ w.policy.localPlan) : w.live g ∧ w.distance g = .LOCAL := by
  obtain ⟨hl, hdc⟩ := (h.mem_iff _ g).mp (w.policy.mem_localPlan.mp hg)
  exact ⟨hl, distance_local.mpr hdc⟩

theorem filed_mem_plan (g : η) : g ∈ w.policy.makeQueryPlan ↔ w.live g ∧ w.distance g ≠ .IGNORED := by
  unfold DCAwareRoundRobinPolicy.makeQueryPlan
  rw [mem_append]
  constructor
  · rintro (hg | hg)
    · obtain ⟨hl, hd⟩ := filed_local h hg
      simp [hl, hd]
    obtain ⟨hl, hd⟩ := filed_remote h hg
    simp [hl, hd]
  rintro ⟨hl, hd⟩
  cases hc : w.distance g with
  | IGNORED => exact absurd hc hd
  | LOCAL =>
    left
    rw [w.policy.mem_localPlan, h.mem_iff]
    exact ⟨hl, distance_local.mp hc⟩
  | REMOTE =>
    right
    rw [w.policy.mem_remotePlan]
    exact ⟨w.dcOf g, distance_remote.mp hc⟩

theorem filed_remote_length (dc : String) :
    (w.policy.remotePlan.filter fun g => w.dcOf g = dc).length ≤ w.policy.usedHostsPerRemoteDc := by
  have hsub : (w.policy.remotePlan.filter fun g => w.dcOf g = dc) ⊆
      (w.policy.bucket dc).take w.policy.usedHostsPerRemoteDc := by
    intro g hg
    rw [mem_filter, decide_eq_true_eq] at hg
    obtain ⟨hmem, rfl⟩ := hg
    exact (distance_remote.mp (filed_remote h hmem).2).2
  have hn : (w.policy.remotePlan.filter fun g => w.dcOf g = dc).Nodup :=
    ((filed_plan_nodup h).sublist (sublist_append_right ..)).filter _
  exact (subperm_of_subset hn hsub).length_le.trans (length_take_le ..)

end World

/-- **Plans with a local datacenter** have the live hosts once, local ones first. -/
theorem dc_aware_plan_explicit {η : Type} [DecidableEq η] (localDc : String) (hlocal : localDc ≠ "") (used : Nat)
    (order : SetOrder η) (datacenter : η → Option String) (contactPoints hosts : List η) (position : Nat)
    (hunknown : ∀ h ∈ hosts, datacenter h = none) (events : List (HostEvent η)) :
    let w := run World.step (World.start localDc used order datacenter contactPoints hosts position) events
    w.policy.makeQueryPlan.Nodup ∧ (∀ h, h ∈ w.policy.makeQueryPlan ↔ w.live h = true ∧ w.distance h ≠ .IGNORED) ∧
    ∃ locals remotes, w.policy.makeQueryPlan = locals ++ remotes ∧
      (∀ h ∈ locals, w.distance h = .LOCAL) ∧ (∀ h ∈ remotes, w.distance h = .REMOTE) ∧
      ∀ dc, (remotes.filter fun h => w.dcOf h = dc).length ≤ used := by
  intro w
  have hinv : w.Filed ∧ w.policy.localDc = localDc ∧ w.policy.usedHostsPerRemoteDc = used := by
    have hs : ∀ (w : World η) event, w.Filed ∧ w.policy.localDc = localDc ∧ w.policy.usedHostsPerRemoteDc = used →
        (w.step event).Filed ∧ (w.step event).policy.localDc = localDc ∧
          (w.step event).policy.usedHostsPerRemoteDc = used := by
      rintro w event ⟨hf, hdc, hu⟩
      obtain ⟨hf', hdc', hu'⟩ := World.filed_step hf (hdc ▸ hlocal) event
      exact ⟨hf', hdc'.trans hdc, hu'.trans hu⟩
    exact run_invariant_all hs events ⟨World.filed_start localDc used order contactPoints position hunknown, rfl, rfl⟩
  obtain ⟨hf, -, hu⟩ := hinv
  refine ⟨World.filed_plan_nodup hf, World.filed_mem_plan hf, _, _, rfl, ?_, ?_, ?_⟩
  · exact fun h hh => (World.filed_local hf hh).2
  · exact fun h hh => (World.filed_remote hf hh).2
  intro dc
  rw [← hu]
  exact World.filed_remote_length hf dc

def firstSeen : SetOrder Nat := ⟨List.dedup, nodup_dedup, fun _ _ => mem_dedup⟩

theorem dc_aware_plan_explicit_three :
    let w := run World.step (World.start "dc1" 1 firstSeen (fun _ => none) [] [1, 2, 3] 5)
      [.updateLocation 3 (some "dc2"), .updateLocation 1 (some "dc1"), .onDown 2, .updateLocation 2 (some "dc2")]
    3 ∈ w.policy.makeQueryPlan ∧ 2 ∉ w.policy.makeQueryPlan :=
  have h := dc_aware_plan_explicit "dc1" (by decide) 1 firstSeen (fun _ => none) [] [1, 2, 3] 5 (fun _ _ => rfl)
    [.updateLocation 3 (some "dc2"), .updateLocation 1 (some "dc1"), .onDown 2, .updateLocation 2 (some "dc2")]
  ⟨(h.2.1 3).mpr (by decide +kernel), fun hmem => ((h.2.1 2).mp hmem).2 (by decide +kernel)⟩

end CqlDriver.Policies
