import CqlDriver.Policies.DCAware

/-! # `populate` on hosts of several datacenters -/

namespace CqlDriver.Policies

open Lib List

variable {η : Type}

/-! ## Runs -/

/-- Between two hosts of one datacenter there is none of another. -/
def Together (dcOf : η → String) (hosts : List η) : Prop :=
  ∀ i j k : Fin hosts.length, i < j → j < k → dcOf hosts[i] = dcOf hosts[k] → dcOf hosts[j] = dcOf hosts[k]

instance (dcOf : η → String) (hosts : List η) : Decidable (Together dcOf hosts) :=
  inferInstanceAs (Decidable (∀ _, _))

theorem together_iff {dcOf : η → String} {hosts : List η} :
    Together dcOf hosts ↔ ∀ fr a mid b rest, hosts = fr ++ a :: (mid ++ b :: rest) → dcOf a = dcOf b →
      ∀ h ∈ mid, dcOf h = dcOf b := by
  constructor
  · rintro htog fr a mid b rest rfl hab h hh
    obtain ⟨n, hn, rfl⟩ := getElem_of_mem hh
    have hlen : (fr ++ a :: (mid ++ b :: rest)).length = fr.length + mid.length + rest.length + 2 := by
      simp
      omega
    have hf : (fr ++ a :: (mid ++ b :: rest))[fr.length] = a := by grind
    have hnx : (fr ++ a :: (mid ++ b :: rest))[fr.length + 1 + n] = mid[n] := by grind
    have hl : (fr ++ a :: (mid ++ b :: rest))[fr.length + 1 + mid.length] = b := by grind
    have hs := htog ⟨fr.length, by omega⟩ ⟨fr.length + 1 + n, by omega⟩
      ⟨fr.length + 1 + mid.length, by omega⟩ (by simp; omega) (by simp; omega)
    simp only [Fin.getElem_fin, hf, hnx, hl] at hs
    exact hs hab
  intro h i j k hij hjk hik
  have hsp : hosts = hosts.take i ++ hosts[i] :: (((hosts.drop (i + 1)).take (k - (i + 1))) ++
      hosts[k] :: hosts.drop (k + 1)) := by
    have hk : hosts.drop (i + 1) = (hosts.drop (i + 1)).take (k - (i + 1)) ++ hosts[k] :: hosts.drop (k + 1) := by
      conv_lhs => rw [← take_append_drop (k - (i + 1)) (hosts.drop _), drop_drop]
      rw [show (i : Nat) + 1 + (k - (i + 1)) = k by omega, drop_eq_getElem_cons k.isLt]
      rfl
    rw [← hk]
    exact (take_append_drop i hosts).symm.trans (by rw [drop_eq_getElem_cons]; rfl)
  refine h _ _ _ _ _ hsp hik _ (mem_iff_getElem.mpr ⟨j - (i + 1), ?_, ?_⟩)
  · rw [length_take, length_drop]
    omega
  simp only [getElem_take, getElem_drop]
  congr 1
  omega

theorem split_last {α : Type} {l bef aft : List α} {x y : α} (h : l ++ [x] = bef ++ y :: aft) :
    (aft = [] ∧ l = bef ∧ x = y) ∨ ∃ after', aft = after' ++ [x] ∧ l = bef ++ y :: after' := by
  rcases aft.eq_nil_or_concat' with rfl | ⟨after', last, rfl⟩
  · obtain ⟨hl, hx⟩ := append_inj' h rfl
    exact .inl ⟨rfl, hl, singleton_inj.mp hx⟩
  rw [← cons_append, ← append_assoc] at h
  obtain ⟨hl, hx⟩ := append_inj' h rfl
  rw [singleton_inj.mp hx]
  exact .inr ⟨after', rfl, hl⟩

namespace DCAwareRoundRobinPolicy

/-! ## The buckets -/

variable {order : SetOrder η} {dcOf : η → String}

def fileGroups (order : SetOrder η) (dcOf : η → String) (live : Dict String (List η)) (groups : List (List η)) :
    Dict String (List η) :=
  groups.foldl (fun live group =>
    match group with
    | [] => live
    | host :: _ => live.set (dcOf host) (order.list group)) live

theorem mem_fileGroups {grs : List (List η)} (hg : ∀ group ∈ grs, group ≠ [])
    (hs : ∀ group ∈ grs, ∀ a ∈ group, ∀ b ∈ group, dcOf a = dcOf b) {host : η} {dc : String} :
    host ∈ ((fileGroups order dcOf Dict.empty grs).get? dc).getD [] ↔
      ∃ bef group aft, grs = bef ++ group :: aft ∧ host ∈ group ∧ dcOf host = dc ∧ ∀ h ∈ aft.flatten, dcOf h ≠ dc := by
  induction grs using reverseRecOn with
  | nil => simp [fileGroups]
  | append_singleton grs group ih =>
    simp only [forall_mem_append, forall_mem_singleton] at hg hs
    obtain ⟨first, rest, rfl⟩ := exists_cons_of_ne_nil hg.2
    have hf : ∀ h ∈ first :: rest, dcOf h = dcOf first := fun h hh => hs.2 h hh first mem_cons_self
    have hst : fileGroups order dcOf Dict.empty (grs ++ [first :: rest]) =
        (fileGroups order dcOf Dict.empty grs).set (dcOf first) (order.list (first :: rest)) := by
      simp [fileGroups]
    rw [hst, Dict.get?_set]
    by_cases hdc : dc = dcOf first
    · rw [if_pos hdc, Option.getD_some, order.mem_iff]
      constructor
      · intro hhs
        exact ⟨grs, _, [], rfl, hhs, (hf host hhs).trans hdc.symm, by simp⟩
      rintro ⟨bef, group, aft, heq, hhs, -, ha⟩
      obtain ⟨-, -, rfl⟩ | ⟨aft', rfl, -⟩ := split_last heq
      · exact hhs
      · exact absurd hdc.symm (ha first (by simp))
    rw [if_neg hdc, ih hg.1 hs.1]
    constructor
    · rintro ⟨bef, group, aft, rfl, hhs, hkey, ha⟩
      refine ⟨bef, group, aft ++ [first :: rest], by simp, hhs, hkey, ?_⟩
      rw [flatten_append, forall_mem_append]
      refine ⟨ha, fun h hh => ?_⟩
      rw [flatten_singleton] at hh
      rw [hf h hh]
      exact Ne.symm hdc
    rintro ⟨bef, group, aft, heq, hhs, hkey, ha⟩
    obtain ⟨-, -, rfl⟩ | ⟨aft', rfl, rfl⟩ := split_last heq
    · exact absurd (hkey.symm.trans (hf host hhs)) hdc
    rw [flatten_append, forall_mem_append] at ha
    exact ⟨bef, group, aft', rfl, hhs, hkey, ha.1⟩

def groupsOf (dcOf : η → String) (hosts : List η) : List (List η) := hosts.splitBy fun a b => dcOf a = dcOf b

variable {group hosts : List η} {dc : String} {host : η}

theorem groupsOf_same (h : group ∈ groupsOf dcOf hosts) : ∀ a ∈ group, ∀ b ∈ group, dcOf a = dcOf b := by
  have hc : group.IsChain fun a b => dcOf a = dcOf b := by
    simpa using isChain_of_mem_splitBy h
  intro a ha b hb
  exact Pairwise.forall_of_forall (R := fun a b => dcOf a = dcOf b) (fun _ _ => rfl)
    (isChain_iff_pairwise.mp hc) ha hb

theorem groupsOf_next {next : List η} {bef aft : List (List η)}
    (h : groupsOf dcOf hosts = bef ++ group :: next :: aft) : ∃ g ∈ group, ∃ h ∈ next, dcOf g ≠ dcOf h := by
  have hc := isChain_getLast_head_splitBy (fun a b => decide (dcOf a = dcOf b)) hosts
  rw [show hosts.splitBy _ = bef ++ group :: next :: aft from h] at hc
  obtain ⟨hg, hn, hd⟩ := (isChain_cons_cons.mp (isChain_append.mp hc).2.1).1
  exact ⟨_, getLast_mem hg, _, head_mem hn, of_decide_eq_false hd⟩

theorem flatten_groupsOf (dcOf : η → String) (hosts : List η) : (groupsOf dcOf hosts).flatten = hosts :=
  flatten_splitBy ..

def filed (order : SetOrder η) (dcOf : η → String) (hosts : List η) (dc : String) : List η :=
  ((fileGroups order dcOf Dict.empty (groupsOf dcOf hosts)).get? dc).getD []

theorem mem_filed : host ∈ filed order dcOf hosts dc ↔ ∃ bef group aft, groupsOf dcOf hosts = bef ++ group :: aft ∧
      host ∈ group ∧ dcOf host = dc ∧ ∀ h ∈ aft.flatten, dcOf h ≠ dc :=
  mem_fileGroups (fun _ => ne_nil_of_mem_splitBy) (fun _ => groupsOf_same)

theorem nodup_filed (order : SetOrder η) (dcOf : η → String) (hosts : List η) (dc : String) :
    (filed order dcOf hosts dc).Nodup := by
  unfold filed
  induction groupsOf dcOf hosts using reverseRecOn with
  | nil => simp [fileGroups]
  | append_singleton grs group ih =>
    cases group with
    | nil => simpa [fileGroups] using ih
    | cons first rest =>
      simp only [fileGroups, foldl_append, foldl_cons, foldl_nil, Dict.get?_set] at ⊢
      split
      · exact order.nodup _
      · exact ih

theorem of_mem_filed (h : host ∈ filed order dcOf hosts dc) : host ∈ hosts ∧ dcOf host = dc := by
  obtain ⟨bef, group, aft, hs, hh, hdc, -⟩ := mem_filed.mp h
  refine ⟨?_, hdc⟩
  rw [← flatten_groupsOf dcOf hosts, hs]
  simp [hh]

theorem mem_filed_of_together (htog : Together dcOf hosts) (hh : host ∈ hosts) :
    host ∈ filed order dcOf hosts (dcOf host) := by
  have hf := flatten_groupsOf dcOf hosts
  obtain ⟨group, hgr, hmem⟩ := mem_flatten.mp (hf.symm ▸ hh)
  obtain ⟨bef, aft, hsp⟩ := append_of_mem hgr
  refine mem_filed.mpr ⟨bef, group, aft, hsp, hmem, rfl, ?_⟩
  -- A later host of the datacenter would have the next group between it and `host`.
  intro later hl hs
  cases aft with
  | nil => simp at hl
  | cons next aft =>
    obtain ⟨g, hg, other, ho, hd⟩ := groupsOf_next hsp
    rw [groupsOf_same hgr g hg host hmem] at hd
    have hn : next ∈ groupsOf dcOf hosts := hsp ▸ by simp
    have hl' : later ∈ aft.flatten := by
      rcases mem_append.mp (flatten_cons ▸ hl) with hin | hin
      · exact absurd (hs.symm.trans (groupsOf_same hn later hin other ho)) hd
      · exact hin
    obtain ⟨fr, tail, hgr⟩ := append_of_mem hmem
    obtain ⟨fr', tail', ha⟩ := append_of_mem hl'
    have hhs : hosts = bef.flatten ++ fr ++ host :: ((tail ++ next ++ fr') ++ later :: tail') := by
      rw [← hf, hsp]
      simp [hgr, ha]
    have hb := together_iff.mp htog _ _ _ _ _ hhs hs.symm other (by simp [ho])
    exact hd (hs.symm.trans hb.symm)

theorem together_of_mem_filed (hn : hosts.Nodup)
    (hk : ∀ host ∈ hosts, host ∈ filed order dcOf hosts (dcOf host)) : Together dcOf hosts := by
  rw [together_iff]
  rintro front a mid b rest heq hab h hh
  obtain ⟨bef, group, aft, hs, hmem, -, haf⟩ := mem_filed.mp (hk a (by simp [heq]))
  have hg : group ∈ groupsOf dcOf hosts := hs ▸ by simp
  obtain ⟨fr', tail, rfl⟩ := append_of_mem hmem
  have hhs : hosts = bef.flatten ++ fr' ++ a :: (tail ++ aft.flatten) := by
    rw [← flatten_groupsOf dcOf hosts, hs]
    simp
  -- `a` stands in one place only, so what follows it is the same.
  have hf : mid ++ b :: rest = tail ++ aft.flatten := by
    have hfr : a ∉ front := fun ha => disjoint_of_nodup_append (heq ▸ hn) ha mem_cons_self
    have hr : a ∉ mid ++ b :: rest := (nodup_cons.mp (nodup_append.mp (heq ▸ hn)).2.1).1
    exact ((append_cons_inj_of_notMem hfr hr).mp (heq.symm.trans hhs)).2.2
  rcases append_eq_append_iff.mp hf with ⟨more, rfl, -⟩ | ⟨more, -, hr⟩
  · exact (groupsOf_same hg h (by simp [hh]) a (by simp)).trans hab
  refine absurd hab.symm (haf b ?_)
  rw [hr]
  simp

/-- Every host is in the bucket of its datacenter and in no other. -/
def KeepsEvery (p : DCAwareRoundRobinPolicy η) (datacenter : η → Option String) (hosts : List η) : Prop :=
  ∀ host ∈ hosts, ∀ dc, host ∈ p.bucket dc ↔ dc = p.dc (datacenter host)

def fresh (localDc : String) (used : Nat) : DCAwareRoundRobinPolicy η := { localDc, usedHostsPerRemoteDc := used }

def homeDc (localDc : String) (datacenter : η → Option String) (host : η) : String :=
  (fresh localDc 0 : DCAwareRoundRobinPolicy η).dc (datacenter host)

variable {cps : List η} {d : η → Option String} {ldc : String} {pos used : Nat}

theorem bucket_populate {order : SetOrder η} {hosts : List η} {dc : String} :
    ((fresh ldc used).populate order d cps hosts pos).bucket dc = filed order (homeDc ldc d) hosts dc := rfl

theorem keepsEvery_iff {order : SetOrder η} {hosts : List η} :
    ((fresh ldc used).populate order d cps hosts pos).KeepsEvery d hosts ↔
      ∀ host ∈ hosts, host ∈ filed order (homeDc ldc d) hosts (homeDc ldc d host) := by
  constructor
  · intro h host hh
    exact (h host hh _).mpr rfl
  intro h host hh dc
  constructor
  · exact fun hmem => (of_mem_filed hmem).2.symm
  rintro rfl
  exact h host hh

/-- **`populate` keeps every host** exactly if datacenters stand together. -/
theorem populate_keeps_every_iff (localDc : String) (used : Nat) (order : SetOrder η)
    (datacenter : η → Option String) (contactPoints hosts : List η) (hnodup : hosts.Nodup) (position : Nat) :
    let populated := (fresh localDc used).populate order datacenter contactPoints
    let dcOf := homeDc localDc datacenter
    ((populated hosts position).KeepsEvery datacenter hosts ↔ Together dcOf hosts) ∧
    ∀ hosts' position', hosts'.Perm hosts → Together dcOf hosts → Together dcOf hosts' →
      ∀ dc host, host ∈ (populated hosts position).bucket dc ↔ host ∈ (populated hosts' position').bucket dc := by
  intro populated dcOf
  have hmem : ∀ {hosts}, Together dcOf hosts → ∀ dc host, host ∈ filed order dcOf hosts dc ↔
      host ∈ hosts ∧ dcOf host = dc := by
    intro hosts htog dc host
    refine ⟨of_mem_filed, ?_⟩
    rintro ⟨hh, rfl⟩
    exact mem_filed_of_together htog hh
  constructor
  · rw [keepsEvery_iff]
    exact ⟨together_of_mem_filed hnodup, fun htog host hh => mem_filed_of_together htog hh⟩
  · intro hosts' position' hp htog htog' dc host
    rw [bucket_populate, bucket_populate, hmem htog, hmem htog', hp.mem_iff]

theorem populate_keeps_every_three :
    ((fresh "dc1" 1).populate firstSeen (fun n : Nat => if n = 3 then some "dc2" else some "dc1")
      [] [1, 2, 3] 0).KeepsEvery (fun n => if n = 3 then some "dc2" else some "dc1") [1, 2, 3] :=
  (populate_keeps_every_iff "dc1" 1 firstSeen (fun n => if n = 3 then some "dc2" else some "dc1") []
    [1, 2, 3] (by decide) 0).1.mpr (by decide)

/-- The other datacenter's host between them hides the first one. -/
theorem populate_loses_first : ¬ ((fresh "dc1" 1).populate firstSeen
      (fun n : Nat => if n = 3 then some "dc2" else some "dc1") [] [1, 3, 2] 0).KeepsEvery
        (fun n => if n = 3 then some "dc2" else some "dc1") [1, 3, 2] := by
  intro h
  have hf := (h 1 (by decide) "dc1").mpr (by decide)
  revert hf
  decide +kernel

end DCAwareRoundRobinPolicy

end CqlDriver.Policies
