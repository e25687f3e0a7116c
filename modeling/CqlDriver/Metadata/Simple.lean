import CqlDriver.Metadata.Walk
import Mathlib.Data.List.Forall2
import Mathlib.Order.Defs.LinearOrder

/-! # The replica lists of `SimpleStrategy` -/

namespace CqlDriver.Metadata

open Lib List

variable {τ η : Type} [DecidableEq τ] [DecidableEq η]

def takeNew (replicationFactor : Int) : List η → List η → List η
  | [], hosts => hosts
  | host :: rest, hosts =>
    if hosts.length < replicationFactor then
      takeNew replicationFactor rest (if host ∈ hosts then hosts else hosts ++ [host])
    else hosts

theorem prefix_takeNew (rf : Int) (walk hosts : List η) : hosts <+: takeNew rf walk hosts := by
  induction walk generalizing hosts with
  | nil => exact prefix_refl _
  | cons host rest ih =>
    rw [takeNew]
    split
    · refine IsPrefix.trans ?_ (ih _)
      split
      · exact prefix_refl _
      · exact prefix_append _ _
    · exact prefix_refl _

variable {hosts wk owners : List η} {owner : Dict τ η} {ring : List τ}

theorem takeNew_full {rf : Int} (h : ¬ hosts.length < rf) : takeNew rf wk hosts = hosts := by
  cases wk with
  | nil => rfl
  | cons host rest => rw [takeNew, if_neg h]

theorem takeNew_append_old (rf : Int) {h : η} (hh : h ∈ hosts) :
    takeNew rf (wk ++ [h]) hosts = takeNew rf wk hosts := by
  induction wk generalizing hosts with
  | nil => simp [takeNew, hh]
  | cons host rest ih =>
    rw [cons_append, takeNew, takeNew]
    split
    · exact ih (by split <;> simp [hh])
    · rfl

theorem takeNew_cons (rf : Int) (hrf : 1 ≤ rf) (h : η) (wk : List η) : takeNew rf (h :: wk) [] = takeNew rf wk [h] := by
  rw [takeNew, if_pos (by simp; omega)]
  simp

theorem takeNew_rotate (rf : Int) (h : η) (wk : List η) :
    takeNew rf (wk ++ [h]) [] = takeNew rf (h :: wk) [] ↔ rf ≤ 0 ∨ (wk ++ [h]).head? = some h := by
  by_cases hrf : 1 ≤ rf
  swap
  · have hn : ∀ w : List η, takeNew rf w [] = [] := fun w => takeNew_full (by simp; omega)
    simp only [hn, true_iff]
    omega
  have hc : ¬ rf ≤ 0 := by omega
  rw [or_iff_right hc]
  cases wk with
  | nil => simp
  | cons g rest =>
    rw [cons_append, head?_cons, takeNew_cons rf hrf, takeNew_cons rf hrf]
    constructor
    · intro heq
      have h1 := prefix_takeNew rf (rest ++ [h]) [g]
      have h2 := prefix_takeNew rf (g :: rest) [h]
      rw [heq] at h1
      obtain ⟨a, ha⟩ := h1
      obtain ⟨b, hb⟩ := h2
      rw [← hb, singleton_append, singleton_append, cons.injEq] at ha
      rw [ha.1]
    intro hg
    cases hg
    rw [takeNew_append_old rf (by simp), takeNew]
    split
    · simp
    rename_i hf
    exact takeNew_full hf

/-! ## The replica map -/

omit [DecidableEq η] in
theorem forall₂_of_mapM (h : ring.mapM owner.get? = some owners) :
    Forall₂ (fun t g => owner.get? t = some g) ring owners := by
  induction ring generalizing owners with
  | nil =>
    obtain rfl : [] = owners := by simpa using h
    exact .nil
  | cons tok ring ih =>
    simp only [mapM_cons, Option.pure_def, Option.bind_eq_bind, Option.bind_eq_some_iff, Option.some.injEq] at h
    obtain ⟨host, hh, rest, hr, rfl⟩ := h
    exact .cons hh (ih hr)

theorem simpleLoop_eq (rf : Int) {toks : List τ} (h : Forall₂ (fun t g => owner.get? t = some g) toks owners)
    (hosts : List η) : simpleLoop rf owner toks hosts = some (takeNew rf owners hosts) := by
  induction h generalizing hosts with
  | nil => rfl
  | cons hget _ ih =>
    rw [simpleLoop, takeNew]
    split
    · simp [hget, ih]
    · rfl

theorem simpleLoop_rotate (rf : Int) (h : Forall₂ (fun t g => owner.get? t = some g) ring owners) {i : Nat}
    (hi : i ≤ ring.length) : simpleLoop rf owner (ring.rotate i) [] = some (takeNew rf (owners.rotate i) []) := by
  apply simpleLoop_eq
  rw [rotate_eq_drop_append_take hi, rotate_eq_drop_append_take (h.length_eq ▸ hi)]
  exact rel_append (forall₂_drop i h) (forall₂_take i h)

omit [DecidableEq η] in
theorem foldlM_set (toks : List (τ × Nat)) (f : Nat → Option (List η)) (lists : Nat → List η)
    (h : ∀ p ∈ toks, f p.2 = some (lists p.2)) (m : Dict τ (List η)) :
    toks.foldlM (fun m (t, i) => do let l ← f i; return m.set t l) m =
      some (m.setAll (toks.map fun p => (p.1, lists p.2))) := by
  induction toks generalizing m with
  | nil => rfl
  | cons p toks ih =>
    rw [forall_mem_cons] at h
    simp only [foldlM_cons, h.1]
    exact ih h.2 _

theorem simpleReplicaMap_spec (rf : Int) (hr : ring.Nodup) (ho : ∀ t ∈ ring, t ∈ owner.keys) :
    ∃ owners m, ring.mapM owner.get? = some owners ∧ simpleReplicaMap rf owner ring = some m ∧
      m.keys = ring ∧ ∀ i t, ring[i]? = some t → m.get? t = some (takeNew rf (owners.rotate i) []) := by
  obtain ⟨owners, hmap, -, -⟩ := mapM_get?_eq_some ho
  obtain ⟨hk, hget⟩ := setAll_ring hr fun i => takeNew rf (owners.rotate i) []
  refine ⟨owners, _, hmap, ?_, hk, hget⟩
  refine foldlM_set ring.zipIdx (fun i => simpleLoop rf owner _ []) (fun i => takeNew rf _ []) ?_ Dict.empty
  intro p hp
  exact simpleLoop_rotate rf (forall₂_of_mapM hmap) (by simpa using (snd_lt_of_mem_zipIdx hp).le)

end CqlDriver.Metadata
