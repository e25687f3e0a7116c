import CqlDriver.Metadata.Walk
import Mathlib.Data.List.Dedup
import Mathlib.Data.List.Perm.Subperm

/-! # Which hosts the selection loop takes -/

namespace CqlDriver.Metadata

open Lib List

variable {η : Type}

/-! ## The first host of each rack -/

local instance lawfulBEq_rack : LawfulBEq (Option String) := inferInstance

def firsts (rack : η → Option String) (walk : List η) : List η :=
  walk.foldl (fun found h => if rack h ∈ found.map rack then found else found ++ [h]) []

section

variable (rack : η → Option String)

theorem firsts_append_one {p : List η} {h : η} : firsts rack (p ++ [h]) =
      if rack h ∈ (firsts rack p).map rack then firsts rack p else firsts rack p ++ [h] := by
  rw [firsts, foldl_append]
  rfl

section

variable (p : List η)

theorem mem_firsts_rack (r : Option String) : r ∈ (firsts rack p).map rack ↔ r ∈ p.map rack := by
  induction p using reverseRecOn with
  | nil => rfl
  | append_singleton p h ih =>
    rw [firsts_append_one]
    grind

theorem firsts_rack_nodup : ((firsts rack p).map rack).Nodup := by
  induction p using reverseRecOn with
  | nil => exact nodup_nil
  | append_singleton p h ih =>
    rw [firsts_append_one]
    split
    · exact ih
    rename_i hnew
    rw [map_append, nodup_append]
    refine ⟨ih, by simp, ?_⟩
    intro a ha b hb hab
    simp only [map_cons, map_nil, mem_singleton] at hb
    exact hnew (by rw [← hb, ← hab]; exact ha)

theorem firsts_nodup : (firsts rack p).Nodup := (firsts_rack_nodup rack p).of_map rack

theorem firsts_subset : firsts rack p ⊆ p := by
  induction p using reverseRecOn with
  | nil => exact fun _ => id
  | append_singleton p h ih =>
    rw [firsts_append_one]
    split
    · exact Subset.trans ih (subset_append_left _ _)
    · exact append_subset.mpr ⟨Subset.trans ih (subset_append_left _ _), by simp⟩

end

theorem mem_firsts_append {p q : List η} {g : η} (hg : g ∈ p) : g ∈ firsts rack (p ++ q) ↔ g ∈ firsts rack p := by
  induction q using reverseRecOn with
  | nil => rw [append_nil]
  | append_singleton q h ih =>
    rw [← append_assoc, firsts_append_one]
    split
    · exact ih
    rename_i hnew
    rw [mem_append, ih, mem_singleton]
    refine or_iff_left ?_
    rintro rfl
    exact hnew ((mem_firsts_rack rack _ _).mpr (mem_map_of_mem (mem_append_left _ hg)))

theorem prefix_firsts_append (p q : List η) : firsts rack p <+: firsts rack (p ++ q) := by
  induction q using reverseRecOn with
  | nil => rw [append_nil]
  | append_singleton q h ih =>
    rw [← append_assoc, firsts_append_one]
    split
    · exact ih
    · exact ih.trans (prefix_append _ _)

end

/-! ## The hosts in front of the replicas of this datacenter -/

theorem addSkipped_eq (skipped reps : List η) (n : Nat) :
    addSkipped skipped reps n = (reps ++ skipped.take n, n - skipped.length) := by
  induction skipped generalizing reps n with
  | nil => simp [addSkipped]
  | cons host rest ih =>
    cases n with
    | zero => simp [addSkipped]
    | succ n =>
      rw [addSkipped, ih]
      simp

variable [DecidableEq η]

omit [DecidableEq η] in
theorem place_replicas (rack : Option String) {nr : Nat} {s : Selection η} (host : η) :
    ∃ (s' : Selection η) (new : List η), new ⊆ host :: s.skippedHosts ∧ s'.skippedHosts ⊆ s.skippedHosts ∧
      ∀ r, ({ s with replicas := r } : Selection η).place rack nr host = { s' with replicas := r ++ new } := by
  by_cases hl : (s.racksPlaced.insert rack).length = nr
  · refine ⟨{ s.place rack nr host with skippedHosts := [] },
      host :: s.skippedHosts.take (s.replicasRemaining - 1), ?_, nil_subset _, fun r => ?_⟩
    · exact cons_subset_cons _ (take_subset _ _)
    · simp [Selection.place, hl, addSkipped_eq]
  refine ⟨s.place rack nr host, [host], by simp, ?_, fun r => ?_⟩
  · simp [Selection.place, hl]
  · simp [Selection.place, hl]

section

variable (rack : η → Option String)

variable (nr nh : Nat)

theorem selectLoop_new (walk : List η) :
    ∀ (s : Selection η) {r r' : List η}, (∀ g ∈ walk, g ∈ r ↔ g ∈ r') → ∃ new, new ⊆ s.skippedHosts ++ walk ∧
        (selectLoop rack nr nh walk { s with replicas := r }).replicas = r ++ new ∧
        (selectLoop rack nr nh walk { s with replicas := r' }).replicas = r' ++ new := by
  induction walk with
  | nil => exact fun s r r' _ => ⟨[], nil_subset _, by simp [selectLoop], by simp [selectLoop]⟩
  | cons host rest ih =>
    intro s r r' h
    rw [forall_mem_cons] at h
    have hk : s.skippedHosts ++ rest ⊆ s.skippedHosts ++ host :: rest := by
      refine append_subset.mpr ⟨subset_append_left _ _, ?_⟩
      exact subset_append_of_subset_right _ (subset_cons_self _ _)
    rw [selectLoop, selectLoop]
    by_cases hst : s.replicasRemaining = 0 ∨ s.replicasThisDc = nh
    · rw [if_pos hst, if_pos hst]
      exact ⟨[], nil_subset _, by simp, by simp⟩
    rw [if_neg hst, if_neg hst]
    by_cases hin : host ∈ r
    · rw [if_pos hin, if_pos (h.1.mp hin)]
      obtain ⟨new, hnew, hres⟩ := ih s h.2
      exact ⟨new, Subset.trans hnew hk, hres⟩
    rw [if_neg hin, if_neg (mt h.1.mpr hin)]
    by_cases hsk : rack host ∈ s.racksPlaced ∧ s.racksPlaced.length < nr
    · rw [if_pos hsk, if_pos hsk]
      obtain ⟨new, hnew, hres⟩ := ih { s with skippedHosts := s.skippedHosts ++ [host] } h.2
      refine ⟨new, Subset.trans hnew ?_, hres⟩
      simp
    rw [if_neg hsk, if_neg hsk]
    obtain ⟨s', placed, hplc, hsp, hp⟩ := place_replicas _ host
    rw [hp, hp]
    have hs : ∀ g ∈ rest, g ∈ r ++ placed ↔ g ∈ r' ++ placed := by
      intro g hg
      rw [mem_append, mem_append, h.2 g hg]
    obtain ⟨new, hnew, hres, hres'⟩ := ih s' hs
    refine ⟨placed ++ new, append_subset.mpr ⟨Subset.trans hplc ?_, Subset.trans hnew ?_⟩, ?_, ?_⟩
    · exact fun g hg => by simp at hg ⊢; tauto
    · exact fun g hg => by have := @hsp g; simp at hg ⊢; tauto
    · rw [hres, append_assoc]
    · rw [hres', append_assoc]

theorem selectLoop_append (fr : List η) (walk : List η) (h : ∀ g ∈ walk, g ∉ fr) (s : Selection η) :
    (selectLoop rack nr nh walk { s with replicas := fr ++ s.replicas }).replicas =
      fr ++ (selectLoop rack nr nh walk s).replicas := by
  have hs : ∀ g ∈ walk, g ∈ fr ++ s.replicas ↔ g ∈ s.replicas := by
    intro g hg
    rw [mem_append, or_iff_right (h g hg)]
  obtain ⟨new, -, hf, hsl⟩ := selectLoop_new rack nr nh walk s hs
  rw [hf, hsl, append_assoc]

theorem selectLoop_subset (walk : List η) (s : Selection η) :
    (selectLoop rack nr nh walk s).replicas ⊆ s.replicas ++ s.skippedHosts ++ walk := by
  obtain ⟨new, hnew, hres, -⟩ := selectLoop_new rack nr nh walk s (r := s.replicas) fun g _ => Iff.rfl
  rw [hres, append_assoc]
  exact append_subset.mpr ⟨subset_append_left _ _, subset_append_of_subset_right _ hnew⟩

end

/-! ## Until every rack is met -/

/-- The hosts that are not the first of their rack, token by token. -/
def deferred (rack : η → Option String) (walk : List η) : List η :=
  (walk.zipIdx.filter fun p =>
    p.1 ∉ firsts rack walk ∧ ∃ g ∈ walk, rack g ∉ (walk.take p.2).map rack).map Prod.fst

variable {h : η} {p q walk hosts : List η} {rf : Nat}

theorem deferred_split {rack : η → Option String} (hnew : rack h ∉ p.map rack)
    (hall : ∀ g ∈ p ++ h :: q, rack g ∈ (p ++ [h]).map rack) :
    deferred rack (p ++ h :: q) = p.filter (· ∉ firsts rack p) := by
  have hf : h ∈ firsts rack (p ++ h :: q) := by
    have : p ++ h :: q = (p ++ [h]) ++ q := by simp
    rw [this, mem_firsts_append rack (by simp), firsts_append_one, if_neg (by rwa [mem_firsts_rack])]
    simp
  have hfr : p.zipIdx.filter (fun x => x.1 ∉ firsts rack (p ++ h :: q) ∧
      ∃ g ∈ p ++ h :: q, rack g ∉ ((p ++ h :: q).take x.2).map rack) =
        p.zipIdx.filter ((fun g => decide (g ∉ firsts rack p)) ∘ Prod.fst) := by
    apply filter_congr
    rintro ⟨g, k⟩ hg
    have hmem : g ∈ p := fst_mem_of_mem_zipIdx hg
    have hk : k < p.length := by simpa using snd_lt_of_mem_zipIdx hg
    have hm : ∃ g' ∈ p ++ h :: q, rack g' ∉ ((p ++ h :: q).take k).map rack := by
      refine ⟨h, by simp, fun hh => hnew ?_⟩
      rw [take_append_of_le_length hk.le] at hh
      exact map_subset _ (take_subset _ _) hh
    simp only [mem_firsts_append rack hmem, hm, and_true, Function.comp_apply]
  have hb : ((h :: q).zipIdx p.length).filter (fun x => x.1 ∉ firsts rack (p ++ h :: q) ∧
      ∃ g ∈ p ++ h :: q, rack g ∉ ((p ++ h :: q).take x.2).map rack) = [] := by
    rw [filter_eq_nil_iff]
    rintro ⟨g, k⟩ hg
    rw [zipIdx_cons, mem_cons] at hg
    simp only [decide_eq_true_eq, not_and]
    rcases hg with he | hg
    · cases he
      exact fun hn => absurd hf hn
    rintro - ⟨g', hg', hm⟩
    have hk : p.length + 1 ≤ k := le_snd_of_mem_zipIdx hg
    have hsub : p ++ [h] <+: (p ++ h :: q).take k := by
      rw [prefix_take_iff]
      exact ⟨⟨q, by simp⟩, by simpa using hk⟩
    exact hm (map_subset _ hsub.subset (hall g' hg'))
  rw [deferred, zipIdx_append, Nat.zero_add, filter_append, hfr, hb, append_nil, ← filter_map, zipIdx_map_fst]

def firstPhase (rack : η → Option String) (rf : Nat) (p : List η) : Selection η where
  replicas := firsts rack p
  replicasRemaining := rf - (firsts rack p).length
  replicasThisDc := (firsts rack p).length
  skippedHosts := p.filter (· ∉ firsts rack p)
  racksPlaced := ((firsts rack p).map rack).reverse

def secondPhase (rack : η → Option String) (rf : Nat) (walk : List η) : Selection η where
  replicas := firsts rack walk ++ (deferred rack walk).take (rf - (firsts rack walk).length)
  replicasRemaining := rf - (firsts rack walk).length - (deferred rack walk).length
  replicasThisDc := (firsts rack walk).length
  skippedHosts := []
  racksPlaced := ((firsts rack walk).map rack).reverse

theorem firstPhase_known {rack : η → Option String} {rf : Nat} (hold : rack h ∈ (firsts rack p).map rack) :
    firstPhase rack rf (p ++ [h]) = if h ∈ firsts rack p then firstPhase rack rf p
      else { firstPhase rack rf p with skippedHosts := (firstPhase rack rf p).skippedHosts ++ [h] } := by
  simp only [firstPhase, firsts_append_one, if_pos hold]
  split <;> simp_all

omit [DecidableEq η] in
theorem insert_newRack {rack : η → Option String} (hnew : rack h ∉ (firsts rack p).map rack) :
    ((firsts rack p).map rack).reverse.insert (rack h) = rack h :: ((firsts rack p).map rack).reverse :=
  insert_of_not_mem (by rwa [mem_reverse])

theorem firstPhase_place {rack : η → Option String} {nr : Nat} (hnew : rack h ∉ (firsts rack p).map rack)
    (hl : (firsts rack p).length + 1 ≠ nr) :
    (firstPhase rack rf p).place (rack h) nr h = firstPhase rack rf (p ++ [h]) := by
  have hp : h ∉ p := fun hh => hnew ((mem_firsts_rack rack p _).mpr (mem_map_of_mem hh))
  have hs : (p ++ [h]).filter (· ∉ firsts rack p ++ [h]) = p.filter (· ∉ firsts rack p) := by
    rw [filter_append, filter_cons_of_neg (by simp), filter_nil, append_nil]
    apply filter_congr
    intro g hg
    have : g ≠ h := fun e => hp (e ▸ hg)
    simp [this]
  simp only [Selection.place, firstPhase, firsts_append_one, if_neg hnew, hs, insert_newRack hnew]
  rw [if_neg (by simpa using hl)]
  simp [Nat.sub_sub]

theorem firstPhase_last {rack : η → Option String} {rf : Nat} {p q : List η} {h : η}
    (hnew : rack h ∉ (firsts rack p).map rack) (hl : (firsts rack (p ++ h :: q)).length = (firsts rack p).length + 1) :
    (∀ g ∈ p ++ [h], g ∈ firsts rack (p ++ h :: q) ∨ g ∈ deferred rack (p ++ h :: q)) ∧
      (firstPhase rack rf p).place (rack h) (firsts rack (p ++ h :: q)).length h =
        secondPhase rack rf (p ++ h :: q) := by
  have happ : p ++ h :: q = (p ++ [h]) ++ q := by simp
  have hone : firsts rack (p ++ [h]) = firsts rack p ++ [h] := by rw [firsts_append_one, if_neg hnew]
  have hall : firsts rack (p ++ h :: q) = firsts rack p ++ [h] := by
    rw [← hone]
    refine (IsPrefix.eq_of_length (happ ▸ prefix_firsts_append rack _ q) ?_).symm
    rw [hl, hone]
    simp
  have hr : ∀ g ∈ p ++ h :: q, rack g ∈ (p ++ [h]).map rack := by
    intro g hg
    rw [← mem_firsts_rack, hone, ← hall, mem_firsts_rack]
    exact mem_map_of_mem hg
  have hd := deferred_split (by rwa [← mem_firsts_rack]) hr
  refine ⟨?_, ?_⟩
  · intro g hg
    rw [hall, hd, mem_filter]
    simp only [mem_append, decide_eq_true_eq] at hg ⊢
    tauto
  simp only [Selection.place, firstPhase, secondPhase, insert_newRack hnew]
  rw [addSkipped_eq, hd, hall]
  simp [Nat.sub_sub]

theorem select_firstPhase {rack : η → Option String} (rf : Nat) {nh : Nat}
    (hhs : (firsts rack walk).length ≤ nh) (q : List η) :
    ∀ p, walk = p ++ q → (firsts rack p).length < (firsts rack walk).length → (firsts rack p).length ≤ rf →
      (rf < (firsts rack walk).length ∧
        (selectLoop rack (firsts rack walk).length nh q (firstPhase rack rf p)).replicas = (firsts rack walk).take rf) ∨
      (∃ p' q', walk = p' ++ q' ∧ (∀ g ∈ p', g ∈ firsts rack walk ∨ g ∈ deferred rack walk) ∧
        (firsts rack walk).length ≤ rf ∧ selectLoop rack (firsts rack walk).length nh q (firstPhase rack rf p) =
          selectLoop rack (firsts rack walk).length nh q' (secondPhase rack rf walk)) := by
  induction q with
  | nil =>
    intro p hw hlt _
    rw [append_nil] at hw
    rw [hw] at hlt
    omega
  | cons h q ih =>
    intro p hw hlt hrf
    rw [selectLoop]
    have hn : walk = (p ++ [h]) ++ q := by simp [hw]
    rcases Nat.lt_or_ge (firsts rack p).length rf with hls | hf
    · rw [if_neg (by simp only [firstPhase]; omega)]
      by_cases hold : rack h ∈ (firsts rack p).map rack
      · have hs : firsts rack (p ++ [h]) = firsts rack p := by rw [firsts_append_one, if_pos hold]
        have ih' := ih _ hn (by rwa [hs]) (by rwa [hs])
        rw [firstPhase_known hold] at ih'
        by_cases hin : h ∈ firsts rack p
        · rw [if_pos (by exact hin)]
          rwa [if_pos hin] at ih'
        · rw [if_neg (by exact hin), if_pos (by simp only [firstPhase]; simp_all)]
          rwa [if_neg hin] at ih'
      have hin : h ∉ firsts rack p := fun hh => hold (mem_map_of_mem hh)
      rw [if_neg (by exact hin), if_neg (by simp only [firstPhase]; simp_all)]
      by_cases hl : (firsts rack walk).length = (firsts rack p).length + 1
      · right
        subst hw
        obtain ⟨ht, hpl⟩ := @firstPhase_last _ _ _ rf _ _ _ hold hl
        exact ⟨p ++ [h], q, by simp, ht, by omega, by rw [hpl]⟩
      rw [firstPhase_place hold (Ne.symm hl)]
      have hone : firsts rack (p ++ [h]) = firsts rack p ++ [h] := by rw [firsts_append_one, if_neg hold]
      refine ih _ hn ?_ ?_ <;> rw [hone, length_append, length_singleton] <;> omega
    left
    rw [if_pos (by simp only [firstPhase]; omega)]
    have hp := prefix_iff_eq_take.mp (prefix_firsts_append rack p (h :: q))
    rw [← hw] at hp
    exact ⟨by omega, by simp only [firstPhase]; rw [hp]; congr 1; omega⟩

/-! ## After every rack is met -/

theorem select_secondPhase (rack : η → Option String) (nr : Nat) (q : List η) :
    ∀ (s : Selection η) (placed : List η), q ⊆ hosts → s.skippedHosts = [] →
      nr ≤ s.racksPlaced.length → placed.Nodup → placed.length = s.replicasThisDc →
      placed ⊆ s.replicas → placed ⊆ hosts →
      ∃ extra, (selectLoop rack nr hosts.length q s).replicas = s.replicas ++ extra ∧ extra.Nodup ∧
        (∀ g ∈ extra, g ∉ s.replicas) ∧ extra ⊆ q ∧ extra.length ≤ s.replicasRemaining ∧
        (extra.length = s.replicasRemaining ∨ q ⊆ s.replicas ++ extra) := by
  induction q with
  | nil => intro s placed _ _ _ _ _ _ _; exact ⟨[], by simp [selectLoop]⟩
  | cons h q ih =>
    intro s placed hq hs hr hnd hlen hsub hhs
    rw [cons_subset] at hq
    rw [selectLoop]
    split
    · rename_i hst
      refine ⟨[], by simp, by simp, by simp, by simp, by simp, ?_⟩
      rcases hst with hz | hall
      · exact Or.inl (by simp [hz])
      right
      -- `placed` is as long as `hosts`, so it has every host.
      have hp : hosts ⊆ placed := by
        have := (subperm_of_subset hnd hhs).perm_of_length_le (by omega)
        exact this.symm.subset
      rw [append_nil, cons_subset]
      exact ⟨hsub (hp hq.1), fun g hg => hsub (hp (hq.2 hg))⟩
    split
    · rename_i hin
      obtain ⟨extra, hres, hn, hf, hsb, hle, hend⟩ := ih s placed hq.2 hs hr hnd hlen hsub hhs
      refine ⟨extra, hres, hn, hf, subset_cons_of_subset _ hsb, hle, ?_⟩
      refine hend.imp_right fun hh => cons_subset.mpr ⟨mem_append_left _ hin, hh⟩
    rename_i hout
    rw [if_neg (by omega)]
    let s' : Selection η := { s with
      replicas := s.replicas ++ [h]
      replicasThisDc := s.replicasThisDc + 1
      replicasRemaining := s.replicasRemaining - 1
      racksPlaced := s.racksPlaced.insert (rack h) }
    have hpl : s.place (rack h) nr h = s' := by
      simp only [Selection.place, hs, s']
      split <;> rfl
    rw [hpl]
    have hnew : h ∉ placed := fun hh => hout (hsub hh)
    obtain ⟨extra, hres, hn, hf, hsb, hle, hend⟩ := ih s' _ hq.2 hs
      (hr.trans (length_le_length_insert)) (nodup_cons.mpr ⟨hnew, hnd⟩) (by simp [hlen, s'])
      (cons_subset.mpr ⟨by simp [s'], Subset.trans hsub (subset_append_left _ _)⟩) (cons_subset.mpr ⟨hq.1, hhs⟩)
    simp only [s'] at hres hf hle hend
    refine ⟨h :: extra, by rw [hres]; simp, ?_, ?_, ?_, ?_, ?_⟩
    · exact nodup_cons.mpr ⟨fun hh => hf h hh (by simp), hn⟩
    · intro g hg
      rcases mem_cons.mp hg with rfl | hg
      · exact hout
      · exact fun hh => hf g hg (mem_append_left _ hh)
    · exact cons_subset_cons h hsb
    · rw [length_cons]; omega
    rcases hend with he | hh
    · left; rw [length_cons]; omega
    right
    rw [append_assoc] at hh
    exact cons_subset.mpr ⟨by simp, hh⟩

/-! ## The result -/

theorem deferred_not_first {rack : η → Option String} {g : η} (h : g ∈ deferred rack walk) :
    g ∈ walk ∧ g ∉ firsts rack walk := by
  simp only [deferred, mem_map, mem_filter, decide_eq_true_eq] at h
  obtain ⟨⟨a, k⟩, ⟨hmem, hnot, -⟩, rfl⟩ := h
  exact ⟨fst_mem_of_mem_zipIdx hmem, hnot⟩

theorem secondPhase_result {rack : η → Option String} (hnd : hosts.Nodup) (hmem : ∀ g, g ∈ hosts ↔ g ∈ walk)
    (hw : walk = p ++ q) (ht : ∀ g ∈ p, g ∈ firsts rack walk ∨ g ∈ deferred rack walk)
    (hm : (firsts rack walk).length ≤ rf) : let r := (selectLoop rack (firsts rack walk).length hosts.length q (secondPhase rack rf walk)).replicas
    r ⊆ walk ∧ (r.Nodup ↔ ((deferred rack walk).take (rf - (firsts rack walk).length)).Nodup) ∧
      (r.Nodup → r.length = min rf hosts.length) := by
  intro r
  have hfs : firsts rack walk ⊆ hosts := fun g hg => (hmem g).mpr (firsts_subset rack walk hg)
  have hq : q ⊆ hosts := fun g hg => (hmem g).mpr (by rw [hw]; exact mem_append_right _ hg)
  obtain ⟨extra, hres, hn, hf, hsub, hle, hend⟩ := select_secondPhase rack (firsts rack walk).length q
    (secondPhase rack rf walk) _ hq rfl (by simp [secondPhase])
    (firsts_nodup rack walk) rfl (subset_append_left _ _) hfs
  replace hres : r = _ := hres
  have hrw : r ⊆ walk := by
    rw [hres]
    refine append_subset.mpr ⟨append_subset.mpr ⟨firsts_subset rack walk, ?_⟩, ?_⟩
    · exact fun g hg => (deferred_not_first (take_subset _ _ hg)).1
    · exact fun g hg => by rw [hw]; exact mem_append_right _ (hsub hg)
  refine ⟨hrw, ?_, ?_⟩
  · rw [hres]
    simp only [secondPhase] at ⊢
    rw [nodup_append, nodup_append]
    constructor
    · exact fun h => h.1.2.1
    intro h
    refine ⟨⟨firsts_nodup rack walk, h, ?_⟩, hn, ?_⟩
    · rintro a ha b hb rfl
      exact (deferred_not_first (take_subset _ _ hb)).2 ha
    rintro a ha b hb rfl
    exact hf a hb ha
  intro hrn
  have hlen : r.length = (firsts rack walk).length +
      min (rf - (firsts rack walk).length) (deferred rack walk).length + extra.length := by
    rw [hres]
    simp [secondPhase, Nat.add_assoc]
  have hr : r.length ≤ hosts.length :=
    (hrn.subperm fun g hg => (hmem g).mpr (hrw hg)).length_le
  simp only [secondPhase] at hle
  rcases hend with hfl | hall
  · simp only [secondPhase] at hfl
    omega
  -- Not enough hosts: all that were put aside and all that came later are replicas.
  by_cases hfl : extra.length = rf - (firsts rack walk).length - (deferred rack walk).length
  · omega
  have hdef : (deferred rack walk).take (rf - (firsts rack walk).length) = deferred rack walk :=
    take_of_length_le (by omega)
  have hwl : hosts ⊆ r := by
    intro g hg
    rw [hmem, hw, mem_append] at hg
    rw [hres]
    rcases hg with hg | hg
    · refine mem_append_left _ ?_
      simp only [secondPhase, hdef, mem_append]
      exact ht g hg
    · exact hall hg
  have := (hnd.subperm hwl).length_le
  omega

/-- **The selection** takes no host twice exactly when those put aside are distinct. -/
theorem select_spec (rack : η → Option String) (rf : Nat) (hnd : hosts.Nodup) (hmem : ∀ g, g ∈ hosts ↔ g ∈ walk) :
    let r := (selectLoop rack (firsts rack walk).length hosts.length walk ⟨[], rf, 0, [], []⟩).replicas
    r ⊆ walk ∧
      (r.Nodup ↔ ((deferred rack walk).take (rf - (firsts rack walk).length)).Nodup) ∧
      (r.Nodup → r.length = min rf hosts.length) := by
  intro r
  have hf : firsts rack walk ⊆ hosts := fun g hg => (hmem g).mpr (firsts_subset rack walk hg)
  have hrc : (firsts rack walk).length ≤ hosts.length :=
    ((firsts_nodup rack walk).subperm hf).length_le
  rcases Nat.eq_zero_or_pos (firsts rack walk).length with hz | hpos
  · -- No rack, no token.
    obtain rfl : walk = [] := by
      cases walk with
      | nil => rfl
      | cons g rest =>
        have := (mem_firsts_rack rack (g :: rest) (rack g)).mpr (by simp)
        simp [length_eq_zero_iff.mp hz] at this
    obtain rfl : hosts = [] := eq_nil_iff_forall_not_mem.mpr fun g hg => by simpa using (hmem g).mp hg
    simp [r, selectLoop, deferred]
  rcases select_firstPhase rf hrc walk [] rfl hpos (Nat.zero_le _) with
    ⟨hfew, hres⟩ | ⟨p, q, hw, ht, hm, hres⟩
  · replace hres : r = (firsts rack walk).take rf := hres
    rw [hres]
    have hn := (firsts_nodup rack walk).sublist (take_sublist rf _)
    refine ⟨Subset.trans (take_subset _ _) (firsts_subset rack walk), ?_, fun _ => ?_⟩
    · rw [show rf - (firsts rack walk).length = 0 by omega]
      simp [hn]
    · rw [length_take]
      omega
  have hr : r = (selectLoop rack (firsts rack walk).length hosts.length q (secondPhase rack rf walk)).replicas := by
    rw [← hres]
    rfl
  rw [hr]
  exact secondPhase_result hnd hmem hw ht hm

end CqlDriver.Metadata
