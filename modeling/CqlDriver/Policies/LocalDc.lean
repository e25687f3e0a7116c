import CqlDriver.Policies.DCAware

/-! # `DCAwareRoundRobinPolicy` without `local_dc` -/

namespace CqlDriver.Policies

open Lib List DCAwareRoundRobinPolicy

def HostEvent.host {η : Type} : HostEvent η → η
  | .onUp host | .onAdd host | .onDown host | .onRemove host | .updateLocation host _ => host

namespace World

variable {η : Type} {w : World η}

def strays (w : World η) : List η := (w.policy.bucket "").take w.policy.usedHostsPerRemoteDc

/-- No event of a host filed under the empty name. -/
def StepOk (w : World η) (event : HostEvent η) : Prop := w.policy.localDc ≠ "" → event.host ∉ w.strays

instance [DecidableEq η] (w : World η) (event : HostEvent η) : Decidable (StepOk w event) :=
  inferInstanceAs (Decidable (_ → _))

structure Tidy (w : World η) : Prop where
  nodup : ∀ dc, (w.policy.bucket dc).Nodup
  filed : ∀ dc, dc ≠ "" ∨ w.policy.localDc = "" → ∀ h ∈ w.policy.bucket dc, w.live h = true ∧ w.dcOf h = dc
  strays : w.policy.localDc ≠ "" → ∀ h ∈ w.strays, w.live h = true ∧ ∀ dc, dc ≠ "" → h ∉ w.policy.bucket dc

theorem Filed.tidy (h : Filed w) (hl : w.policy.localDc = "") : Tidy w :=
  ⟨h.nodup, fun dc _ g hg => (h.mem_iff dc g).mp hg, fun hne => absurd hl hne⟩

theorem dcOf_ne_empty (hl : w.policy.localDc ≠ "") {host : η} : w.dcOf host ≠ "" := by
  unfold dcOf dc
  split
  · split
    · exact hl
    · assumption
  · exact hl

theorem tidy_plan (h : Tidy w) : w.policy.makeQueryPlan.Nodup ∧ ∀ g ∈ w.policy.makeQueryPlan, w.live g := by
  -- What a plan takes is live, and is in no other bucket.
  have ht : ∀ dc, dc ≠ w.policy.localDc → ∀ g ∈ (w.policy.bucket dc).take w.policy.usedHostsPerRemoteDc,
      w.live g ∧ ∀ dc', dc' ≠ dc → (dc' ≠ "" ∨ w.policy.localDc = "") → g ∉ w.policy.bucket dc' := by
    intro dc hdc g hg
    by_cases hf : dc ≠ "" ∨ w.policy.localDc = ""
    · obtain ⟨hl, rfl⟩ := h.filed dc hf g (mem_of_mem_take hg)
      exact ⟨hl, fun dc' hne hdc' hg' => hne (h.filed dc' hdc' g hg').2.symm⟩
    simp only [not_or, not_not] at hf
    obtain ⟨rfl, hlc⟩ := hf
    obtain ⟨hl, hnot⟩ := h.strays hlc g hg
    exact ⟨hl, fun dc' hne _ => hnot dc' hne⟩
  have hlc : w.policy.localDc ≠ "" ∨ w.policy.localDc = "" := ne_or_eq _ _
  constructor
  · apply w.policy.makeQueryPlan_nodup h.nodup
    · intro dc hdc g hg
      exact (ht dc hdc g hg).2 _ hdc.symm hlc
    intro dc dc' hdc hdc' hne g hg hg'
    by_cases hf : dc' ≠ "" ∨ w.policy.localDc = ""
    · exact (ht dc hdc g hg).2 dc' hne.symm hf (mem_of_mem_take hg')
    simp only [not_or, not_not] at hf
    obtain ⟨rfl, -⟩ := hf
    exact (ht "" hdc' g hg').2 dc hne (.inl hne) (mem_of_mem_take hg)
  intro g hg
  rcases mem_append.mp hg with hg | hg
  · exact (h.filed _ hlc g (w.policy.mem_localPlan.mp hg)).1
  obtain ⟨dc, hdc, hmem⟩ := w.policy.mem_remotePlan.mp hg
  exact (ht dc hdc g hmem).1

variable [DecidableEq η]

variable {host : η}

theorem tidy_filing (h : Tidy w) (hok : w.policy.localDc ≠ "" → host ∉ w.strays) : Tidy (w.filing host) := by
  have hdc : ∀ g, (w.filing host).dcOf g = w.dcOf g := fun g =>
    dc_congr (w.policy.localDc_file ..) _
  have hb : ∀ dc, (w.filing host).policy.bucket dc =
      if dc = w.dcOf host ∧ host ∉ w.policy.bucket dc then w.policy.bucket dc ++ [host] else w.policy.bucket dc :=
    fun dc => w.policy.bucket_file _ host dc
  have hlc : (w.filing host).policy.localDc = w.policy.localDc := w.policy.localDc_file ..
  have hl : ∀ g, (w.filing host).live g = if g = host then true else w.live g := fun g =>
    Function.update_apply ..
  constructor
  · intro dc
    rw [hb]
    split
    · rename_i hnew
      exact nodup_append_host (h.nodup dc) hnew.2
    · exact h.nodup dc
  · intro dc hkey g hg
    rw [hlc] at hkey
    rw [hl, hdc]
    rw [hb] at hg
    split at hg
    · rename_i hnew
      rcases mem_append.mp hg with hg | hg
      · obtain ⟨hold, heq⟩ := h.filed dc hkey g hg
        simp [hold, heq]
      obtain rfl := mem_singleton.mp hg
      simp [hnew.1]
    obtain ⟨hold, heq⟩ := h.filed dc hkey g hg
    simp [hold, heq]
  intro hset g hg
  rw [hlc] at hset
  have hs : (w.filing host).strays = w.strays := by
    have he : "" ≠ w.dcOf host := (dcOf_ne_empty hset).symm
    simp only [strays, hb "", he, false_and, if_false]
    rw [show (w.filing host).policy.usedHostsPerRemoteDc = w.policy.usedHostsPerRemoteDc from w.policy.used_file ..]
  rw [hs] at hg
  obtain ⟨hold, hnot⟩ := h.strays hset g hg
  have hne : g ≠ host := fun heq => hok hset (heq ▸ hg)
  refine ⟨by simp [hl, hold], fun dc hdc' => ?_⟩
  rw [hb]
  split
  · simp [hnot dc hdc', hne]
  · exact hnot dc hdc'

theorem tidy_down (h : Tidy w) (hok : w.policy.localDc ≠ "" → host ∉ w.strays) : Tidy (w.down host) := by
  have hdc : ∀ g, (w.down host).dcOf g = w.dcOf g := fun g =>
    dc_congr (w.policy.localDc_onDown ..) _
  have hb : ∀ dc, (w.down host).policy.bucket dc =
      if dc = w.dcOf host then (w.policy.bucket dc).filter (· ≠ host) else w.policy.bucket dc :=
    fun dc => w.policy.bucket_onDown _ host dc
  have hlc : (w.down host).policy.localDc = w.policy.localDc := w.policy.localDc_onDown ..
  have hl : ∀ g, (w.down host).live g = if g = host then false else w.live g := fun g =>
    Function.update_apply ..
  have hsub : ∀ dc g, g ∈ (w.down host).policy.bucket dc → g ∈ w.policy.bucket dc := by
    intro dc g hg
    rw [hb] at hg
    split at hg
    · exact (mem_filter.mp hg).1
    · exact hg
  constructor
  · intro dc
    rw [hb]
    split
    · exact (h.nodup dc).filter _
    · exact h.nodup dc
  · intro dc hkey g hg
    rw [hlc] at hkey
    obtain ⟨hold, heq⟩ := h.filed dc hkey g (hsub dc g hg)
    rw [hl, hdc, if_neg]
    · exact ⟨hold, heq⟩
    rintro rfl
    rw [hb, if_pos heq.symm] at hg
    simp at hg
  intro hset g hg
  rw [hlc] at hset
  have hs : (w.down host).strays = w.strays := by
    have he : "" ≠ w.dcOf host := (dcOf_ne_empty hset).symm
    simp only [strays, hb "", he, if_false]
    rw [show (w.down host).policy.usedHostsPerRemoteDc = w.policy.usedHostsPerRemoteDc from w.policy.used_onDown ..]
  rw [hs] at hg
  obtain ⟨hold, hnot⟩ := h.strays hset g hg
  have hne : g ≠ host := fun heq => hok hset (heq ▸ hg)
  exact ⟨by simp [hl, hold, hne], fun dc hdc' hmem => hnot dc hdc' (hsub dc g hmem)⟩

theorem tidy_move (h : Tidy w) (hd : w.live host = false) (d : Option String) : Tidy (w.move host d) := by
  refine ⟨h.nodup, fun dc hkey g hg => ?_, h.strays⟩
  obtain ⟨hold, heq⟩ := h.filed dc hkey g hg
  have hne : g ≠ host := by
    rintro rfl
    rw [hd] at hold
    cases hold
  refine ⟨hold, ?_⟩
  rw [← heq]
  simp [dcOf, move, hne]

def detecting (w : World η) (host : η) : World η := { w with policy := w.policy.detect (w.datacenter host) host }

theorem detecting_cases (w : World η) {host : η} :
    w.detecting host = w ∨ ∃ name, name ≠ "" ∧ w.policy.localDc = "" ∧ w.datacenter host = some name ∧
      w.detecting host = { w with policy := { w.policy with localDc := name, contactPoints := [] } } := by
  unfold detecting detect
  split
  · rename_i name hn
    split
    · rename_i hset
      exact .inr ⟨name, hset.2.1, hset.1, hn, rfl⟩
    · exact .inl rfl
  · exact .inl rfl

theorem tidy_detecting (h : Tidy w) (hok : w.policy.localDc ≠ "" → host ∉ w.strays) :
    Tidy (w.detecting host) ∧ ((w.detecting host).policy.localDc ≠ "" → host ∉ (w.detecting host).strays) := by
  rcases detecting_cases w with heq | ⟨name, hn, hl, hh, heq⟩
  · rw [heq]
    exact ⟨h, hok⟩
  rw [heq]
  have hk : ∀ g, w.dcOf g ≠ "" → w.datacenter g = some (w.dcOf g) := by
    intro g hg
    unfold dcOf dc at hg ⊢
    rw [hl] at hg
    split at hg
    · split at hg
      · exact absurd rfl hg
      rename_i hs hne
      simp [hs, hne]
    · exact absurd rfl hg
  constructor
  · refine ⟨h.nodup, fun dc hkey g hg => ?_, fun _ g hg => ?_⟩
    · have hdc : dc ≠ "" := hkey.resolve_right hn
      obtain ⟨hold, rfl⟩ := h.filed dc (.inl hdc) g hg
      refine ⟨hold, ?_⟩
      rw [dcOf, hk g hdc]
      exact if_neg hdc
    obtain ⟨hold, he⟩ := h.filed "" (.inr hl) g (mem_of_mem_take hg)
    refine ⟨hold, fun dc hdc hg' => ?_⟩
    exact hdc ((h.filed dc (.inl hdc) g hg').2.symm.trans he)
  intro _ hg
  have he := (h.filed "" (.inr hl) host (mem_of_mem_take hg)).2
  simp only [dcOf, hh, dc, if_neg hn] at he
  exact hn he

theorem tidy_up (h : Tidy w) (hok : w.policy.localDc ≠ "" → host ∉ w.strays) : Tidy (w.up host) := by
  obtain ⟨ht, hok'⟩ := tidy_detecting h hok
  exact tidy_filing ht hok'

theorem tidy_step (w : World η) (ev : HostEvent η) (h : Tidy w) (hok : StepOk w ev) : Tidy (w.step ev) := by
  cases ev with
  | onUp host | onAdd host => exact tidy_up h hok
  | onDown host | onRemove host => exact tidy_down h hok
  | updateLocation host d =>
    have hd : Tidy (w.down host) := tidy_down h hok
    have hm : Tidy ((w.down host).move host d) := tidy_move hd (by simp [down]) d
    refine tidy_up hm fun hset hmem => ?_
    have hl : w.policy.localDc ≠ "" := by simpa [move, down] using hset
    -- `on_down` does not touch what is filed under the empty name.
    have hs : ((w.down host).move host d).strays = w.strays := by
      have he : "" ≠ w.policy.dc (w.datacenter host) := (dcOf_ne_empty hl).symm
      simp [strays, move, down, bucket_onDown, he]
    exact hok hl (hs ▸ hmem)

end World

/-- **Plans with a detected datacenter** repeat no host, without such events. -/
theorem dc_aware_plan_detected {η : Type} [DecidableEq η] (used : Nat) (order : SetOrder η)
    (datacenter : η → Option String) (contactPoints hosts : List η) (position : Nat)
    (hunknown : ∀ h ∈ hosts, datacenter h = none) (events : List (HostEvent η))
    (hok : RunOk World.step World.StepOk (World.start "" used order datacenter contactPoints hosts position) events) :
    let w := run World.step (World.start "" used order datacenter contactPoints hosts position) events
    w.policy.makeQueryPlan.Nodup ∧ ∀ h ∈ w.policy.makeQueryPlan, w.live h = true := by
  have hs : (World.start "" used order datacenter contactPoints hosts position).Tidy :=
    (World.filed_start "" used order contactPoints position hunknown).tidy rfl
  exact World.tidy_plan (run_invariant World.tidy_step hs hok)

theorem dc_aware_plan_detected_two :
    let w := run World.step (World.start "" 1 firstSeen (fun _ => none) [1, 2] [1, 2] 0)
      [.onDown 2, .updateLocation 1 (some "dc1"), .updateLocation 2 (some "dc2")]
    w.policy.localDc = "dc1" ∧ w.policy.makeQueryPlan.Nodup ∧ ∀ h ∈ w.policy.makeQueryPlan, w.live h = true :=
  ⟨by decide +kernel, dc_aware_plan_detected 1 firstSeen (fun _ => none) [1, 2] [1, 2] 0 (fun _ _ => rfl)
    [.onDown 2, .updateLocation 1 (some "dc1"), .updateLocation 2 (some "dc2")] (by decide +kernel)⟩

/-- The second contact point is filed twice and stays. -/
theorem detected_plan_repeats :
    let located : List (HostEvent Nat) := [.updateLocation 1 (some "dc1"), .updateLocation 2 (some "dc1")]
    let start := World.start "" 1 firstSeen (fun _ => none) [1, 2] [1, 2] 0
    ¬ (run World.step start located).policy.makeQueryPlan.Nodup ∧
      2 ∈ (run World.step start (located ++ [.onDown 2])).policy.makeQueryPlan ∧
      (run World.step start (located ++ [.onDown 2])).live 2 = false := by
  decide +kernel

end CqlDriver.Policies
