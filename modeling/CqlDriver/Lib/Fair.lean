import Mathlib.Order.Nat

/-!
# What happens in an endless run

A run is looked at by its step numbers. `P k` is what holds before step `k`, `Q k` that it is the
awaited one, and `helps k` that it belongs to the party that makes progress.
-/

namespace CqlDriver.Lib

variable {P Q helps : Nat → Prop}

theorem holds_of_never (hkp : ∀ k, P k → Q k ∨ P (k + 1)) {n : Nat} (hn : P n)
    (hnv : ∀ k, n ≤ k → ¬ Q k) : ∀ k, n ≤ k → P k := by
  intro k hk
  induction k, hk using Nat.le_induction with
  | base => exact hn
  | succ k hk ih => exact (hkp k ih).resolve_left (hnv k hk)

/-- **The progress rule.** Helping steps that do not cease lower the measure. -/
theorem eventually_of_measure (measure : Nat → Nat) (hkp : ∀ k, P k → Q k ∨ P (k + 1))
    {N : Nat} (hle : ∀ k, N ≤ k → P k → ¬ Q k → measure (k + 1) ≤ measure k)
    (hlt : ∀ k, N ≤ k → P k → ¬ Q k → helps k → measure (k + 1) < measure k)
    (hf : ∀ n, ∃ k, n ≤ k ∧ helps k) {n : Nat} (hn : P n) : ∃ k, n ≤ k ∧ Q k := by
  by_contra hcon
  have hnv : ∀ k, n ≤ k → ¬ Q k := fun k hk hq => hcon ⟨k, hk, hq⟩
  have hhl := holds_of_never hkp hn hnv
  -- the measure cannot fall for ever: induction on its value at a point after `N`
  have hfl : ∀ v k, n ≤ k → N ≤ k → measure k = v → False := by
    intro v
    induction v using Nat.strongRecOn with
    | ind v ih =>
      intro k hk hN hv
      obtain ⟨j, hkj, hh⟩ := hf k
      have hm : ∀ i, k ≤ i → measure i ≤ v := by
        intro i hi
        induction i, hi using Nat.le_induction with
        | base => exact hv.le
        | succ i hi ihi =>
          exact (hle i (hN.trans hi) (hhl i (hk.trans hi)) (hnv i (hk.trans hi))).trans ihi
      have hd := hlt j (hN.trans hkj) (hhl j (hk.trans hkj)) (hnv j (hk.trans hkj)) hh
      exact ih (measure (j + 1)) (hd.trans_le (hm j hkj)) (j + 1)
        (hk.trans (hkj.trans (Nat.le_succ j))) (hN.trans (hkj.trans (Nat.le_succ j))) rfl
  exact hfl _ (max n N) (Nat.le_max_left n N) (Nat.le_max_right n N) rfl

/-- **Runs that come to rest.** Each step moves or lowers the measure. -/
theorem eventually_of_moves {σ : Type} {s : Nat → σ} {final : σ → Prop} (measure : σ → Nat)
    (hst : ∀ k, s (k + 1) = s k ∨ measure (s (k + 1)) < measure (s k))
    (hm : ∀ n, ¬ final (s n) → ∃ k, n ≤ k ∧ s k ≠ s n) (n : Nat) : ∃ k, n ≤ k ∧ final (s k) := by
  induction hv : measure (s n) using Nat.strongRecOn generalizing n with
  | ind v ih =>
    by_cases hf : final (s n)
    · exact ⟨n, le_refl n, hf⟩
    obtain ⟨k, hk, hne⟩ := hm n hf
    have hl : ∀ j, n ≤ j → s j = s n ∨ measure (s j) < measure (s n) := by
      intro j hj
      induction j, hj using Nat.le_induction with
      | base => exact .inl rfl
      | succ j hj ihj =>
        rcases hst j with hs | hlt
        · rw [hs]
          exact ihj
        rcases ihj with heq | hlt'
        · exact .inr (heq ▸ hlt)
        · exact .inr (hlt.trans hlt')
    have hlt : measure (s k) < v := hv ▸ (hl k hk).resolve_left hne
    obtain ⟨j, hj, hf⟩ := ih _ hlt k rfl
    exact ⟨j, hk.trans hj, hf⟩

end CqlDriver.Lib
