import Mathlib.Data.List.Basic

/-! # Loops -/

namespace CqlDriver.Lib

variable {σ ρ : Type} {body : σ → ρ ⊕ σ} {s s' : σ} {r : ρ}

def loop (body : σ → ρ ⊕ σ) : Nat → σ → Option (ρ × σ)
  | 0, _ => none
  | n + 1, s =>
    match body s with
    | .inl r => some (r, s)
    | .inr s' => loop body n s'

theorem loop_end (h : body s = .inl r) (n : Nat) : loop body (n + 1) s = some (r, s) := by
  rw [loop, h]

theorem loop_next (h : body s = .inr s') (n : Nat) : loop body (n + 1) s = loop body n s' := by
  rw [loop, h]

variable {n : Nat} {out : ρ × σ} {inv : σ → Prop}

theorem loop_eq_some (h : loop body n s = some out) : ∃ k, n = k + 1 ∧ ((∃ r, body s = .inl r ∧ out = (r, s)) ∨
      ∃ s', body s = .inr s' ∧ loop body k s' = some out) := by
  cases n with
  | zero => cases h
  | succ k =>
    refine ⟨k, rfl, ?_⟩
    cases hb : body s with
    | inl r =>
      rw [loop_end hb] at h
      exact .inl ⟨r, rfl, (Option.some.inj h).symm⟩
    | inr s' =>
      rw [loop_next hb] at h
      exact .inr ⟨s', rfl, h⟩

theorem loop_mono (h : loop body n s = some out) (k : Nat) : loop body (n + k) s = some out := by
  induction n generalizing s with
  | zero => cases h
  | succ n ih =>
    rw [Nat.succ_add]
    cases hb : body s with
    | inl r =>
      rw [loop_end hb] at h ⊢
      exact h
    | inr s' =>
      rw [loop_next hb] at h ⊢
      exact ih h

/-- **The loop rule.** What the body keeps holds at the end. -/
theorem loop_invariant (hbd : ∀ s s', inv s → body s = .inr s' → inv s') :
    ∀ {n : Nat} {s : σ}, inv s → loop body n s = some (r, s') → inv s' ∧ body s' = .inl r := by
  intro n
  induction n with
  | zero => intro s _ h; cases h
  | succ n ih =>
    intro s hs h
    obtain ⟨k, hk, ⟨r', hb, hout⟩ | ⟨s₁, hb, hr⟩⟩ := loop_eq_some h
    · cases hout
      exact ⟨hs, hb⟩
    obtain rfl : n = k := Nat.succ.inj hk
    exact ih (hbd s s₁ hs hb) hr

/-- **The termination rule.** A loop ends when each turn makes its state smaller. -/
theorem loop_ends {size : σ → Nat} (hbd : ∀ s s', inv s → body s = .inr s' → inv s' ∧ size s' < size s) (hs : inv s) :
    ∃ n r s', loop body n s = some (r, s') := by
  induction hsz : size s using Nat.strongRecOn generalizing s with
  | ind k ih =>
    cases hb : body s with
    | inl r => exact ⟨1, r, s, loop_end hb 0⟩
    | inr s₁ =>
      obtain ⟨hs₁, hlt⟩ := hbd s s₁ hs hb
      obtain ⟨n, r, s', hr⟩ := ih (size s₁) (hsz ▸ hlt) hs₁ rfl
      exact ⟨n + 1, r, s', by rw [loop_next hb, hr]⟩

theorem loop_eq_none (hbd : ∀ s, inv s → ∃ s', body s = .inr s' ∧ inv s') :
    ∀ (n : Nat) {s : σ}, inv s → loop body n s = none := by
  intro n
  induction n with
  | zero => intro s _; rfl
  | succ n ih =>
    intro s hs
    obtain ⟨s', hb, hs'⟩ := hbd s hs
    rw [loop_next hb, ih hs']

/-! ## Items read at a moving position -/

section Collecting

variable {α π : Type}

/-- The items that `step` reads one after another. -/
def collect (step : π → Option (α × π)) : Nat → π → Option (List α)
  | 0, _ => some []
  | n + 1, pos => do
    let (a, pos) ← step pos
    return a :: (← collect step n pos)

inductive Walk (step : π → Option (α × π)) : π → List α → π → Prop
  | nil (pos : π) : Walk step pos [] pos
  | cons {pos next last : π} {a : α} {items : List α} :
    step pos = some (a, next) → Walk step next items last → Walk step pos (a :: items) last

variable {step : π → Option (α × π)}

theorem Walk.collect_add {pos last : π} {xs : List α} (h : Walk step pos xs last) (n : Nat) :
    collect step (xs.length + n) pos = (collect step n last).map (xs ++ ·) := by
  induction h with
  | nil pos => simp
  | @cons pos next last a xs hs _ ih =>
    rw [List.length_cons, Nat.add_right_comm, collect, hs]
    simp only [Option.bind_eq_bind, Option.bind_some, ih]
    cases collect step n last <;> rfl

end Collecting

end CqlDriver.Lib
