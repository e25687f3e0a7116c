import Mathlib.Data.List.Basic

/-! # Runs of a step function -/

namespace CqlDriver.Lib

variable {σ α : Type}

def run (step : σ → α → σ) (s : σ) (as : List α) : σ := as.foldl step s

section

variable (step : σ → α → σ)

@[simp] theorem run_nil (s : σ) : run step s [] = s := rfl

@[simp] theorem run_cons (s : σ) (a : α) (as : List α) :
    run step s (a :: as) = run step (step s a) as := rfl

theorem run_append (s : σ) (as bs : List α) :
    run step s (as ++ bs) = run step (run step s as) bs := List.foldl_append ..

end

/-- Every action meets `ok` in the state it is taken from. -/
def RunOk (step : σ → α → σ) (ok : σ → α → Prop) : σ → List α → Prop
  | _, [] => True
  | s, a :: as => ok s a ∧ RunOk step ok (step s a) as

instance decidableRunOk (step : σ → α → σ) (ok : σ → α → Prop) [∀ s a, Decidable (ok s a)] :
    ∀ s as, Decidable (RunOk step ok s as)
  | _, [] => isTrue trivial
  | s, a :: as =>
    have := decidableRunOk step ok (step s a) as
    inferInstanceAs (Decidable (ok s a ∧ RunOk step ok (step s a) as))

variable {ok : σ → α → Prop} {s : σ} {step : σ → α → σ} {inv : σ → Prop}

theorem runOk_append {as bs : List α} :
    RunOk step ok s (as ++ bs) ↔ RunOk step ok s as ∧ RunOk step ok (run step s as) bs := by
  induction as generalizing s with
  | nil => simp [RunOk]
  | cons a as ih =>
    simp [RunOk, ih, and_assoc]

theorem RunOk.imp {ok' : σ → α → Prop} (h : ∀ s a, ok s a → ok' s a) :
    ∀ {s : σ} {as : List α}, RunOk step ok s as → RunOk step ok' s as := by
  intro s as
  induction as generalizing s with
  | nil => exact fun _ => trivial
  | cons a as ih => exact fun hrun => ⟨h s a hrun.1, ih hrun.2⟩

/-- **The run rule.** What steps that meet `ok` keep holds after the run. -/
theorem run_invariant (hst : ∀ s a, inv s → ok s a → inv (step s a)) :
    ∀ {s : σ} {as : List α}, inv s → RunOk step ok s as → inv (run step s as) := by
  intro s as
  induction as generalizing s with
  | nil => intro hs _; exact hs
  | cons a as ih =>
    rintro hs ⟨ha, has⟩
    exact ih (hst s a hs ha) has

theorem runOk_true (step : σ → α → σ) (s : σ) (as : List α) : RunOk step (fun _ _ => True) s as := by
  induction as generalizing s with
  | nil => trivial
  | cons a as ih => exact ⟨trivial, ih _⟩

theorem run_invariant_all (hst : ∀ s a, inv s → inv (step s a)) (as : List α) (hs : inv s) : inv (run step s as) :=
  run_invariant (fun s a h _ => hst s a h) hs (runOk_true step s as)

/-- The invariant holds throughout exactly if each action meets its condition. -/
theorem run_invariant_iff {bg : σ → Prop} (hbg : ∀ s a, bg s → bg (step s a))
    (hst : ∀ s a, bg s → inv s → (inv (step s a) ↔ ok s a)) :
    ∀ {s : σ} {as : List α}, bg s → inv s → ((∀ done, done <+: as → inv (run step s done)) ↔ RunOk step ok s as) := by
  intro s as
  induction as generalizing s with
  | nil =>
    intro _ hs
    refine iff_of_true ?_ trivial
    intro done hd
    rw [List.prefix_nil.mp hd]
    exact hs
  | cons a as ih =>
    intro hb hs
    have hiff := hst s a hb hs
    constructor
    · intro h
      have hn : inv (step s a) := h [a] ⟨as, rfl⟩
      refine ⟨hiff.mp hn, (ih (hbg s a hb) hn).mp fun done hd => ?_⟩
      exact h (a :: done) ((List.cons_prefix_cons).mpr ⟨rfl, hd⟩)
    rintro ⟨ha, has⟩ done hd
    rcases List.prefix_cons_iff.mp hd with rfl | ⟨later, rfl, hl⟩
    · exact hs
    · exact (ih (hbg s a hb) (hiff.mpr ha)).mpr has later hl

/-! ## Runs with results -/

section Results

variable {τ ρ : Type}

def perform (step : σ → α → ρ × σ) (s : σ) : List α → List ρ × σ
  | [] => ([], s)
  | a :: as =>
    let (r, s) := step s a
    let (rs, s) := perform step s as
    (r :: rs, s)

theorem perform_simulates {step : σ → α → ρ × σ} {step' : τ → α → ρ × τ} {R : σ → τ → Prop}
    (h : ∀ s t a, R s t → (step s a).1 = (step' t a).1 ∧ R (step s a).2 (step' t a).2) (as : List α) :
    ∀ s t, R s t → (perform step s as).1 = (perform step' t as).1 ∧ R (perform step s as).2 (perform step' t as).2 := by
  induction as with
  | nil => exact fun s t hst => ⟨rfl, hst⟩
  | cons a as ih =>
    intro s t hst
    obtain ⟨hres, hn⟩ := h s t a hst
    obtain ⟨hr, hend⟩ := ih _ _ hn
    exact ⟨congrArg₂ List.cons hres hr, hend⟩

end Results

end CqlDriver.Lib
