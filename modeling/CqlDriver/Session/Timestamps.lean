import Mathlib.Algebra.Order.Ring.Unbundled.Rat
import Mathlib.Data.List.Chain

/-!
# Timestamps of the client

`MonotonicTimestampGenerator`: the calls take turns at the lock, and each reads the clock while it
has it.
-/

namespace CqlDriver.Session

structure MonotonicTimestampGenerator where
  last : Int := 0
  lastWarn : Int := 0
  warnOnDrift : Bool
  /-- In seconds, as the interval. -/
  warningThreshold : ℚ
  warningInterval : ℚ

/-- The numbers in the text for the log. -/
structure ClockSkew where
  now : Int
  diff : Int
  last : Int

namespace MonotonicTimestampGenerator

variable (g : MonotonicTimestampGenerator)

def maybeWarn (now : Int) : MonotonicTimestampGenerator × Option ClockSkew :=
  let diff := g.last - now
  let sinceLastWarn := now - g.lastWarn
  if g.warnOnDrift ∧ diff ≥ g.warningThreshold * 1000000 ∧ sinceLastWarn ≥ g.warningInterval * 1000000 then
    ({ g with lastWarn := now }, some ⟨now, diff, g.last⟩)
  else (g, none)

def nextTimestamp (now last : Int) : MonotonicTimestampGenerator × Int × Option ClockSkew :=
  if now > last then ({ g with last := now }, now, none)
  else
    let (g, warning) := g.maybeWarn now
    ({ g with last := last + 1 }, last + 1, warning)

def call (now : Int) : MonotonicTimestampGenerator × Int × Option ClockSkew := g.nextTimestamp now g.last

/-- What the calls return, in the order in which they have the lock. -/
def calls (g : MonotonicTimestampGenerator) : List Int → List Int
  | [] => []
  | now :: rest => (g.call now).2.1 :: calls (g.call now).1 rest

theorem call_spec (now : Int) :
    (g.call now).1.last = max now (g.last + 1) ∧ (g.call now).2.1 = max now (g.last + 1) := by
  unfold call nextTimestamp
  split
  · rename_i hl
    rw [max_eq_left (Int.add_one_le_iff.mpr hl)]
    exact ⟨rfl, rfl⟩
  rename_i hb
  rw [max_eq_right (by omega)]
  exact ⟨rfl, rfl⟩

theorem length_calls (nows : List Int) : ∀ g : MonotonicTimestampGenerator, (g.calls nows).length = nows.length := by
  induction nows with
  | nil => exact fun _ => rfl
  | cons now nows ih => exact fun g => congrArg (· + 1) (ih _)

theorem calls_eq_max (nows : List Int) : ∀ (g : MonotonicTimestampGenerator) {i : Nat} {now bef t : Int},
    nows[i]? = some now → (g.last :: g.calls nows)[i]? = some bef → (g.calls nows)[i]? = some t →
      t = max now (bef + 1) := by
  induction nows with
  | nil => exact fun _ _ _ _ _ h => nomatch h
  | cons now nows ih =>
    intro g i now' bef t hnow hb ht
    obtain ⟨hl, hv⟩ := g.call_spec now
    cases i with
    | zero =>
      cases hnow
      cases hb
      cases ht
      exact hv
    | succ i =>
      -- the value before is the last one of the generator that makes the rest
      refine ih (g.call now).1 hnow ?_ ht
      rw [hl, ← hv]
      exact hb

/-- **Monotonic timestamps**: the clock's, or one more than before. -/
theorem timestamps_monotonic (g : MonotonicTimestampGenerator) (nows : List Int) :
    let ts := calls { g with last := 0 } nows
    ts.length = nows.length ∧ ts.Pairwise (· < ·) ∧
      ∀ (i : Nat) now before t, nows[i]? = some now → (0 :: ts)[i]? = some before → ts[i]? = some t →
        t = max now (before + 1) ∧ before < t ∧ now ≤ t ∧ (before < now → t = now) := by
  intro ts
  have hmax : ∀ (i : Nat) now before t, nows[i]? = some now → (0 :: ts)[i]? = some before → ts[i]? = some t →
      t = max now (before + 1) :=
    fun _ _ _ _ => calls_eq_max nows { g with last := 0 }
  have hl : ts.length = nows.length := length_calls nows _
  refine ⟨hl, ?_, ?_⟩
  · rw [← List.isChain_iff_pairwise, List.isChain_iff_getElem]
    intro i hi
    have ht := hmax (i + 1) nows[i + 1] ts[i] ts[i + 1] (by simp) (by simp) (by simp)
    omega
  intro i now before t hnow hb ht
  have ht := hmax i now before t hnow hb ht
  omega

end MonotonicTimestampGenerator

end CqlDriver.Session
