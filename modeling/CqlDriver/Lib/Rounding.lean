import Mathlib.Algebra.Order.Floor.Ring
import Mathlib.Algebra.Order.Round
import Mathlib.Data.Finite.Prod
import Mathlib.Data.Int.Interval
import Mathlib.Data.Rat.Floor
import Mathlib.Data.Set.Finite.Lemmas
import Mathlib.Tactic.FieldSimp
import Mathlib.Tactic.Linarith
import Mathlib.Tactic.NormNum
import Mathlib.Tactic.Positivity
import Mathlib.Tactic.Ring

/-!
# Numbers in double precision

An operation on doubles is the exact one followed by a rounding, which keeps the order, leaves a
double as it is, and gives a double.
-/

namespace CqlDriver.Lib

/-- A number with 53 significant bits. -/
def IsDouble (q : ℚ) : Prop := ∃ m e : ℤ, |m| ≤ 2 ^ 53 ∧ -1074 ≤ e ∧ e ≤ 970 ∧ q = m * (2 : ℚ) ^ e

structure Rounding where
  round : ℚ → ℚ
  isDouble : ∀ q, |q| ≤ 2 ^ 100 → IsDouble (round q)
  eq_self : ∀ q, IsDouble q → round q = q
  mono : Monotone round

/-! ## Some doubles -/

namespace IsDouble

variable {q : ℚ} {m : ℤ}

theorem neg (h : IsDouble q) : IsDouble (-q) := by
  obtain ⟨m, e, hm, he, he', rfl⟩ := h
  exact ⟨-m, e, by rwa [abs_neg], he, he', by push_cast; ring⟩

theorem of_div {k : ℕ} (hm : |m| ≤ 2 ^ 53) (hk : k ≤ 1074) : IsDouble (m / 2 ^ k) := by
  refine ⟨m, -k, hm, by omega, by omega, ?_⟩
  rw [zpow_neg]
  rfl

theorem of_int (hm : |m| ≤ 2 ^ 53) : IsDouble m := by
  have h := of_div hm (Nat.zero_le 1074)
  rwa [pow_zero, div_one] at h

theorem sub_int (h : IsDouble q) (hq : |q| ≤ 2 ^ 53) {z : ℤ} (hz : |q - z| ≤ |q|) : IsDouble (q - z) := by
  obtain ⟨m, e, hm, he, he', rfl⟩ := h
  rcases le_total e 0 with hneg | hpos
  · -- The difference has the same last bit.
    obtain ⟨k, rfl⟩ : ∃ k : ℕ, e = -k := ⟨e.natAbs, by omega⟩
    have hpow : (0 : ℚ) < 2 ^ k := by positivity
    have hf : ∀ n, (n : ℚ) * 2 ^ (-(k : ℤ)) = n / 2 ^ k := by
      intro n
      rw [zpow_neg]
      rfl
    have hsub : (m : ℚ) * 2 ^ (-(k : ℤ)) - z = (m - z * 2 ^ k : ℤ) / 2 ^ k := by
      rw [hf]
      push_cast
      field_simp
    rw [hsub] at hz ⊢
    refine of_div ?_ (by omega)
    rw [hf, abs_div, abs_div, abs_of_pos hpow, div_le_div_iff_of_pos_right hpow] at hz
    exact le_trans (by exact_mod_cast hz) hm
  obtain ⟨k, rfl⟩ : ∃ k : ℕ, e = k := ⟨e.toNat, by omega⟩
  have hint : (m : ℚ) * 2 ^ (k : ℤ) - z = (m * 2 ^ k - z : ℤ) := by
    rw [zpow_natCast]
    push_cast
    ring
  rw [hint] at ⊢
  exact of_int (by exact_mod_cast hz.trans hq)

theorem one_sub (h : IsDouble q) (hlo : 1 / 2 ≤ q) (hhi : q < 1) : IsDouble (1 - q) := by
  have hsub := h.sub_int (z := 1) (by rw [abs_of_pos] <;> linarith) (by
    rw [abs_of_neg (by push_cast; linarith), abs_of_pos (by linarith)]
    push_cast
    linarith)
  have hneg := hsub.neg
  rwa [neg_sub] at hneg

end IsDouble

def Rounding.mirror (r : Rounding) : Rounding where
  round q := -r.round (-q)
  isDouble q hq := (r.isDouble (-q) (by rwa [abs_neg])).neg
  eq_self q hq := by rw [r.eq_self _ hq.neg, neg_neg]
  mono q q' h := neg_le_neg (r.mono (neg_le_neg h))

theorem finite_isDouble : {q : ℚ | IsDouble q}.Finite := by
  have hsub : {q : ℚ | IsDouble q} ⊆
      (fun x : ℤ × ℤ => (x.1 : ℚ) * 2 ^ x.2) '' (Set.Icc (-2 ^ 53) (2 ^ 53) ×ˢ Set.Icc (-1074) 970) := by
    rintro q ⟨m, e, hm, he, he', rfl⟩
    exact ⟨(m, e), ⟨abs_le.mp hm, he, he'⟩, rfl⟩
  exact (((Set.finite_Icc _ _).prod (Set.finite_Icc _ _)).image _).subset hsub

theorem exists_round (q : ℚ) : ∃ d, (IsDouble d ∧ d ≤ q ∧ ∀ d', IsDouble d' → d' ≤ q → d' ≤ d) ∨
    (∀ d', IsDouble d' → q < d') ∧ d = q := by
  by_cases h : ∃ d, IsDouble d ∧ d ≤ q
  · have hf : {d : ℚ | IsDouble d ∧ d ≤ q}.Finite := finite_isDouble.subset fun d hd => hd.1
    obtain ⟨d, ⟨hd, hle⟩, hmax⟩ := Set.exists_max_image _ id hf h
    exact ⟨d, .inl ⟨hd, hle, fun d' hd' hle' => hmax d' ⟨hd', hle'⟩⟩⟩
  push Not at h
  exact ⟨q, .inr ⟨h, rfl⟩⟩

noncomputable def Rounding.down : Rounding where
  round q := (exists_round q).choose
  isDouble q hq := by
    rcases (exists_round q).choose_spec with ⟨hd, -, -⟩ | ⟨hlt, -⟩
    · exact hd
    · have hlow : IsDouble (-2 ^ 100) := ⟨-1, 100, by norm_num, by norm_num, by norm_num, by norm_num⟩
      linarith [hlt _ hlow, (abs_le.mp hq).1]
  eq_self q hq := by
    rcases (exists_round q).choose_spec with ⟨-, hle, hmax⟩ | ⟨hlt, -⟩
    · exact le_antisymm hle (hmax q hq le_rfl)
    · exact absurd (hlt q hq) (lt_irrefl q)
  mono q q' h := by
    rcases (exists_round q).choose_spec with ⟨hd, hle, -⟩ | ⟨hlt, heq⟩ <;>
      rcases (exists_round q').choose_spec with ⟨hd', -, hmax'⟩ | ⟨hlt', heq'⟩
    · exact hmax' _ hd (hle.trans h)
    · exact absurd (hlt' _ hd) (not_lt.mpr (hle.trans h))
    · exact heq.le.trans (hlt _ hd').le
    · exact (heq.le.trans h).trans heq'.ge

variable {m z : ℤ} {q : ℚ}

theorem Rounding.round_intCast (r : Rounding) (hm : |m| ≤ 2 ^ 53) : r.round m = m :=
  r.eq_self m (IsDouble.of_int hm)

theorem Rounding.abs_round_le (r : Rounding) (hm : |m| ≤ 2 ^ 53) (h : |q| ≤ m) : |r.round q| ≤ m := by
  obtain ⟨hlo, hhi⟩ := abs_le.mp h
  have hlo' := r.mono hlo
  have hhi' := r.mono hhi
  rw [← Int.cast_neg, r.round_intCast (by rwa [abs_neg])] at hlo'
  rw [r.round_intCast hm] at hhi'
  exact abs_le.mpr ⟨by exact_mod_cast hlo', hhi'⟩

/-! ## Integers near a number -/

def truncate (q : ℚ) : ℤ := if 0 ≤ q then ⌊q⌋ else ⌈q⌉

def roundHalfAway (q : ℚ) : ℤ := if 0 ≤ q then ⌊q + 1 / 2⌋ else ⌈q - 1 / 2⌉

def roundHalfEven (q : ℚ) : ℤ := if q - ⌊q⌋ = 1 / 2 ∧ Odd ⌊q⌋ then ⌊q⌋ + 1 else ⌈q - 1 / 2⌉

theorem truncate_neg_eq (q : ℚ) : truncate (-q) = -truncate q := by
  unfold truncate
  rcases lt_trichotomy q 0 with h | rfl | h
  · rw [if_pos (by linarith), if_neg (not_le.mpr h), Int.floor_neg]
  · simp
  · rw [if_neg (by linarith), if_pos h.le, Int.ceil_neg]

theorem truncate_nonneg (h : 0 ≤ q) : 0 ≤ q - truncate q ∧ q - truncate q < 1 := by
  rw [truncate, if_pos h]
  exact ⟨sub_nonneg.mpr (Int.floor_le q), by linarith [Int.lt_floor_add_one q]⟩

theorem truncate_neg (h : q < 0) : -1 < q - truncate q ∧ q - truncate q ≤ 0 := by
  rw [truncate, if_neg (not_le.mpr h)]
  exact ⟨by linarith [Int.ceil_lt_add_one q], sub_nonpos.mpr (Int.le_ceil q)⟩

theorem abs_sub_truncate_le (q : ℚ) : |q - truncate q| ≤ |q| := by
  rcases le_or_gt 0 q with h | h
  · have hf : 0 ≤ (truncate q : ℚ) := by
      rw [truncate, if_pos h]
      exact_mod_cast Int.floor_nonneg.mpr h
    rw [abs_of_nonneg (truncate_nonneg h).1, abs_of_nonneg h]
    linarith
  have hc : (truncate q : ℚ) ≤ 0 := by
    rw [truncate, if_neg (not_le.mpr h)]
    exact_mod_cast Int.ceil_le.mpr (by exact_mod_cast h.le)
  rw [abs_of_nonpos (truncate_neg h).2, abs_of_neg h]
  linarith

theorem abs_sub_truncate_lt (q : ℚ) : |q - truncate q| < 1 := by
  rcases le_or_gt 0 q with h | h
  · exact abs_lt.mpr ⟨by linarith [(truncate_nonneg h).1], (truncate_nonneg h).2⟩
  · exact abs_lt.mpr ⟨(truncate_neg h).1, by linarith [(truncate_neg h).2]⟩

theorem IsDouble.sub_truncate (h : IsDouble q) (hq : |q| ≤ 2 ^ 53) : IsDouble (q - truncate q) :=
  h.sub_int hq (abs_sub_truncate_le q)

theorem truncate_sub_int (h : 0 ≤ q ∧ (z : ℚ) ≤ q ∨ q ≤ 0 ∧ q ≤ z) : z + truncate (q - z) = truncate q := by
  rcases h with ⟨hq, hz⟩ | ⟨hq, hz⟩
  · rw [truncate, if_pos (by linarith), truncate, if_pos hq, Int.floor_sub_intCast]
    ring
  have hm : z + truncate (q - z) = -(-z + truncate (-q - (-z : ℤ))) := by
    rw [show -q - ((-z : ℤ) : ℚ) = -(q - z) by push_cast; ring, truncate_neg_eq]
    ring
  rw [hm, truncate, if_pos (by push_cast; linarith), Int.floor_sub_intCast]
  have hneg := truncate_neg_eq q
  rw [truncate, if_pos (by linarith)] at hneg
  rw [hneg]
  ring

theorem roundHalfEven_eq {n : ℤ} (h : |q - n| < 1 / 2 ∨ |q - n| = 1 / 2 ∧ Even n) : roundHalfEven q = n := by
  unfold roundHalfEven
  rcases h with h | ⟨h, he⟩
  · obtain ⟨hlo, hhi⟩ := abs_lt.mp h
    rw [if_neg, Int.ceil_eq_iff]
    · constructor <;> linarith
    rintro ⟨hh, -⟩
    -- Then the floor is `n` or one less.
    rcases le_or_gt (n : ℚ) q with hle | hlt
    · have hf : ⌊q⌋ = n := Int.floor_eq_iff.mpr ⟨hle, by linarith⟩
      rw [hf] at hh
      linarith
    have hf : ⌊q⌋ = n - 1 := Int.floor_eq_iff.mpr ⟨by push_cast; linarith, by push_cast; linarith⟩
    rw [hf] at hh
    push_cast at hh
    linarith
  rcases (abs_eq (by norm_num)).mp h with h | h
  · have hf : ⌊q⌋ = n := Int.floor_eq_iff.mpr ⟨by linarith, by linarith⟩
    rw [if_neg, Int.ceil_eq_iff]
    · constructor <;> linarith
    rw [hf]
    exact fun hodd => Int.not_odd_iff_even.mpr he hodd.2
  have hf : ⌊q⌋ = n - 1 := Int.floor_eq_iff.mpr ⟨by push_cast; linarith, by push_cast; linarith⟩
  rw [if_pos, hf]
  · ring
  rw [hf]
  exact ⟨by push_cast; linarith, he.sub_odd odd_one⟩

theorem abs_sub_roundHalfEven_le (q : ℚ) : |q - roundHalfEven q| ≤ 1 := by
  unfold roundHalfEven
  split
  · push_cast
    exact abs_le.mpr ⟨by linarith, by linarith⟩
  have hc := Int.le_ceil (q - 1 / 2)
  have hc' := Int.ceil_lt_add_one (q - 1 / 2)
  exact abs_le.mpr ⟨by linarith, by linarith⟩

theorem roundHalfEven_add (hz : Even z) (q : ℚ) : roundHalfEven (z + q) = z + roundHalfEven q := by
  have hodd : Odd (z + ⌊q⌋) ↔ Odd ⌊q⌋ := by
    rw [add_comm, Int.odd_add]
    exact iff_true_right hz
  have hf : (z : ℚ) + q - (z + ⌊q⌋ : ℤ) = q - ⌊q⌋ := by
    push_cast
    ring
  have hc : ⌈(z : ℚ) + q - 1 / 2⌉ = z + ⌈q - 1 / 2⌉ := by
    rw [add_sub_assoc, Int.ceil_intCast_add]
  unfold roundHalfEven
  simp only [Int.floor_intCast_add, hodd, hf, hc]
  split
  · ring
  · rfl

end CqlDriver.Lib
