import CqlDriver.Lib.Rounding

/-! # A datetime from a timestamp -/

namespace CqlDriver.Decoding

open Lib

/-- A `datetime` without a time zone, as microseconds since 1970. -/
structure Datetime where
  micros : ℤ
  deriving DecidableEq

/-- `DATETIME_EPOC + delta`, for the years 1 to 9999. -/
def afterEpoch (micros : ℤ) : Option Datetime :=
  if -62135596800000000 ≤ micros ∧ micros < 253402300800000000 then some ⟨micros⟩ else none

variable (r : Rounding)

def timestampSeconds (millis : ℤ) : ℚ := r.round (r.round millis / 1000)

namespace Util

/-- `timedelta(seconds=..)`, rounded to microseconds, halves to even. -/
def timedelta (seconds : ℚ) : ℤ :=
  let micros := r.round ((seconds - truncate seconds) * 1000000)
  roundHalfEven (truncate seconds * 1000000 + micros)

def datetimeFromTimestamp (timestamp : ℚ) : Option Datetime := afterEpoch (timedelta r timestamp)

end Util

namespace CythonUtils

/-- The whole ones, and the fraction rounded to emulate `delta_new`. -/
def microseconds (timestamp : ℚ) : ℤ :=
  let micros := r.round ((timestamp - truncate timestamp) * 1000000)
  let microsLeft := micros - truncate micros
  let tmp : ℤ := roundHalfAway microsLeft
  if |r.round (tmp - microsLeft)| = 1 / 2 then
    let xOdd := truncate micros % 2
    truncate micros +
      truncate (r.round (r.round (2 * roundHalfAway (r.round (r.round (microsLeft + xOdd) * (1 / 2)))) - xOdd))
  else truncate micros + tmp

def datetimeFromTimestamp (timestamp : ℚ) : Option Datetime :=
  let days := truncate (r.round (timestamp / 86400))
  let daysInSeconds := days * 86400
  let seconds := truncate (r.round (timestamp - r.round daysInSeconds))
  -- `timedelta_new` normalizes its arguments.
  afterEpoch ((days * 86400 + seconds) * 1000000 + microseconds r timestamp)

end CythonUtils

/-! ## The microseconds -/

variable {q : ℚ} {millis : ℤ}

theorem roundHalfAway_cases (h : |q| < 1) :
    |q| < 1 / 2 ∧ roundHalfAway q = 0 ∨ 1 / 2 ≤ q ∧ roundHalfAway q = 1 ∨ q ≤ -(1 / 2) ∧ roundHalfAway q = -1 := by
  obtain ⟨hlo, hhi⟩ := abs_lt.mp h
  unfold roundHalfAway
  split
  · rcases lt_or_ge q _ with hs | hl
    · refine .inl ⟨abs_lt.mpr ⟨by linarith, hs⟩, Int.floor_eq_iff.mpr ?_⟩
      constructor <;> push_cast <;> linarith
    refine .inr (.inl ⟨hl, Int.floor_eq_iff.mpr ?_⟩)
    constructor <;> push_cast <;> linarith
  rename_i hneg
  rcases lt_or_ge _ q with hs | hl
  · refine .inl ⟨abs_lt.mpr ⟨hs, by linarith⟩, Int.ceil_eq_iff.mpr ?_⟩
    constructor <;> push_cast <;> linarith
  refine .inr (.inr ⟨hl, Int.ceil_eq_iff.mpr ?_⟩)
  constructor <;> push_cast <;> linarith

theorem isDouble_distance (hq : IsDouble q) (h : |q| < 1) : IsDouble (roundHalfAway q - q) := by
  obtain ⟨hlo, hhi⟩ := abs_lt.mp h
  rcases roundHalfAway_cases h with ⟨-, hr⟩ | ⟨hl, hr⟩ | ⟨hl, hr⟩
  · rw [hr, Int.cast_zero, zero_sub]
    exact hq.neg
  · rw [hr]
    exact hq.one_sub hl hhi
  have hf := (hq.neg.one_sub (by linarith) (by linarith)).neg
  rw [hr, Int.cast_neg]
  rwa [show -(1 - -q) = -1 - q by ring] at hf

theorem truncate_intCast (n : ℤ) : truncate n = n := by
  unfold truncate
  rw [Int.floor_intCast, Int.ceil_intCast, ite_self]

theorem round_half {l : ℚ} (hl : l = 1 / 2 ∨ l = -(1 / 2)) {odd : ℤ} (hodd : odd = 0 ∨ odd = 1) :
    truncate (r.round (r.round (2 * roundHalfAway (r.round (r.round (l + odd) * (1 / 2)))) - odd)) =
      if odd = 0 then 0 else if l = 1 / 2 then 1 else -1 := by
  have hqtr : ∀ m : ℤ, |m| ≤ 2 ^ 53 → ∀ q : ℚ, q = m / 2 ^ 2 → r.round q = q := by
    rintro m hm q rfl
    exact r.eq_self _ (IsDouble.of_div hm (by norm_num))
  have hw : ∀ {m : ℤ}, |m| ≤ 2 ^ 53 → ∀ {q : ℚ}, q = m → r.round q = m := by
    rintro m hm q rfl
    exact r.eq_self _ (IsDouble.of_int hm)
  rcases hl with rfl | rfl <;> rcases hodd with rfl | rfl
  · rw [hqtr 2 (by norm_num) (1 / 2 + (0 : ℤ)) (by norm_num),
      hqtr 1 (by norm_num) ((1 / 2 + (0 : ℤ)) * (1 / 2)) (by norm_num)]
    norm_num [roundHalfAway, hw (m := 0) (by norm_num), truncate]
  · rw [hqtr 6 (by norm_num) (1 / 2 + (1 : ℤ)) (by norm_num),
      hqtr 3 (by norm_num) ((1 / 2 + (1 : ℤ)) * (1 / 2)) (by norm_num)]
    norm_num [roundHalfAway, hw (m := 2) (by norm_num), hw (m := 1) (by norm_num), truncate]
  · rw [hqtr (-2) (by norm_num) (-(1 / 2) + (0 : ℤ)) (by norm_num),
      hqtr (-1) (by norm_num) ((-(1 / 2) + (0 : ℤ)) * (1 / 2)) (by norm_num)]
    norm_num [roundHalfAway, hw (m := 0) (by norm_num), truncate]
  rw [hqtr 2 (by norm_num) (-(1 / 2) + (1 : ℤ)) (by norm_num),
    hqtr 1 (by norm_num) ((-(1 / 2) + (1 : ℤ)) * (1 / 2)) (by norm_num)]
  norm_num [roundHalfAway, hw (m := 0) (by norm_num), hw (m := -1) (by norm_num), truncate]

theorem microseconds_eq (ts : ℚ) (hmic : |r.round ((ts - truncate ts) * 1000000)| ≤ 2 ^ 53)
    (hdbl : IsDouble (r.round ((ts - truncate ts) * 1000000))) :
    CythonUtils.microseconds r ts = roundHalfEven (r.round ((ts - truncate ts) * 1000000)) := by
  unfold CythonUtils.microseconds
  generalize r.round ((ts - truncate ts) * 1000000) = q at *
  dsimp only
  have hlf : IsDouble (q - truncate q) := hdbl.sub_truncate hmic
  have hlt : |q - truncate q| < 1 := abs_sub_truncate_lt q
  rw [r.eq_self _ (isDouble_distance hlf hlt)]
  generalize hl : q - truncate q = l at *
  have hd : ∀ x, q - (truncate q + x : ℤ) = l - x := by
    intro x
    push_cast
    linarith
  symm
  apply roundHalfEven_eq
  split
  · rename_i hh
    have htie : l = 1 / 2 ∨ l = -(1 / 2) := by
      rcases roundHalfAway_cases hlt with ⟨hs, hr⟩ | ⟨hlr, hr⟩ | ⟨hlr, hr⟩ <;> rw [hr] at hh
      · rw [Int.cast_zero, zero_sub, abs_neg] at hh
        exact absurd hh hs.ne
      · left
        rw [Int.cast_one, abs_of_nonneg (by linarith [(abs_lt.mp hlt).2])] at hh
        linarith
      right
      rw [Int.cast_neg, Int.cast_one, abs_of_nonpos (by linarith [(abs_lt.mp hlt).1])] at hh
      linarith
    have hodd : truncate q % 2 = 0 ∨ truncate q % 2 = 1 := Int.emod_two_eq_zero_or_one _
    rw [round_half r htie hodd]
    right
    rw [hd]
    rcases hodd with hp | hp
    · rw [if_pos hp, Int.cast_zero, add_zero]
      refine ⟨?_, Int.even_iff.mpr hp⟩
      rcases htie with rfl | rfl <;> norm_num
    rw [if_neg (by omega)]
    rcases htie with rfl | rfl
    · rw [if_pos rfl]
      exact ⟨by norm_num, (Int.odd_iff.mpr hp).add_odd odd_one⟩
    rw [if_neg (by norm_num)]
    exact ⟨by norm_num, (Int.odd_iff.mpr hp).add_odd (by decide)⟩
  rename_i hh
  left
  rw [hd, abs_sub_comm]
  refine lt_of_le_of_ne ?_ hh
  obtain ⟨hlo, hhi⟩ := abs_lt.mp hlt
  rcases roundHalfAway_cases hlt with ⟨hs, hr⟩ | ⟨hlr, hr⟩ | ⟨hlr, hr⟩ <;> rw [hr]
  · rw [Int.cast_zero, zero_sub, abs_neg]
    exact hs.le
  · rw [abs_le]
    constructor <;> push_cast <;> linarith
  rw [abs_le]
  constructor <;> push_cast <;> linarith

/-! ## The days and the seconds -/

theorem timestampSeconds_eq (h : |millis| ≤ 2 ^ 53) : timestampSeconds r millis = r.round (millis / 1000) := by
  unfold timestampSeconds
  rw [r.round_intCast h]

theorem timestampSeconds_mirror (millis : ℤ) : timestampSeconds r.mirror (-millis) = -timestampSeconds r millis := by
  simp [timestampSeconds, Rounding.mirror, neg_div]

theorem abs_timestampSeconds_le (h : |millis| ≤ 260000000000000) : |timestampSeconds r millis| ≤ 260000000000 := by
  have he : |(millis : ℚ) / 1000| ≤ (260000000000 : ℤ) := by
    have : |(millis : ℚ)| ≤ 260000000000000 := by exact_mod_cast h
    rw [abs_div]
    linarith
  rw [timestampSeconds_eq r (h.trans (by norm_num))]
  exact_mod_cast r.abs_round_le (by norm_num) he

theorem timestampSeconds_lt (h : |millis| ≤ 2 ^ 53) {k : ℤ} (hk : |k| ≤ 2 ^ 40) (hlt : timestampSeconds r millis < k) :
    timestampSeconds r millis ≤ k - 1 / 2 ^ 10 := by
  rw [timestampSeconds_eq r h] at hlt ⊢
  have he : (millis : ℚ) / 1000 < k := by
    by_contra hge
    rw [not_lt] at hge
    have hr := r.mono hge
    rw [r.round_intCast (hk.trans (by norm_num))] at hr
    linarith
  have hm : (millis : ℚ) ≤ 1000 * k - 1 := by
    have : millis < 1000 * k := by
      exact_mod_cast (by linarith : (millis : ℚ) < 1000 * k)
    exact_mod_cast (by omega : millis ≤ 1000 * k - 1)
  have hdbl : IsDouble (k - 1 / 2 ^ 10) := by
    have hf : (k : ℚ) - 1 / 2 ^ 10 = (k * 2 ^ 10 - 1 : ℤ) / 2 ^ 10 := by
      push_cast
      ring
    rw [hf]
    apply IsDouble.of_div _ (by norm_num)
    rw [abs_le] at hk ⊢
    constructor <;> linarith
  rw [← r.eq_self _ hdbl]
  apply r.mono
  linarith

section

variable (h : |millis| ≤ 260000000000000)
include h

theorem floor_days (hpos : 0 ≤ timestampSeconds r millis) :
    truncate (r.round (timestampSeconds r millis / 86400)) = truncate (timestampSeconds r millis / 86400) := by
  have hb := (abs_le.mp (abs_timestampSeconds_le r h)).2
  generalize hx : timestampSeconds r millis / 86400 = x
  have hxp : 0 ≤ x := by
    rw [← hx]
    positivity
  obtain ⟨k, hk⟩ : ∃ k, ⌊x⌋ = k := ⟨_, rfl⟩
  obtain ⟨hle, hlt⟩ := Int.floor_eq_iff.mp hk
  have hk0 : 0 ≤ k := hk ▸ Int.floor_nonneg.mpr hxp
  have hk22 : k ≤ 2 ^ 22 := by
    have : (k : ℚ) ≤ 2 ^ 22 := by
      linarith
    exact_mod_cast this
  have hlo : (k : ℚ) ≤ r.round x := by
    rw [← r.round_intCast (m := k) (abs_le.mpr (by constructor <;> linarith))]
    exact r.mono hle
  have hn : x ≤ k + 1 - 1 / 2 ^ 27 := by
    have hday := timestampSeconds_lt r (h.trans (by norm_num)) (k := (k + 1) * 86400)
      (abs_le.mpr (by constructor <;> linarith)) (by push_cast; linarith)
    push_cast at hday
    linarith
  have hhi : r.round x < k + 1 := by
    have hdbl : IsDouble (k + 1 - 1 / 2 ^ 27) := by
      have hf : (k : ℚ) + 1 - 1 / 2 ^ 27 = ((k + 1) * 2 ^ 27 - 1 : ℤ) / 2 ^ 27 := by
        push_cast
        ring
      rw [hf]
      exact IsDouble.of_div (abs_le.mpr (by constructor <;> linarith)) (by norm_num)
    have hm := r.mono hn
    rw [r.eq_self _ hdbl] at hm
    linarith
  have hk0' : (0 : ℚ) ≤ k := by exact_mod_cast hk0
  rw [truncate, if_pos (hk0'.trans hlo), truncate, if_pos hxp, hk]
  exact Int.floor_eq_iff.mpr ⟨hlo, hhi⟩

theorem truncate_days :
    truncate (r.round (timestampSeconds r millis / 86400)) = truncate (timestampSeconds r millis / 86400) := by
  rcases le_total 0 (timestampSeconds r millis) with hpos | hneg
  · exact floor_days r h hpos
  have hm := @floor_days r.mirror _ (by rwa [abs_neg]) (by
    rw [timestampSeconds_mirror]
    linarith)
  rw [timestampSeconds_mirror, neg_div, truncate_neg_eq] at hm
  have hr : r.mirror.round (-(timestampSeconds r millis / 86400)) = -r.round (timestampSeconds r millis / 86400) := by
    simp [Rounding.mirror]
  rw [hr, truncate_neg_eq] at hm
  exact neg_inj.mp hm

theorem truncate_seconds : let t := timestampSeconds r millis
    let days := truncate (r.round (t / 86400))
    days * 86400 + truncate (r.round (t - r.round (days * 86400 : ℤ))) = truncate t := by
  intro t days
  have hb : |t| ≤ 2 ^ 53 := (abs_timestampSeconds_le r h).trans (by norm_num)
  have hdbl : IsDouble t := by
    refine r.isDouble _ ?_
    rw [r.round_intCast (h.trans (by norm_num)), abs_div]
    have : |(millis : ℚ)| ≤ 260000000000000 := by exact_mod_cast h
    linarith
  have hd : days = truncate (t / 86400) := truncate_days r h
  have hw : |t / 86400 - days| ≤ |t / 86400| := hd ▸ abs_sub_truncate_le _
  obtain ⟨z, hz⟩ : ∃ z, days * 86400 = z := ⟨_, rfl⟩
  have hzq : (days : ℚ) = z / 86400 := by
    rw [← hz]
    push_cast
    ring
  have hc : |t - z| ≤ |t| := by
    rw [hzq, ← sub_div, abs_div, abs_div] at hw
    linarith
  have hs : 0 ≤ t ∧ (z : ℚ) ≤ t ∨ t ≤ 0 ∧ t ≤ z := by
    rcases le_or_gt 0 t with ht | ht
    · have hle := (truncate_nonneg (show 0 ≤ t / 86400 by positivity)).1
      rw [← hd] at hle
      exact .inl ⟨ht, by linarith⟩
    have hle := (truncate_neg (show t / 86400 < 0 by linarith)).2
    rw [← hd] at hle
    exact .inr ⟨ht.le, by linarith⟩
  have hint : |z| ≤ 2 ^ 53 := by
    have hsum : |(z : ℚ)| ≤ 2 * 260000000000 := by
      have htr := abs_sub t (t - z)
      rw [sub_sub_cancel] at htr
      linarith [abs_timestampSeconds_le r h]
    have hsm : |(z : ℚ)| ≤ (2 ^ 53 : ℤ) := hsum.trans (by norm_num)
    exact_mod_cast hsm
  rw [hz, r.round_intCast hint, r.eq_self _ (hdbl.sub_int hb hc)]
  exact truncate_sub_int hs

theorem datetimeFromTimestamp_eq :
    CythonUtils.datetimeFromTimestamp r (timestampSeconds r millis) =
      Util.datetimeFromTimestamp r (timestampSeconds r millis) := by
  have hf : |(timestampSeconds r millis - truncate (timestampSeconds r millis)) * 1000000| ≤ (1000000 : ℤ) := by
    have := abs_sub_truncate_lt (timestampSeconds r millis)
    rw [abs_mul, abs_of_pos (show (0 : ℚ) < 1000000 by norm_num)]
    push_cast
    linarith
  have hmic : |r.round ((timestampSeconds r millis - truncate (timestampSeconds r millis)) * 1000000)| ≤ 2 ^ 53 := by
    have hr := r.abs_round_le (by norm_num) hf
    exact hr.trans (by norm_num)
  have hdbl := r.isDouble _ (hf.trans (by norm_num))
  unfold CythonUtils.datetimeFromTimestamp Util.datetimeFromTimestamp Util.timedelta
  dsimp only
  rw [microseconds_eq r _ hmic hdbl, truncate_seconds r h]
  have he : Even (truncate (timestampSeconds r millis) * 1000000) := Even.mul_left (by decide) _
  have hs := roundHalfEven_add he
    (r.round ((timestampSeconds r millis - truncate (timestampSeconds r millis)) * 1000000))
  push_cast at hs
  rw [hs]

end

theorem timedelta_bounds (t : ℚ) : t * 1000000 - 2000001 ≤ Util.timedelta r t ∧ (Util.timedelta r t : ℚ) ≤ t * 1000000 + 2000001 := by
  have hlt := abs_sub_truncate_lt t
  have hf : |(t - truncate t) * 1000000| ≤ (1000000 : ℤ) := by
    rw [abs_mul, abs_of_pos (show (0 : ℚ) < 1000000 by norm_num)]
    push_cast
    linarith
  have hmic := r.abs_round_le (by norm_num) hf
  push_cast at hmic
  obtain ⟨hlo, hhi⟩ := abs_le.mp hmic
  obtain ⟨hlo', hhi'⟩ := abs_lt.mp hlt
  have hr := abs_sub_roundHalfEven_le (truncate t * 1000000 + r.round ((t - truncate t) * 1000000))
  obtain ⟨hlo'', hhi''⟩ := abs_le.mp hr
  unfold Util.timedelta
  constructor <;> dsimp only <;> linarith

theorem timestampSeconds_ge (h : 260000000000000 ≤ millis) : 260000000000 ≤ timestampSeconds r millis := by
  have hm : (260000000000000 : ℚ) ≤ r.round millis := by
    have hmn := r.mono (show ((260000000000000 : ℤ) : ℚ) ≤ millis by exact_mod_cast h)
    rw [r.round_intCast (by norm_num)] at hmn
    exact_mod_cast hmn
  have hmn := r.mono (show ((260000000000 : ℤ) : ℚ) ≤ r.round millis / 1000 by push_cast; linarith)
  rw [r.round_intCast (by norm_num)] at hmn
  exact_mod_cast hmn

theorem abs_le_of_datetime (h : (Util.datetimeFromTimestamp r (timestampSeconds r millis)).isSome) :
    |millis| ≤ 260000000000000 := by
  unfold Util.datetimeFromTimestamp afterEpoch at h
  split at h
  · rename_i hr
    obtain ⟨hlo, hhi⟩ := timedelta_bounds r _
    have hmin : (-62135596800000000 : ℚ) ≤ Util.timedelta r (timestampSeconds r millis) := by exact_mod_cast hr.1
    have hmax : (Util.timedelta r (timestampSeconds r millis) : ℚ) < 253402300800000000 := by exact_mod_cast hr.2
    rw [abs_le]
    constructor
    · by_contra hlt
      have hge := timestampSeconds_ge r.mirror (show 260000000000000 ≤ -millis by omega)
      rw [timestampSeconds_mirror] at hge
      linarith
    by_contra hlt
    have hge := timestampSeconds_ge r (show 260000000000000 ≤ millis by omega)
    linarith
  · cases h

end CqlDriver.Decoding
