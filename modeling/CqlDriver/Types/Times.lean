import CqlDriver.Lib.Traversal
import Mathlib

/-! # Times of a day -/

namespace CqlDriver.Types

open List

/-- What the interpreter says about characters. -/
structure Chars where
  digit : Char → Option Nat
  isspace : Char → Bool
  /-- `int` takes underscores between digits. -/
  grouping : Bool
  ascii : ∀ c : Char, c.isDigit → digit c = some (c.toNat - 48) ∧ isspace c = false

def asciiDigit (c : Char) : Option Nat := if c.isDigit then some (c.toNat - 48) else none

instance : Inhabited Chars where
  default := {
    digit := asciiDigit
    isspace := fun c => c = ' '
    grouping := true
    ascii := fun c hc => ⟨if_pos hc, decide_eq_false (by rintro rfl; cases hc)⟩ }

namespace Chars

variable (py : Chars)

/-- `6[0-1]|[0-5]\d|\d` for the limit 62, and so with the others. -/
def field (limit : Nat) : List Char → Option Nat
  | [b] => py.digit b
  | [a, b] => do
    let x ← asciiDigit a
    let y ← if x = limit / 10 then asciiDigit b else py.digit b
    if 10 * x + y < limit then some (10 * x + y) else none
  | _ => none

/-- With the format `%H:%M:%S`. `none` is a `ValueError`. -/
def strptime (s : List Char) : Option (Nat × Nat × Nat) :=
  match s.splitOn ':' with
  | [hour, minute, second] => do return (← py.field 24 hour, ← py.field 60 minute, ← py.field 62 second)
  | _ => none

def natural (s : List Char) : Option Nat :=
  let groups := if py.grouping then s.splitOn '_' else [s]
  if groups.any isEmpty then none else (groups.flatten.mapM py.digit).map fun ds => ds.foldl (fun n d => 10 * n + d) 0

def int (s : List Char) : Option Int :=
  match (s.dropWhile py.isspace).rdropWhile py.isspace with
  | [] => none
  | c :: s =>
    if c = '-' then (py.natural s).map fun n => -n
    else if c = '+' then (py.natural s).map fun n => n
    else (py.natural (c :: s)).map fun n => n

end Chars

/-- A `datetime.time`. -/
structure DatetimeTime where
  hour : Fin 24
  minute : Fin 60
  second : Fin 60
  microsecond : Fin 1000000

def datetimeTime (hour minute second microsecond : Int) : Option DatetimeTime :=
  if h : (0 ≤ hour ∧ hour < 24) ∧ (0 ≤ minute ∧ minute < 60) ∧ (0 ≤ second ∧ second < 60) ∧
      0 ≤ microsecond ∧ microsecond < 1000000 then
    some ⟨⟨hour.toNat, by omega⟩, ⟨minute.toNat, by omega⟩, ⟨second.toNat, by omega⟩, ⟨microsecond.toNat, by omega⟩⟩
  else none

inductive TimeArgument
  | integer (t : Int)
  | time (t : DatetimeTime)
  | string (s : List Char)

structure Time where
  nanosecondTime : Int
  deriving DecidableEq

namespace Time

def MICRO : Int := 1000

def SECOND : Int := 1000 * (1000 * MICRO)

def MINUTE : Int := 60 * SECOND

def HOUR : Int := 60 * MINUTE

def DAY : Int := 24 * HOUR

section

variable (t : Time)

def hour : Int := t.nanosecondTime / HOUR

def minute : Int := t.nanosecondTime / MINUTE % 60

def second : Int := t.nanosecondTime / SECOND % 60

def nanosecond : Int := t.nanosecondTime % SECOND

def time : Option DatetimeTime := datetimeTime t.hour t.minute t.second (t.nanosecond / MICRO)

/-- `%0*d`. -/
def padded (width : Nat) (n : Int) : List Char :=
  if n < 0 then '-' :: leftpad (width - 1) '0' (Nat.toDigits 10 n.natAbs) else leftpad width '0' (Nat.toDigits 10 n.natAbs)

def clock (hour minute second : Int) : List Char :=
  padded 2 hour ++ ':' :: padded 2 minute ++ ':' :: padded 2 second

def str : List Char := clock t.hour t.minute t.second ++ '.' :: padded 9 t.nanosecond

end

def fromTimestamp (t : Int) : Option Time := if t ≥ DAY then none else some ⟨t⟩

def ofParts (hour minute second rest : Int) : Time := ⟨hour * HOUR + minute * MINUTE + second * SECOND + rest⟩

def fromTime (t : DatetimeTime) : Time := ofParts t.hour.val t.minute.val t.second.val (t.microsecond.val * MICRO)

variable (py : Chars)

/-- Between the first point and the next, padded to 9 digits. -/
def fraction (parts : List (List Char)) : Option Int :=
  match parts with
  | _ :: nanoTime :: _ => py.int (nanoTime ++ replicate (9 - nanoTime.length) '0')
  | _ => some 0

def fromTimestring (s : List Char) : Option Time := do
  let parts := s.splitOn '.'
  let (hour, minute, second) ← py.strptime (parts.headD [])
  return ofParts hour minute second (← fraction py parts)

/-- `none` is an exception. -/
def init : TimeArgument → Option Time
  | .integer t => fromTimestamp t
  | .time t => some (fromTime t)
  | .string s => fromTimestring py s

/-! ## Within a day -/

theorem time_isSome_iff (t : Time) : t.time.isSome ↔ 0 ≤ t.nanosecondTime ∧ t.nanosecondTime < DAY := by
  unfold time datetimeTime hour minute second nanosecond DAY HOUR MINUTE SECOND MICRO
  split <;> simp <;> omega

def InDay (t : Time) : Prop :=
  (0 ≤ t.nanosecondTime ∧ t.nanosecondTime < DAY) ∧ (0 ≤ t.hour ∧ t.hour ≤ 23) ∧ t.time.isSome

theorem inDay_iff {t : Time} : InDay t ↔ 0 ≤ t.nanosecondTime ∧ t.nanosecondTime < DAY := by
  rw [InDay, time_isSome_iff]
  unfold hour DAY HOUR MINUTE SECOND MICRO
  omega

/-- No leap second, and up to nine characters without a minus after the point. -/
def Plain (s : List Char) : Prop :=
  (((s.splitOn '.').headD []).splitOn ':').getLast? ∉ [some ['6', '0'], some ['6', '1']] ∧
    ∀ nanoTime ∈ (s.splitOn '.')[1]?, nanoTime.length ≤ 9 ∧ '-' ∉ nanoTime

section Bounds

variable {py} {n : Nat} {cs : List Char} (hpy : ∀ c, ∀ d ∈ py.digit c, d < 10)

theorem eq_of_asciiDigit {c : Char} {d : Nat} (h : asciiDigit c = some d) : c = Char.ofNat (d + 48) ∧ d < 10 := by
  unfold asciiDigit at h
  split at h
  · rename_i hc
    obtain rfl := Option.some.inj h
    simp only [Char.isDigit, Bool.and_eq_true, decide_eq_true_eq, UInt32.le_iff_toNat_le] at hc
    have h48 : 48 ≤ c.toNat := hc.1
    have h57 : c.toNat ≤ 57 := hc.2
    exact ⟨by rw [Nat.sub_add_cancel h48, Char.ofNat_toNat], by omega⟩
  · cases h

theorem field_two {limit : Nat} {a b : Char} (h : py.field limit [a, b] = some n) : ∃ x y, asciiDigit a = some x ∧
    (if x = limit / 10 then asciiDigit b else py.digit b) = some y ∧ n = 10 * x + y ∧ n < limit := by
  simp only [Chars.field, Option.bind_eq_bind, Option.bind_eq_some_iff] at h
  obtain ⟨x, hx, h⟩ := h
  refine ⟨x, ?_⟩
  split at h
  all_goals
    obtain ⟨y, hy, h⟩ := Option.bind_eq_some_iff.mp h
    simp only [Option.ite_none_right_eq_some, Option.some.injEq] at h
    exact ⟨y, hx, by simp_all, h.2.symm, h.2 ▸ h.1⟩

include hpy

theorem field_lt {limit : Nat} (hl : 10 ≤ limit) (h : py.field limit cs = some n) : n < limit := by
  match cs with
  | [b] => exact (hpy b n h).trans_le hl
  | [a, b] =>
    obtain ⟨-, -, -, -, -, hn⟩ := field_two h
    exact hn
  | [] | _ :: _ :: _ :: _ => simp [Chars.field] at h

theorem second_lt (h : py.field 62 cs = some n) (hcs : cs ≠ ['6', '0'] ∧ cs ≠ ['6', '1']) : n < 60 := by
  match cs with
  | [b] => exact (hpy b n h).trans (by decide)
  | [a, b] =>
    obtain ⟨x, y, hx, hy, rfl, hn⟩ := field_two h
    obtain ⟨rfl, -⟩ := eq_of_asciiDigit hx
    by_cases h6 : x = 6
    · subst h6
      obtain ⟨rfl, -⟩ := eq_of_asciiDigit (by simpa using hy)
      have hy2 : y < 2 := by omega
      interval_cases y
      · exact absurd rfl hcs.1
      · exact absurd rfl hcs.2
    · have := hpy b y (by simpa [h6] using hy)
      omega
  | [] | _ :: _ :: _ :: _ => simp [Chars.field] at h

theorem foldl_lt {ds : List Nat} (h : Forall₂ (fun c d => py.digit c = some d) cs ds) (k : Nat) :
    ds.foldl (fun n d => 10 * n + d) k < (k + 1) * 10 ^ cs.length := by
  induction h generalizing k with
  | nil => simp
  | @cons c d cs ds hd _ ih =>
    have hlt := hpy c d hd
    calc _ < (10 * k + d + 1) * 10 ^ cs.length := ih _
      _ ≤ (k + 1) * 10 * 10 ^ cs.length := Nat.mul_le_mul_right _ (by omega)
      _ = _ := by rw [length_cons, pow_succ', Nat.mul_assoc]

theorem natural_lt (h : py.natural cs = some n) : n < 10 ^ cs.length := by
  -- Underscores are not counted.
  have hgroups : (if py.grouping then cs.splitOn '_' else [cs]).flatten.length ≤ cs.length := by
    split
    · have hjoin : ['_'].intercalate (cs.splitOn '_') = cs := intercalate_splitOn '_'
      conv_rhs => rw [← hjoin]
      clear hjoin
      generalize cs.splitOn '_' = groups
      induction groups with
      | nil => simp
      | cons g groups ih =>
        cases groups <;> simp_all [intercalate, intersperse]
        omega
    · simp
  simp only [Chars.natural] at h
  generalize (if py.grouping then cs.splitOn '_' else [cs]) = groups at h hgroups
  split at h
  · cases h
  obtain ⟨ds, hds, rfl⟩ := Option.map_eq_some_iff.mp h
  calc _ < (0 + 1) * 10 ^ groups.flatten.length := foldl_lt hpy (Lib.mapM_eq_some.mp hds) 0
    _ ≤ 10 ^ cs.length := by simpa using Nat.pow_le_pow_right (by decide) hgroups

theorem int_bounds {r : Int} (h : py.int cs = some r) (hm : '-' ∉ cs) : 0 ≤ r ∧ r < 10 ^ cs.length := by
  have hsub : (cs.dropWhile py.isspace).rdropWhile py.isspace <+ cs :=
    ( rdropWhile_prefix ..).sublist.trans (dropWhile_suffix _).sublist
  have hnat : ∀ {ds : List Char} {n : Nat}, ds <+ cs → py.natural ds = some n → (n : Int) < 10 ^ cs.length := by
    intro ds n hds hn
    exact_mod_cast (natural_lt hpy hn).trans_le (Nat.pow_le_pow_right (by decide) hds.length_le)
  unfold Chars.int at h
  split at h
  · cases h
  rename_i c ds hst
  rw [hst] at hsub
  rw [if_neg (by rintro rfl; exact hm (hsub.subset mem_cons_self))] at h
  split at h
  all_goals
    obtain ⟨n, hn, rfl⟩ := by simpa [Option.bind_eq_some_iff] using h
    exact ⟨Int.natCast_nonneg n, hnat (by first | exact hsub | exact (sublist_cons_self ..).trans hsub) hn⟩

theorem inDay_of_plain {s : List Char} (hs : Plain s) {t : Time} (h : fromTimestring py s = some t) : InDay t := by
  simp only [fromTimestring, Option.bind_eq_bind, Option.bind_eq_some_iff, Option.pure_def, Option.some.injEq] at h
  obtain ⟨⟨h, m, sec⟩, hclock, rest, hfr, rfl⟩ := h
  have hck : h < 24 ∧ m < 60 ∧ sec < 60 := by
    have hlast := hs.1
    unfold Chars.strptime at hclock
    split at hclock
    · rename_i hh hm hsec hparts
      simp only [Option.bind_eq_bind, Option.bind_eq_some_iff, Option.pure_def, Option.some.injEq, Prod.mk.injEq] at hclock
      obtain ⟨_, h₁, _, h₂, _, h₃, rfl, rfl, rfl⟩ := hclock
      rw [hparts] at hlast
      exact ⟨field_lt hpy (by decide) h₁, field_lt hpy (by decide) h₂, second_lt hpy h₃ (by simpa using hlast)⟩
    · cases hclock
  have hfrac : 0 ≤ rest ∧ rest < 10 ^ 9 := by
    have hnano := hs.2
    unfold fraction at hfr
    split at hfr
    · rename_i nano _ hparts
      obtain ⟨hlen, hm⟩ := hnano nano (by simp [hparts])
      simpa [hlen] using int_bounds hpy hfr (by simp [hm])
    · cases hfr
      decide
  rw [inDay_iff]
  dsimp only [ofParts, DAY, HOUR, MINUTE, SECOND, MICRO]
  omega

end Bounds

/-- **Times stay within a day**, but for negative numbers and odd texts. -/
theorem init_in_day (hdigits : ∀ c, ∀ d ∈ py.digit c, d < 10) :
    (∀ n, (∀ t, init py (.integer n) = some t → InDay t) ↔ 0 ≤ n) ∧
      (∀ d t, init py (.time d) = some t → InDay t) ∧
      ∀ s, Plain s → ∀ t, init py (.string s) = some t → InDay t := by
  refine ⟨fun n => ?_, fun d t ht => ?_, fun s hs t ht => inDay_of_plain hdigits hs ht⟩
  · simp only [init, fromTimestamp, inDay_iff]
    by_cases hlarge : n ≥ DAY
    · simp only [hlarge, if_true, reduceCtorEq, false_implies, implies_true, true_iff]
      exact le_trans (by decide) hlarge
    · simp [hlarge]
      omega
  · have hb := And.intro d.hour.isLt (And.intro d.minute.isLt (And.intro d.second.isLt d.microsecond.isLt))
    cases ht
    rw [inDay_iff]
    dsimp only [fromTime, ofParts, DAY, HOUR, MINUTE, SECOND, MICRO]
    omega

theorem init_in_day_last : ∃ t, init default (.string "23:59:59.999999999".toList) = some t ∧ InDay t := by
  have hdigits : ∀ c, ∀ d ∈ (default : Chars).digit c, d < 10 := fun c d hd => (eq_of_asciiDigit hd).2
  exact ⟨_, rfl, (init_in_day default hdigits).2.2 "23:59:59.999999999".toList ⟨by decide, by decide⟩ _ rfl⟩

/-- A negative number, a leap second, a sign, and ten digits. -/
theorem init_out_of_day : init default (.integer (-1)) = some ⟨-1⟩ ∧ hour ⟨-1⟩ = -1 ∧
    init default (.string "23:59:60".toList) = some ⟨DAY⟩ ∧ hour ⟨DAY⟩ = 24 ∧ (time ⟨DAY⟩).isNone ∧
    init default (.string "00:00:00.-1".toList) = some ⟨-10000000⟩ ∧
    init default (.string "23:59:59.1000000000".toList) = some ⟨DAY⟩ := by
  decide

/-! ## The text of a time -/

section Digits

variable {py} {cs : List Char} (h : ∀ c ∈ cs, c.isDigit = true)
include h

theorem not_mem_of_isDigit {c : Char} (hc : c.isDigit = false) : c ∉ cs :=
  fun hmem => by simp [h c hmem] at hc

theorem natural_digits (hne : cs ≠ []) : py.natural cs = some (Nat.ofDigitChars 10 cs 0) := by
  -- Digits have no underscore among them.
  have hg : (if py.grouping then cs.splitOn '_' else [cs]) = [cs] := by
    split
    · have := @splitOn_intercalate _ [cs] _ _ '_' (by simpa using not_mem_of_isDigit h rfl) (by simp)
      simpa using this
    · rfl
  have hd : cs.mapM py.digit = some (cs.map fun c => c.toNat - 48) := by
    clear hg hne
    induction cs with
    | nil => rfl
    | cons c cs ih =>
      rw [forall_mem_cons] at h
      simp [(py.ascii c h.1).1, ih h.2]
  unfold Chars.natural
  rw [hg]
  simp [hne, hd, foldl_map, Nat.ofDigitChars_eq_foldl]

theorem int_digits (hne : cs ≠ []) : py.int cs = some (Nat.ofDigitChars 10 cs 0 : Nat) := by
  -- Nor a space at an end, nor a sign.
  have hst : (cs.dropWhile py.isspace).rdropWhile py.isspace = cs := by
    obtain ⟨c, l, hl⟩ := exists_cons_of_ne_nil hne
    have hd : cs.dropWhile py.isspace = cs := by
      rw [hl, dropWhile_cons_of_neg]
      simp [(py.ascii c (h c (hl ▸ mem_cons_self))).2]
    rw [hd, rdropWhile_eq_self_iff]
    intro hl
    simp [(py.ascii _ (h _ (getLast_mem hl))).2]
  obtain ⟨c, cs, rfl⟩ := exists_cons_of_ne_nil hne
  have hc := h c mem_cons_self
  have hmn : c ≠ '-' := by rintro rfl; cases hc
  have hpl : c ≠ '+' := by rintro rfl; cases hc
  unfold Chars.int
  rw [hst]
  simp [hmn, hpl, natural_digits h hne]

end Digits

theorem padded_spec {width n : Nat} (hw : 0 < width) (hn : n < 10 ^ width) : (padded width n).length = width ∧
    (∀ c ∈ padded width n, c.isDigit) ∧ Nat.ofDigitChars 10 (padded width n) 0 = n := by
  have hlen := (Nat.length_toDigits_le_iff (b := 10) (by decide) hw).mpr hn
  unfold padded
  rw [if_neg (by omega), Int.natAbs_natCast, leftpad]
  refine ⟨by simp; omega, ?_, ?_⟩
  · rw [forall_mem_append]
    refine ⟨fun c hc => ?_, fun c => Nat.isDigit_of_mem_toDigits (by decide) (by decide)⟩
    rw [eq_of_mem_replicate hc]
    rfl
  · rw [Nat.ofDigitChars_append, Nat.ofDigitChars_replicate_zero, Nat.mul_zero,
      Nat.ofDigitChars_toDigits (by decide) (by decide)]

theorem field_padded {limit n : Nat} (hn : n < limit) (hl : limit ≤ 100) : py.field limit (padded 2 n) = some n := by
  obtain ⟨hlen, hd, hv⟩ := @padded_spec 2 n (by decide) (by omega)
  obtain ⟨a, b, hab⟩ := length_eq_two.mp hlen
  rw [hab] at hd hv ⊢
  obtain ⟨ha, hb⟩ : a.isDigit ∧ b.isDigit := by simpa using hd
  simp [Nat.ofDigitChars_cons] at hv
  simp [Chars.field, asciiDigit, ha, hb, (py.ascii b hb).1, hv, hn]

theorem strptime_clock {h m s : Nat} (hh : h < 24) (hm : m < 60) (hs : s < 60) :
    py.strptime (clock h m s) = some (h, m, s) ∧ '.' ∉ clock h m s := by
  have hno : ∀ {c} {n : Nat}, c.isDigit = false → n < 60 → c ∉ padded 2 n :=
    fun hc hn => not_mem_of_isDigit (padded_spec (by decide) (by omega)).2.1 hc
  have hck : clock h m s = [':'].intercalate [padded 2 h, padded 2 m, padded 2 s] := by
    simp [clock]
  constructor
  · rw [Chars.strptime, hck, splitOn_intercalate ':' (by simp [hno, hm, hs, (by omega : h < 60)]) (by simp)]
    simp [field_padded py, hh, hm, (by omega : s < 62)]
  · simp [clock, hno, hm, hs, (by omega : h < 60)]

theorem init_clock {h m s : Nat} (hh : h < 24) (hm : m < 60) (hs : s < 60) :
    init py (.string (clock h m s)) = some (ofParts h m s 0) ∧
      ∀ f, f ≠ [] → f.length ≤ 9 → (∀ c ∈ f, c.isDigit) → init py (.string (clock h m s ++ '.' :: f)) =
          some (ofParts h m s (Nat.ofDigitChars 10 f 0 * 10 ^ (9 - f.length) : Nat)) := by
  obtain ⟨hp, hpt⟩ := strptime_clock py hh hm hs
  constructor
  · have hps := @splitOn_intercalate _ [clock h m s] _ _ '.' (by simpa using hpt) (by simp)
    rw [intercalate_singleton] at hps
    simp [init, fromTimestring, hps, hp, fraction]
  · intro f hne hlen hf
    have hps := @splitOn_intercalate _ [clock h m s, f] _ _ '.'
      (by simpa using ⟨hpt, not_mem_of_isDigit hf rfl⟩) (by simp)
    have hd : ∀ c ∈ f ++ replicate (9 - f.length) '0', c.isDigit := by
      rw [forall_mem_append]
      exact ⟨hf, fun c hc => eq_of_mem_replicate hc ▸ rfl⟩
    have hint := @int_digits py _ hd (by simp [hne])
    rw [Nat.ofDigitChars_append, Nat.ofDigitChars_replicate_zero, Nat.mul_comm] at hint
    simp at hps
    simp [init, fromTimestring, hps, hp, fraction, hint]

theorem parts_natCast (n : Nat) : hour ⟨n⟩ = (n / 3600000000000 : Nat) ∧ minute ⟨n⟩ = (n / 60000000000 % 60 : Nat) ∧
    second ⟨n⟩ = (n / 1000000000 % 60 : Nat) ∧ nanosecond ⟨n⟩ = (n % 1000000000 : Nat) := by
  dsimp only [hour, minute, second, nanosecond, HOUR, MINUTE, SECOND, MICRO]
  omega

/-- **Texts of times** read back. -/
theorem time_text_round_trip (py : Chars) :
    (∀ n : Int, 0 ≤ n → n < DAY → ∃ t, init py (.integer n) = some t ∧ t.nanosecondTime = n ∧ init py (.string t.str) = some t) ∧
    ∀ (hour : Fin 24) (minute second : Fin 60), init py (.string (clock hour.val minute.val second.val)) =
        some ⟨((hour.val * 60 + minute.val) * 60 + second.val) * 10 ^ 9⟩ ∧
      ∀ f, f ≠ [] → f.length ≤ 9 → (∀ c ∈ f, c.isDigit = true) →
        init py (.string (clock hour.val minute.val second.val ++ '.' :: f)) =
          some ⟨((hour.val * 60 + minute.val) * 60 + second.val) * 10 ^ 9 + Nat.ofDigitChars 10 f 0 * 10 ^ (9 - f.length)⟩ := by
  constructor
  · intro n h0 hn
    refine ⟨⟨n⟩, if_neg (by omega), rfl, ?_⟩
    obtain ⟨n, rfl⟩ := Int.eq_ofNat_of_zero_le h0
    dsimp only [DAY, HOUR, MINUTE, SECOND, MICRO] at hn
    -- The parts that are printed are natural numbers below 24, 60, 60 and 10 ^ 9.
    obtain ⟨hh, hm, hs, hn'⟩ := parts_natCast n
    obtain ⟨hlen, hd, hv⟩ := @padded_spec 9 (n % 1000000000) (by decide) (by omega)
    have hne : padded 9 (n % 1000000000 : Nat) ≠ [] := ne_nil_of_length_pos (by omega)
    rw [str, hh, hm, hs, hn', (init_clock py (by omega) (by omega) (by omega)).2 _ hne (Nat.le_of_eq hlen) hd, hv, hlen]
    simp only [ofParts, HOUR, MINUTE, SECOND, MICRO, Option.some.injEq, mk.injEq]
    omega
  · intro hour minute second
    have hps : ∀ rest : Int, ofParts hour.val minute.val second.val rest =
        ⟨((hour.val * 60 + minute.val) * 60 + second.val) * 10 ^ 9 + rest⟩ := by
      intro rest
      simp only [ofParts, HOUR, MINUTE, SECOND, MICRO, mk.injEq]
      omega
    obtain ⟨hck, hfr⟩ := init_clock py hour.isLt minute.isLt second.isLt
    refine ⟨?_, fun f hne hlen hf => ?_⟩
    · rw [hck, hps, Int.add_zero]
    · rw [hfr f hne hlen hf, hps]
      push_cast
      rfl

end Time

end CqlDriver.Types
