import Mathlib

/-! # Bounds of a `timeuuid` -/

namespace CqlDriver.Types

structure UUID where
  timeLow : Int
  timeMid : Int
  timeHiVersion : Int
  clockSeqHiVariant : Int
  clockSeqLow : Int
  node : Int

namespace UUID

/-- `uuid.UUID(fields=.., version=..)`; `none` is a `ValueError`. -/
def ofFields (timeLow timeMid timeHiVersion clockSeqHiVariant clockSeqLow node version : Int) : Option UUID :=
  if (0 ≤ timeLow ∧ timeLow < 2 ^ 32) ∧ (0 ≤ timeMid ∧ timeMid < 2 ^ 16) ∧
      (0 ≤ timeHiVersion ∧ timeHiVersion < 2 ^ 16) ∧ (0 ≤ clockSeqHiVariant ∧ clockSeqHiVariant < 2 ^ 8) ∧
      (0 ≤ clockSeqLow ∧ clockSeqLow < 2 ^ 8) ∧ (0 ≤ node ∧ node < 2 ^ 48) then
    some ⟨timeLow, timeMid, version * 2 ^ 12 + timeHiVersion % 2 ^ 12, 0x80 + clockSeqHiVariant % 2 ^ 6, clockSeqLow, node⟩
  else none

variable (u v : UUID)

def version : Int := u.timeHiVersion / 2 ^ 12

def time : Int := u.timeHiVersion % 2 ^ 12 * 2 ^ 48 + u.timeMid * 2 ^ 32 + u.timeLow

def lastBytes : List Int :=
  [u.clockSeqHiVariant, u.clockSeqLow, u.node / 2 ^ 40 % 2 ^ 8, u.node / 2 ^ 32 % 2 ^ 8, u.node / 2 ^ 24 % 2 ^ 8,
    u.node / 2 ^ 16 % 2 ^ 8, u.node / 2 ^ 8 % 2 ^ 8, u.node % 2 ^ 8]

def signedByte (b : Int) : Int := if b < 128 then b else b - 256

def bytesLe : List Int → List Int → Prop
  | [], _ => True
  | _ :: _, [] => False
  | a :: as, b :: bs => a < b ∨ a = b ∧ bytesLe as bs

/-- The order of Cassandra. -/
def le : Prop :=
  u.time < v.time ∨ u.time = v.time ∧ bytesLe (u.lastBytes.map signedByte) (v.lastBytes.map signedByte)

end UUID

open UUID

/-- From the `intervals` on. -/
def uuidFromTime (intervals node clockSeq : Int) : Option UUID :=
  if clockSeq > 0x3fff then none
  else
    ofFields (intervals % 2 ^ 32) (intervals / 2 ^ 32 % 2 ^ 16) (intervals / 2 ^ 48 % 2 ^ 12)
      (0x80 + clockSeq / 2 ^ 8 % 2 ^ 6) (clockSeq % 2 ^ 8) node 1

def minUuidFromTime (intervals : Int) : Option UUID := uuidFromTime intervals 0x808080808080 0x80

def maxUuidFromTime (intervals : Int) : Option UUID := uuidFromTime intervals 0x7f7f7f7f7f7f 0x3f7f

def lowestTimeUuid : UUID := ⟨0x00000000, 0x0000, 0x1000, 0x80, 0x80, 0x808080808080⟩

def highestTimeUuid : UUID := ⟨0xffffffff, 0xffff, 0x1fff, 0xbf, 0x7f, 0x7f7f7f7f7f7f⟩

theorem bytesLe_of_forall₂ {as bs : List Int} (h : List.Forall₂ (· ≤ ·) as bs) : bytesLe as bs := by
  induction h with
  | nil => trivial
  | cons hab _ ih => exact (Int.lt_or_eq_of_le hab).imp_right fun heq => ⟨heq, ih⟩

theorem uuidFromTime_eq {intervals node clockSeq : Int} (hn : 0 ≤ node ∧ node < 2 ^ 48) (hseq : clockSeq ≤ 0x3fff) :
    uuidFromTime intervals node clockSeq =
      some ⟨intervals % 2 ^ 32, intervals / 2 ^ 32 % 2 ^ 16, 2 ^ 12 + intervals / 2 ^ 48 % 2 ^ 12,
        0x80 + clockSeq / 2 ^ 8 % 2 ^ 6, clockSeq % 2 ^ 8, node⟩ := by
  unfold uuidFromTime ofFields
  rw [if_neg (by omega), if_pos (by omega), Option.some.injEq, UUID.mk.injEq]
  omega

theorem time_mk {n variant low node : Int} (hn : 0 ≤ n ∧ n < 2 ^ 60) :
    time ⟨n % 2 ^ 32, n / 2 ^ 32 % 2 ^ 16, 2 ^ 12 + n / 2 ^ 48 % 2 ^ 12, variant, low, node⟩ = n := by
  dsimp only [time]
  omega

theorem le_of_time_le {u v : UUID} (ht : u.time ≤ v.time)
    (hb : bytesLe (u.lastBytes.map signedByte) (v.lastBytes.map signedByte)) : u.le v :=
  (Int.lt_or_eq_of_le ht).imp_right fun heq => ⟨heq, hb⟩

theorem signedByte_bounds {b : Int} (h : 0 ≤ b ∧ b < 2 ^ 8) : -128 ≤ signedByte b ∧ signedByte b ≤ 127 := by
  unfold signedByte
  split <;> omega

/-- The bits of the variant keep the first byte below -64. -/
theorem lastBytes_bounds {u : UUID} (hhi : 0x80 ≤ u.clockSeqHiVariant ∧ u.clockSeqHiVariant < 0xc0)
    (hlow : 0 ≤ u.clockSeqLow ∧ u.clockSeqLow < 2 ^ 8) :
    bytesLe (List.replicate 8 (-128)) (u.lastBytes.map signedByte) ∧
      bytesLe (u.lastBytes.map signedByte) (-65 :: List.replicate 7 127) := by
  have hn : ∀ x, -128 ≤ signedByte (x % 2 ^ 8) ∧ signedByte (x % 2 ^ 8) ≤ 127 :=
    fun x => signedByte_bounds (by omega)
  have hf : -128 ≤ signedByte u.clockSeqHiVariant ∧ signedByte u.clockSeqHiVariant ≤ -65 := by
    unfold signedByte
    split <;> omega
  have hs := signedByte_bounds hlow
  constructor
  · exact bytesLe_of_forall₂ (.cons hf.1 (.cons hs.1 (.cons (hn _).1 (.cons (hn _).1 (.cons (hn _).1
      (.cons (hn _).1 (.cons (hn _).1 (.cons (hn _).1 .nil))))))))
  exact bytesLe_of_forall₂ (.cons hf.2 (.cons hs.2 (.cons (hn _).2 (.cons (hn _).2 (.cons (hn _).2
    (.cons (hn _).2 (.cons (hn _).2 (.cons (hn _).2 .nil))))))))

/-- **Bounds of a time.** -/
theorem uuidFromTime_bounds (n : Fin (2 ^ 60)) (node : Fin (2 ^ 48)) (clockSeq : Fin (2 ^ 14)) :
    ∃ u lo hi, uuidFromTime n.val node.val clockSeq.val = some u ∧ minUuidFromTime n.val = some lo ∧
      maxUuidFromTime n.val = some hi ∧ u.version = 1 ∧ u.time = n.val ∧ lo.le u ∧ u.le hi ∧
      lowestTimeUuid.le u ∧ u.le highestTimeUuid := by
  have hn : 0 ≤ (n.val : Int) ∧ (n.val : Int) < 2 ^ 60 := by omega
  obtain ⟨u, hu⟩ : ∃ u, uuidFromTime n.val node.val clockSeq.val = some u := ⟨_, uuidFromTime_eq (by omega) (by omega)⟩
  have hf := hu
  rw [uuidFromTime_eq (by omega) (by omega), Option.some.injEq] at hf
  have ht : u.time = n.val := by
    rw [← hf]
    exact time_mk hn
  have hb := @lastBytes_bounds u (by rw [← hf]; dsimp only; omega) (by rw [← hf]; dsimp only; omega)
  refine ⟨u, _, _, hu, uuidFromTime_eq (by decide) (by decide), uuidFromTime_eq (by decide) (by decide), ?_, ht,
    ?_, ?_, ?_, ?_⟩
  · rw [← hf]
    dsimp only [version]
    omega
  · exact le_of_time_le (Int.le_of_eq ((time_mk hn).trans ht.symm)) hb.1
  · exact le_of_time_le (Int.le_of_eq (ht.trans (time_mk hn).symm)) hb.2
  · exact le_of_time_le (ht ▸ hn.1) hb.1
  · exact le_of_time_le (ht ▸ Int.le_sub_one_of_lt hn.2) hb.2

end CqlDriver.Types
