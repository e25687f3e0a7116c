import CqlDriver.Decoding.Types
import CqlDriver.Types.SortedSet
import Mathlib.Data.List.Lex

/-!
# Comparing decoded values

`==` and `<` of Python 3 for the objects that encodings become. The classes of user types are the
named tuples that the driver makes, and compare as tuples.
-/

namespace CqlDriver.Decoding

open Lib CqlDriver.Types

structure InetText where
  text : Bytes → List Char
  injective : ∀ a b : Bytes, a.length = 4 ∨ a.length = 16 → b.length = 4 ∨ b.length = 16 → text a = text b → a = b

/-! ## Floats -/

def floatOrder {w : Nat} (bits : BitVec w) : ℤ :=
  if bits.msb then -(bits.toNat % 2 ^ (w - 1) : Nat) else bits.toNat

def isNaN {w : Nat} (infinity : Nat) (bits : BitVec w) : Bool := infinity < bits.toNat % 2 ^ (w - 1)

def floatLt {w : Nat} (infinity : Nat) (a b : BitVec w) : Bool :=
  !isNaN infinity a && !isNaN infinity b && floatOrder a < floatOrder b

def floatEq {w : Nat} (infinity : Nat) (a b : BitVec w) : Bool :=
  !isNaN infinity a && !isNaN infinity b && floatOrder a = floatOrder b

def singleInfinity : Nat := 0x7f800000

def doubleInfinity : Nat := 0x7ff0000000000000

/-! ## Values -/

def decimalValue (unscaled exponent : ℤ) : ℚ := unscaled * 10 ^ exponent

section

variable (inet : InetText)

mutual

/-- `SortedSet`s and `OrderedMap`s compare their items in order. -/
def valueEq : Value → Value → Bool
  | .none, .none => true
  | .empty, .empty => true
  | .bytes a, .bytes b => a = b
  | .str a, .str b => a = b
  | .bool a, .bool b => a = b
  | .int a, .int b => a = b
  | .float a, .float b => floatEq singleInfinity a b
  | .double a, .double b => floatEq doubleInfinity a b
  | .decimal u e, .decimal u' e' => decimalValue u e = decimalValue u' e'
  | .uuid a, .uuid b => a = b
  | .inet a, .inet b => inet.text a = inet.text b
  | .datetime a, .datetime b => a.micros = b.micros
  | .date a, .date b => a = b
  | .time a, .time b => a = b
  | .list as, .list bs | .set as, .set bs | .tuple as, .tuple bs | .user _ as, .user _ bs | .tuple as, .user _ bs
  | .user _ as, .tuple bs => valueEqList as bs
  | .map _ _ as _, .map _ _ bs _ => valueEqPairs as bs
  | _, _ => false

def valueEqList : List Value → List Value → Bool
  | [], [] => true
  | a :: as, b :: bs => valueEq a b && valueEqList as bs
  | _, _ => false

def valueEqPairs : List (Value × Value) → List (Value × Value) → Bool
  | [], [] => true
  | (k, a) :: as, (k', b) :: bs => valueEq k k' && valueEq a b && valueEqPairs as bs
  | _, _ => false

end

/-- Byte by byte or character by character. -/
def codesLt (a b : List Nat) : Bool := a < b

/-- The first pair of different items decides. -/
def ltItems (lt : Value → Value → Option Bool) : List Value → List Value → Option Bool
  | [], [] => some false
  | [], _ :: _ => some true
  | _ :: _, [] => some false
  | a :: as, b :: bs => if valueEq inet a b then ltItems lt as bs else lt a b

/-- For values nested less than `n` deep; `none` is the `TypeError`. -/
def valueLt : Nat → Value → Value → Option Bool
  | 0, _, _ => none
  | n + 1, v, w =>
    match v, w with
    | .bytes a, .bytes b | .uuid a, .uuid b => some (codesLt (a.map UInt8.toNat) (b.map UInt8.toNat))
    | .str a, .str b => some (codesLt (a.map Char.toNat) (b.map Char.toNat))
    | .inet a, .inet b => some (codesLt ((inet.text a).map Char.toNat) ((inet.text b).map Char.toNat))
    | .bool a, .bool b => some (!a && b)
    | .int a, .int b | .date a, .date b | .time a, .time b => some (a < b)
    | .float a, .float b => some (floatLt singleInfinity a b)
    | .double a, .double b => some (floatLt doubleInfinity a b)
    | .decimal u e, .decimal u' e' => some (decimalValue u e < decimalValue u' e')
    | .datetime a, .datetime b => some (a.micros < b.micros)
    | .list as, .list bs | .tuple as, .tuple bs | .user _ as, .user _ bs | .tuple as, .user _ bs
    | .user _ as, .tuple bs => ltItems inet (valueLt n) as bs
    | .set as, .set bs => SortedSet.less (valueLt n) (valueEq inet) as bs
    | _, _ => none

theorem valueLt_none {n : Nat} {v : Value} : valueLt inet n .none v = none ∧ valueLt inet n v .none = none := by
  cases n with
  | zero => exact ⟨rfl, rfl⟩
  | succ n => cases v <;> simp [valueLt]

end

def Env.comparing (env : Env) (inet : InetText) (n : Nat) : Env := { env with lt := valueLt inet n, eq := valueEq inet }

end CqlDriver.Decoding
