import Mathlib.Data.Nat.Digits.Defs

/-! # Values as CQL literals -/

namespace CqlDriver.Literals

/-- A Python `str`: its code points, a lone surrogate among them or not. -/
abbrev Text := List Nat

def ch (c : Char) : Nat := c.toNat

def text (s : String) : Text := s.toList.map ch

structure UUID where
  bytes : List UInt8
  size : bytes.length = 16

/-- Sets and dicts are lists in the order of iteration. -/
inductive PyValue
  | none
  | str (s : Text)
  | bytes (b : List UInt8)
  | bool (b : Bool)
  | int (n : Int)
  | uuid (u : UUID)
  | list (xs : List PyValue)
  | tuple (xs : List PyValue)
  | set (xs : List PyValue)
  | frozenset (xs : List PyValue)
  | dict (entries : List (PyValue × PyValue))

/-! ## `str` of the scalars -/

def decimal (n : Nat) : Text := if n = 0 then [ch '0'] else (Nat.digits 10 n).reverse.map (ch '0' + ·)

def strInt : Int → Text
  | .ofNat n => decimal n
  | .negSucc n => ch '-' :: decimal (n + 1)

def hexDigit (n : Nat) : Nat := if n < 10 then ch '0' + n else ch 'a' + (n - 10)

def hexlify (b : List UInt8) : Text := b.flatMap fun x => [hexDigit (x.toNat / 16), hexDigit (x.toNat % 16)]

def strUUID (u : UUID) : Text :=
  let hex := hexlify u.bytes
  hex.take 8 ++ ch '-' :: (hex.drop 8).take 4 ++ ch '-' :: (hex.drop 12).take 4 ++ ch '-' :: (hex.drop 16).take 4 ++
    ch '-' :: hex.drop 20

def strBool (b : Bool) : Text := if b then text "True" else text "False"

/-! ## The encoders -/

def doubleQuotes (s : Text) : Text := s.flatMap fun c => if c = ch '\'' then [c, c] else [c]

def cqlQuote (term : Text) : Text := ch '\'' :: doubleQuotes term ++ [ch '\'']

def cqlEncodeNone : Text := text "NULL"

def cqlEncodeStr (val : Text) : Text := cqlQuote val

def cqlEncodeBytes (val : List UInt8) : Text := text "0x" ++ hexlify val

def joinComma (parts : List Text) : Text := (text ", ").intercalate parts

mutual

/-- `bool` is left to `str`, and tuples are like lists. -/
def cqlEncodeAllTypes : PyValue → Text
  | .none => cqlEncodeNone
  | .str s => cqlEncodeStr s
  | .bytes b => cqlEncodeBytes b
  | .bool b => strBool b
  | .int n => strInt n
  | .uuid u => strUUID u
  | .list xs | .tuple xs => ch '[' :: joinComma (encodeItems xs) ++ [ch ']']
  | .set xs | .frozenset xs => ch '{' :: joinComma (encodeItems xs) ++ [ch '}']
  | .dict entries => ch '{' :: joinComma (encodeEntries entries) ++ [ch '}']

def encodeItems : List PyValue → List Text
  | [] => []
  | x :: xs => cqlEncodeAllTypes x :: encodeItems xs

def encodeEntries : List (PyValue × PyValue) → List Text
  | [] => []
  | (k, v) :: entries => (cqlEncodeAllTypes k ++ text ": " ++ cqlEncodeAllTypes v) :: encodeEntries entries

end

/-! ## Queries -/

/-- `query % args`; `none` for other conversions or a wrong count. -/
def formatPercent : Text → List Text → Option Text
  | [], [] => some []
  | [], _ :: _ => none
  | [c], args => if c = ch '%' ∨ args ≠ [] then none else some [c]
  | c :: d :: rest, args =>
    if c = ch '%' then
      if d = ch 's' then
        match args with
        | [] => none
        | arg :: args => (formatPercent rest args).map (arg ++ ·)
      else if d = ch '%' then (formatPercent rest args).map (ch '%' :: ·)
      else none
    else (formatPercent (d :: rest) args).map (c :: ·)

def bindParams (query : Text) (params : List PyValue) : Option Text :=
  formatPercent query (params.map cqlEncodeAllTypes)

example : bindParams (text "a = %s") [.str (text "it's")] = some (text "a = 'it''s'") := by decide +kernel

end CqlDriver.Literals
