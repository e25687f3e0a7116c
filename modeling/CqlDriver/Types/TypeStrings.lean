import CqlDriver.Lib.Reader
import CqlDriver.Lib.Traversal
import Mathlib.Data.List.Induction

/-!
# Type strings

`lookup_casstype`: the scanner, the stack of lists of types that `parse_casstype_args` keeps, and the registry of classes.
The parser is stated for any `Classes`, that is whatever names stand for and whatever parameters they take.
-/

namespace CqlDriver.Types

open Lib List

abbrev Name := List Char

/-! ## The scanner -/

inductive Token
  | lparen
  | rparen
  | name (tok : Name)
  deriving DecidableEq

/-- `[a-zA-Z0-9_.:=>]` -/
def isNameChar (c : Char) : Bool := c.isAlphanum || ['_', '.', ':', '=', '>'].contains c

def isBlank (c : Char) : Bool := c == ',' || isSpace c

def endWord (word : Name) (toks : List Token) : List Token := if word = [] then toks else .name word :: toks

def scanWord : Name → List Char → List Token × List Char
  | word, [] => (endWord word [], [])
  | word, c :: cs =>
    if isNameChar c then scanWord (word ++ [c]) cs
    else if c = '(' then (endWord word (.lparen :: (scanWord [] cs).1), (scanWord [] cs).2)
    else if c = ')' then (endWord word (.rparen :: (scanWord [] cs).1), (scanWord [] cs).2)
    else if isBlank c then (endWord word (scanWord [] cs).1, (scanWord [] cs).2)
    else (endWord word [], c :: cs)

def scan (typestring : List Char) : List Token × List Char := scanWord [] typestring

def splitName : Name → List Name
  | [] => [[]]
  | ':' :: rest => [] :: splitName rest
  | '=' :: '>' :: rest => [] :: splitName rest
  | c :: rest =>
    match splitName rest with
    | part :: parts => (c :: part) :: parts
    | [] => [[c]]

/-! ## The parser -/

/-- The last three come out of an `apply_parameters`. -/
inductive Raised
  | weirdCharacters (remainder : List Char)
  | numSubtypes (required given : Nat)
  | indexError
  | assertionError
  | valueError
  | otherError
  deriving DecidableEq

structure Classes (σ τ : Type) where
  lookupCasstypeSimple : σ → Name → τ × σ
  applyParameters : σ → τ → List τ → List (Option Name) → Except Raised (τ × σ)

abbrev Frame (τ : Type) := List (τ × Option Name)

variable {σ τ : Type} (classes : Classes σ τ)

/-- One token. The stack `args` has its top at the head. -/
def parseToken : σ × List (Frame τ) → Token → Except Raised (σ × List (Frame τ))
  | (registry, args), .lparen => .ok (registry, [] :: args)
  | (registry, frame :: prev :: args), .rparen =>
    match prev.getLast? with
    | none => .error .indexError
    | some (ctype, label) =>
      match classes.applyParameters registry ctype (frame.map Prod.fst) (frame.map Prod.snd) with
      | .ok (ctype, registry) => .ok (registry, (prev.dropLast ++ [(ctype, label)]) :: args)
      | .error e => .error e
  | (registry, frame :: args), .name tok =>
    let parts := splitName tok
    let (ctype, registry) := classes.lookupCasstypeSimple registry (parts.getLastD [])
    .ok (registry, (frame ++ [(ctype, parts.dropLast.head?)]) :: args)
  -- `args[-1]` of an empty stack
  | _, _ => .error .indexError

def parseCasstypeArgs (registry : σ) (typestring : List Char) : Except Raised (τ × σ) :=
  if (scan typestring).2 ≠ [] then .error (.weirdCharacters (scan typestring).2)
  else
    match (scan typestring).1.foldlM (parseToken classes) (registry, [[]]) with
    | .error e => .error e
    | .ok (registry, args) =>
      match args.getLast?.bind List.head? with
      | some (ctype, _) => .ok (ctype, registry)
      | none => .error .indexError

/-- A `ValueError` with the string and its cause, or what is not caught. -/
inductive LookupError
  | valueError (casstype : List Char) (cause : Raised)
  | otherError
  deriving DecidableEq

def lookupCasstype (registry : σ) (casstype : List Char) : Except LookupError (τ × σ) :=
  match parseCasstypeArgs classes registry casstype with
  | .ok result => .ok result
  | .error .otherError => .error .otherError
  | .error cause => .error (.valueError casstype cause)

/-! ## The classes -/

/-- `num_subtypes` is `none` for `'UNKNOWN'`. -/
inductive CassType
  | mk (cassname : Name) (numSubtypes : Option Nat) (subtypes : List CassType)

def CassType.cassname : CassType → Name
  | .mk cassname _ _ => cassname

/-- `_casstypes` -/
abbrev Registry := Name → Option CassType

/-- `CassandraTypeType.__new__` -/
def register (registry : Registry) (name : Name) (cls : CassType) : Registry :=
  if name.head? = some '_' then registry else Function.update registry name (some cls)

def apacheCassandraTypePrefix : Name := "org.apache.cassandra.db.marshal.".toList

def trimIfStartswith (s start : Name) : Name := if start.isPrefixOf s then s.drop start.length else s

def lookupCasstypeSimple (registry : Registry) (casstype : Name) : CassType × Registry :=
  let shortname := trimIfStartswith casstype apacheCassandraTypePrefix
  match registry shortname with
  | some typeclass => (typeclass, registry)
  -- `mkUnrecognizedType`
  | none => (.mk casstype none [], register registry casstype (.mk casstype none []))

/-- `', '.join(names)` -/
def joinNames : List Name → Name
  | [] => []
  | [name] => name
  | name :: names => name ++ [',', ' '] ++ joinNames names

def cassParameterizedTypeWith (cassname : Name) (sublist : List Name) (full : Bool) : Name :=
  let cname := if full ∧ '.' ∉ cassname then apacheCassandraTypePrefix ++ cassname else cassname
  if sublist = [] then cname else cname ++ '(' :: joinNames sublist ++ [')']

mutual

def cassParameterizedType (full : Bool) : CassType → Name
  | .mk cassname _ subtypes => cassParameterizedTypeWith cassname (cassParameterizedTypes full subtypes) full

def cassParameterizedTypes (full : Bool) : List CassType → List Name
  | [] => []
  | t :: ts => cassParameterizedType full t :: cassParameterizedTypes full ts

end

def hexValue (c : Char) : Option Nat :=
  if '0' ≤ c ∧ c ≤ '9' then some (c.toNat - 48)
  else if 'a' ≤ c ∧ c ≤ 'f' then some (c.toNat - 87)
  else if 'A' ≤ c ∧ c ≤ 'F' then some (c.toNat - 55)
  else none

/-- `none` is a `ValueError`: of `unhexlify`, or of a byte that is not ASCII. -/
def nameFromHexString : Name → Option Name
  | [] => some []
  | [_] => none
  | high :: low :: rest =>
    match hexValue high, hexValue low, nameFromHexString rest with
    | some h, some l, some name => if 16 * h + l < 128 then some (Char.ofNat (16 * h + l) :: name) else none
    | _, _, _ => none

/-- Whether `_cache` has a class with these very fields. They are compared by identity, so any answer is possible. -/
abbrev UdtCache := Registry → (keyspace udtName : Name) → (fieldNames : List Name) → List CassType → Bool

namespace UserType

/-- A class found in the cache has the same types, and is not registered again. -/
def makeUdtClass (cached : UdtCache) (registry : Registry) (keyspace udtName : Name) (fieldNames : List Name)
    (fieldTypes : List CassType) : Except Raised (CassType × Registry) :=
  let udtClass := CassType.mk "UserType".toList none fieldTypes
  if fieldNames.length ≠ fieldTypes.length then .error .assertionError
  else if cached registry keyspace udtName fieldNames fieldTypes then .ok (udtClass, registry)
  -- `type()` takes no name with a null character.
  else if Char.ofNat 0 ∈ udtName then .error .valueError
  else .ok (udtClass, register registry udtName udtClass)

def fieldName : Option Name → Except Raised Name
  -- a `TypeError`
  | none => .error .otherError
  | some encodedName =>
    match nameFromHexString encodedName with
    | some name => .ok name
    | none => .error .valueError

def applyParameters (cached : UdtCache) (registry : Registry) (subtypes : List CassType) (names : List (Option Name)) :
    Except Raised (CassType × Registry) :=
  match subtypes with
  | keyspace :: udt :: fieldTypes =>
    match nameFromHexString udt.cassname, (names.drop 2).mapM fieldName with
    | none, _ => .error .valueError
    | _, .error e => .error e
    | some udtName, .ok fieldNames =>
      makeUdtClass cached registry (cassParameterizedType false keyspace) udtName fieldNames fieldTypes
  | _ => .error .indexError

end UserType

def applyParameters (cached : UdtCache) (registry : Registry) (cls : CassType) (subtypes : List CassType)
    (names : List (Option Name)) : Except Raised (CassType × Registry) :=
  match cls with
  | .mk cassname numSubtypes _ =>
    if cassname = "UserType".toList then UserType.applyParameters cached registry subtypes names
    else if numSubtypes ≠ none ∧ numSubtypes ≠ some subtypes.length then
      .error (.numSubtypes (numSubtypes.getD 0) subtypes.length)
    else
      let newname := cassParameterizedTypeWith cassname (cassParameterizedTypes false subtypes) false
      .ok (.mk cassname numSubtypes subtypes, register registry newname (.mk cassname numSubtypes subtypes))

def typeClasses (cached : UdtCache) : Classes Registry CassType := ⟨lookupCasstypeSimple, applyParameters cached⟩

def simpleTypes : List Name :=
  ["BytesType", "DecimalType", "UUIDType", "BooleanType", "ByteType", "AsciiType", "FloatType", "DoubleType", "LongType",
    "Int32Type", "IntegerType", "InetAddressType", "CounterColumnType", "DateType", "TimestampType", "TimeUUIDType",
    "SimpleDateType", "ShortType", "TimeType", "DurationType", "UTF8Type", "VarcharType"].map String.toList

def parameterizedTypes : List (Name × Option Nat) :=
  [("ListType".toList, some 1), ("SetType".toList, some 1), ("MapType".toList, some 2), ("TupleType".toList, none),
    ("CompositeType".toList, none), ("FrozenType".toList, some 1), ("ReversedType".toList, some 1)]

def casstypes : List (Name × Option Nat) :=
  simpleTypes.map (·, some 0) ++ parameterizedTypes ++
    ["UserType", "DynamicCompositeType", "ColumnToCollectionType"].map (·.toList, none)

def initialRegistry : Registry := fun name =>
  (casstypes.lookup name).map fun numSubtypes => .mk name numSubtypes []

/-! ## The strings it reads -/

/-- Names, any of them followed by lists of parameters that it takes. -/
inductive Complete : σ → List Token → Frame τ → σ → Prop
  | nil (registry : σ) : Complete registry [] [] registry
  | name {registry registry' : σ} {toks : List Token} {frame : Frame τ} (tok : Name) :
      Complete registry toks frame registry' →
      Complete registry (toks ++ [.name tok])
        (frame ++ [((classes.lookupCasstypeSimple registry' ((splitName tok).getLastD [])).1,
          (splitName tok).dropLast.head?)])
        (classes.lookupCasstypeSimple registry' ((splitName tok).getLastD [])).2
  | group {r₀ r₁ r₂ r₃ : σ} {toks inner : List Token} {frame params : Frame τ} {ctype ctype' : τ}
      {label : Option Name} :
      Complete r₀ toks (frame ++ [(ctype, label)]) r₁ → Complete r₁ inner params r₂ →
      classes.applyParameters r₂ ctype (params.map Prod.fst) (params.map Prod.snd) = .ok (ctype', r₃) →
      Complete r₀ (toks ++ .lparen :: inner ++ [.rparen]) (frame ++ [(ctype', label)]) r₃

/-- Complete types, and after them lists that were opened and not closed. -/
inductive Nested : σ → List Token → List (Frame τ) → σ → Prop
  | outermost {registry registry' : σ} {toks : List Token} {frame : Frame τ} :
      Complete classes registry toks frame registry' → Nested registry toks [frame] registry'
  | inner {r₀ r₁ r₂ : σ} {toks inner : List Token} {args : List (Frame τ)} {frame : Frame τ} :
      Nested r₀ toks args r₁ → Complete classes r₁ inner frame r₂ →
      Nested r₀ (toks ++ .lparen :: inner) (frame :: args) r₂

variable {classes} {registry registry' r₀ r₁ r₂ : σ} {toks toks' : List Token} {frame fr' : Frame τ}
  {args : List (Frame τ)}

theorem Complete.append (h : Complete classes r₀ toks frame r₁) (h' : Complete classes r₁ toks' fr' r₂) :
    Complete classes r₀ (toks ++ toks') (frame ++ fr') r₂ := by
  induction h' with
  | nil => simpa using h
  | name tok _ ih =>
    rw [← append_assoc, ← append_assoc]
    exact .name tok (ih h)
  | group _ hi ha ih =>
    have := ih h
    rw [← append_assoc] at this
    have := Complete.group this hi ha
    simpa only [append_assoc] using this

theorem Complete.parse (h : Complete classes registry toks frame registry') (args : List (Frame τ)) :
    toks.foldlM (parseToken classes) (registry, [] :: args) = .ok (registry', frame :: args) := by
  induction h generalizing args with
  | nil => rfl
  | name tok _ ih =>
    rw [foldlM_append, ih]
    rfl
  | group _ _ ha ih ih' =>
    rw [append_assoc, foldlM_append, ih]
    change foldlM _ (_, [] :: _) (_ ++ [_]) = _
    rw [foldlM_append, ih']
    change (parseToken classes _ _ >>= pure) = _
    simp [parseToken, ha]

theorem Nested.parse (h : Nested classes registry toks args registry') :
    toks.foldlM (parseToken classes) (registry, [[]]) = .ok (registry', args) := by
  induction h with
  | outermost h => exact h.parse []
  | inner _ h ih =>
    rw [foldlM_append, ih]
    exact h.parse _

theorem Nested.extend (h : Nested classes r₀ toks (frame :: args) r₁)
    (hs : ∀ r bef, Complete classes r bef frame r₁ → Complete classes r (bef ++ toks') fr' r₂) :
    Nested classes r₀ (toks ++ toks') (fr' :: args) r₂ := by
  cases h with
  | outermost h => exact .outermost (hs _ _ h)
  | inner ha h =>
    rw [append_assoc]
    exact .inner ha (hs _ _ h)

theorem Nested.step {tok : Token} (h : Nested classes r₀ toks args r₁) {args' : List (Frame τ)}
    (hs : parseToken classes (r₁, args) tok = .ok (r₂, args')) : Nested classes r₀ (toks ++ [tok]) args' r₂ := by
  cases tok with
  | lparen =>
    cases hs
    exact .inner h (.nil _)
  | name tok =>
    cases args with
    | nil => cases hs
    | cons frame args =>
      cases hs
      exact h.extend fun _ _ hc => .name tok hc
  | rparen =>
    match args, h with
    | [], _ | [_], _ => cases hs
    | frame :: prev :: args, .inner har hi =>
      rw [parseToken] at hs
      cases hl : prev.getLast? with
      | none =>
        rw [hl] at hs
        cases hs
      | some last =>
        obtain ⟨fr, rfl⟩ := getLast?_eq_some_iff.mp hl
        rw [hl] at hs
        simp only [dropLast_concat] at hs
        split at hs
        · rename_i ha
          cases hs
          rw [append_assoc]
          exact har.extend fun _ _ hc => by
            simpa only [append_assoc] using Complete.group hc hi ha
        · cases hs

theorem parse_iff : toks.foldlM (parseToken classes) (registry, [[]]) = .ok (registry', args) ↔
    Nested classes registry toks args registry' := by
  refine ⟨fun h => ?_, Nested.parse⟩
  induction toks using reverseRecOn generalizing registry' args with
  | nil =>
    cases h
    exact .outermost (.nil _)
  | append_singleton toks tok ih =>
    rw [foldlM_append] at h
    cases hf : toks.foldlM (parseToken classes) (registry, [[]]) with
    | error e =>
      rw [hf] at h
      cases h
    | ok s =>
      rw [hf] at h
      exact (ih hf).step ((bind_pure _).symm.trans h)

/-! ## Malformed strings -/

/-- The open parentheses and the outermost types so far. -/
def levelStep : Nat × Nat → Token → Option (Nat × Nat)
  | (depth, types), .lparen => some (depth + 1, types)
  | (0, _), .rparen => none
  | (depth + 1, types), .rparen => some (depth, types)
  | (0, types), .name _ => some (0, types + 1)
  | (depth + 1, types), .name _ => some (depth + 1, types)

def levels (toks : List Token) : Option (Nat × Nat) := toks.foldlM levelStep (0, 0)

/-- Unbalanced, or not exactly one type outside. -/
def Malformed (toks : List Token) : Prop := levels toks ≠ some (0, 1)

instance (toks : List Token) : Decidable (Malformed toks) := inferInstanceAs (Decidable (_ ≠ _))

theorem Complete.levels (h : Complete classes registry toks frame registry') (depth types : Nat) :
    toks.foldlM levelStep (depth, types) = some (depth, if depth = 0 then types + frame.length else types) := by
  induction h generalizing depth types with
  | nil => simp
  | name tok _ ih =>
    rw [foldlM_append, ih]
    cases depth <;> simp [levelStep, Nat.add_assoc]
  | group _ _ _ ih ih' =>
    rw [append_assoc, foldlM_append, ih]
    change foldlM levelStep (depth + 1, _) (_ ++ [_]) = _
    rw [foldlM_append, ih']
    simp [levelStep]

theorem Nested.levels (h : Nested classes registry toks args registry') :
    ∃ frame, args.getLast? = some frame ∧ Types.levels toks = some (args.length - 1, frame.length) := by
  induction h with
  | @outermost _ _ frame h => exact ⟨frame, rfl, by simpa [Types.levels] using h.levels 0 0⟩
  | @inner _ _ toks inner args top _ h ih =>
    obtain ⟨frame, hl, hlv⟩ := ih
    have hpos : args ≠ [] := by
      rintro rfl
      cases hl
    refine ⟨frame, by rw [getLast?_cons, hl]; rfl, ?_⟩
    rw [Types.levels, foldlM_append, show toks.foldlM levelStep (0, 0) = _ from hlv]
    change foldlM levelStep (args.length - 1 + 1, _) _ = _
    rw [h.levels]
    have := length_pos_of_ne_nil hpos
    simp only [length_cons]
    congr 2
    omega

variable (classes) (registry toks)

/-- An open parenthesis, or a second type outside. -/
def SlipsThrough : Prop :=
  ∃ (args : List (Frame τ)) (registry' : σ) (frame : Frame τ), Nested classes registry toks args registry' ∧
    args.getLast? = some frame ∧ frame ≠ [] ∧ (1 < args.length ∨ 1 < frame.length)

def Escapes : Prop :=
  ∃ (front back : List Token) (frame prev : Frame τ) (ctype : τ) (label : Option Name) (args : List (Frame τ))
    (registry' : σ), toks = front ++ .rparen :: back ∧
    Nested classes registry front (frame :: (prev ++ [(ctype, label)]) :: args) registry' ∧
    classes.applyParameters registry' ctype (frame.map Prod.fst) (frame.map Prod.snd) = .error .otherError

variable {classes registry toks}

theorem parseToken_otherError {tok : Token} (h : parseToken classes (registry, args) tok = .error .otherError) :
    ∃ frame prev ctype label rest, tok = .rparen ∧ args = frame :: (prev ++ [(ctype, label)]) :: rest ∧
      classes.applyParameters registry ctype (frame.map Prod.fst) (frame.map Prod.snd) = .error .otherError := by
  match args, tok with
  | _, .lparen | [], .name _ | _ :: _, .name _ | [], .rparen | [_], .rparen => cases h
  | frame :: prev :: rest, .rparen =>
    rw [parseToken] at h
    cases hl : prev.getLast? with
    | none =>
      rw [hl] at h
      cases h
    | some last =>
      obtain ⟨fr, rfl⟩ := getLast?_eq_some_iff.mp hl
      refine ⟨frame, fr, last.1, last.2, rest, rfl, rfl, ?_⟩
      rw [hl] at h
      simp only at h
      split at h
      · cases h
      rename_i ha
      exact ha.trans (congrArg _ (Except.error.inj h))

theorem parse_otherError_iff :
    toks.foldlM (parseToken classes) (registry, [[]]) = .error .otherError ↔ Escapes classes registry toks := by
  rw [foldlM_eq_error]
  constructor
  · rintro ⟨fr, tok, back, ⟨registry', args⟩, rfl, hf, he⟩
    obtain ⟨frame, prev, ctype, label, rest, rfl, rfl, ha⟩ := parseToken_otherError he
    exact ⟨fr, back, frame, prev, ctype, label, rest, registry', rfl, parse_iff.mp hf, ha⟩
  rintro ⟨fr, back, frame, prev, ctype, label, rest, registry', rfl, hf, ha⟩
  refine ⟨fr, .rparen, back, _, rfl, parse_iff.mpr hf, ?_⟩
  simp [parseToken, ha]

theorem lookupCasstype_eq {casstype : List Char} (hs : scan casstype = (toks, [])) :
    lookupCasstype classes registry casstype = match toks.foldlM (parseToken classes) (registry, [[]]) with
      | .error .otherError => .error .otherError
      | .error cause => .error (.valueError casstype cause)
      | .ok (registry, args) =>
        match args.getLast?.bind head? with
        | some (ctype, _) => .ok (ctype, registry)
        | none => .error (.valueError casstype .indexError) := by
  rw [lookupCasstype, parseCasstypeArgs, hs]
  cases toks.foldlM (parseToken classes) (registry, [[]]) with
  | error e => cases e <;> rfl
  | ok s =>
    simp only [ne_eq]
    cases s.2.getLast?.bind head? <;> rfl

/-- Malformed strings are refused, unless one slips through or `apply_parameters` raises. -/
theorem lookupCasstype_malformed_iff (classes : Classes σ τ) (registry : σ) (casstype : List Char) (toks : List Token)
    (hscan : scan casstype = (toks, [])) (h : Malformed toks) :
    (∃ cause, lookupCasstype classes registry casstype = .error (.valueError casstype cause)) ↔
      ¬ SlipsThrough classes registry toks ∧ ¬ Escapes classes registry toks := by
  rw [lookupCasstype_eq hscan, ← parse_otherError_iff]
  cases hrun : toks.foldlM (parseToken classes) (registry, [[]]) with
  | error e =>
    have hs : ¬ SlipsThrough classes registry toks := by
      rintro ⟨args, registry', frame, hn, -⟩
      rw [parse_iff.mpr hn] at hrun
      exact absurd hrun nofun
    cases e <;> simp [hs]
  | ok s =>
    obtain ⟨registry', args⟩ := s
    have hn := parse_iff.mp hrun
    obtain ⟨frame, hl, hlv⟩ := hn.levels
    simp only [hl, Option.bind_some]
    cases frame with
    | nil =>
      have hs : ¬ SlipsThrough classes registry toks := by
        rintro ⟨args', registry'', frame, hn', hl', hne, -⟩
        rw [parse_iff.mpr hn', Except.ok.injEq, Prod.mk.injEq] at hrun
        rw [hrun.2, hl] at hl'
        exact hne (Option.some.inj hl').symm
      simp [hs]
    | cons outer frame =>
      have hs : SlipsThrough classes registry toks := by
        refine ⟨args, registry', outer :: frame, hn, hl, by simp, ?_⟩
        -- Balanced parentheses and one outermost type are what was excluded.
        by_contra hone
        apply h
        rw [hlv]
        simp only [length_cons] at hone ⊢
        congr 2 <;> omega
      simp [hs]

theorem lookupCasstype_closes_nothing :
    (∃ cause, lookupCasstype (typeClasses fun _ _ _ _ _ => false) initialRegistry "AsciiType)".toList =
      .error (.valueError "AsciiType)".toList cause)) ∧
    ¬ SlipsThrough (typeClasses fun _ _ _ _ _ => false) initialRegistry (scan "AsciiType)".toList).1 :=
  have hlk := ⟨.indexError, rfl⟩
  ⟨hlk, ((lookupCasstype_malformed_iff _ _ _ _ rfl (by decide +kernel)).mp hlk).1⟩

/-- A parenthesis that is not closed and a second outermost type go unnoticed. -/
theorem lookupCasstype_lenient : (Malformed (scan "AsciiType(UTF8Type".toList).1 ∧
      (lookupCasstype (typeClasses fun _ _ _ _ _ => false) initialRegistry "AsciiType(UTF8Type".toList).map
        (·.1.cassname) = .ok "AsciiType".toList) ∧ Malformed (scan "AsciiType, UTF8Type".toList).1 ∧
      (lookupCasstype (typeClasses fun _ _ _ _ _ => false) initialRegistry "AsciiType, UTF8Type".toList).map
        (·.1.cassname) = .ok "AsciiType".toList := by
  refine ⟨⟨by decide +kernel, by rfl⟩, by decide +kernel, by rfl⟩

end CqlDriver.Types
