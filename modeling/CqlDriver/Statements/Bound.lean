import CqlDriver.Decoding.Python
import CqlDriver.Lib.Traversal

/-! # Bound statements -/

namespace CqlDriver.Statements

open Lib List Decoding.Python

/-- `bind` makes the first two a `TypeError`. -/
inductive SerializeError
  | typeError
  | structError
  | other

structure Column (α : Type) where
  name : String
  keyspaceName : String
  serialize : α → Nat → Except SerializeError Bytes

abbrev Payload := Dict String Bytes

/-- The indexes are empty where `routing_key_indexes` is `None`. -/
structure PreparedStatement (α : Type) where
  columnMetadata : List (Column α)
  queryId : Bytes
  routingKeyIndexes : List Nat
  protocolVersion : Nat
  customPayload : Option Payload

inductive Arg (α : Type)
  | none
  | unset
  | value (a : α)

inductive Values (α : Type)
  | sequence (values : List (Arg α))
  | dict (values : List (String × Arg α))

inductive BoundValue
  | none
  | unset
  | bytes (b : Bytes)
  deriving DecidableEq

inductive BindError
  | columnNotFound (name : String)
  | tooMany (got expected : Nat)
  | tooFew (got required : Nat)
  | unsetUnsupported (protocolVersion : Nat)
  | unsetRoutingKey (name : String)
  | invalidType (name : String)
  | serialize
  | indexError

structure BoundStatement (α : Type) where
  preparedStatement : PreparedStatement α
  values : List BoundValue
  cachedKey : BoundValue
  keyspace : Option String
  customPayload : Option Payload

variable {α : Type}

namespace PreparedStatement

variable (prepared : PreparedStatement α)

def isRoutingKeyIndex (i : Nat) : Bool := prepared.routingKeyIndexes.contains i

def argument (values : List (String × Arg α)) (col : Column α) : Except BindError (Arg α) :=
  match values.lookup col.name with
  | some value => .ok value
  | none => if 4 ≤ prepared.protocolVersion then .ok .unset else .error (.columnNotFound col.name)

def arguments : Values α → Except BindError (List (Arg α))
  | .sequence values => .ok values
  | .dict values => prepared.columnMetadata.mapM (prepared.argument values)

/-- An error comes with the values as they are then. -/
def appendUnsetValue (values : List BoundValue) : Except (BindError × List BoundValue) (List BoundValue) :=
  if prepared.isRoutingKeyIndex values.length then
    match prepared.columnMetadata[values.length]? with
    | some col => .error (.unsetRoutingKey col.name, values)
    | none => .error (.indexError, values)
  else .ok (values ++ [.unset])

def bindValue (values : List BoundValue) : Arg α × Column α → Except (BindError × List BoundValue) (List BoundValue)
  | (.none, _) => .ok (values ++ [.none])
  | (.unset, _) =>
    if 4 ≤ prepared.protocolVersion then prepared.appendUnsetValue values
    else .error (.unsetUnsupported prepared.protocolVersion, values)
  | (.value a, col) =>
    match col.serialize a prepared.protocolVersion with
    | .ok b => .ok (values ++ [.bytes b])
    | .error .other => .error (.serialize, values)
    | .error _ => .error (.invalidType col.name, values)

def bindValues (args : List (Arg α)) : Except (BindError × List BoundValue) (List BoundValue) := do
  let values ← (args.zip prepared.columnMetadata).foldlM prepared.bindValue []
  if 4 ≤ prepared.protocolVersion then
    (List.range (prepared.columnMetadata.length - values.length)).foldlM
      (fun values _ => prepared.appendUnsetValue values) values
  else return values

/-- The values that `bind` writes, and whether it raises. -/
def bound (values : Values α) : Except (BindError × Option (List BoundValue)) (List BoundValue) :=
  match prepared.arguments values with
  | .error e => .error (e, none)
  | .ok args =>
    if prepared.columnMetadata.length < args.length then
      .error (.tooMany args.length prepared.columnMetadata.length, none)
    else if prepared.protocolVersion < 4 ∧ prepared.routingKeyIndexes ≠ [] ∧
        args.length < prepared.routingKeyIndexes.length then
      .error (.tooFew args.length prepared.routingKeyIndexes.length, none)
    else (prepared.bindValues args).mapError fun e => (e.1, some e.2)

end PreparedStatement

namespace BoundStatement

def new (preparedStatement : PreparedStatement α) (routingKey : Option Bytes) : BoundStatement α where
  preparedStatement := preparedStatement
  values := []
  cachedKey := routingKey.elim .none .bytes
  keyspace := preparedStatement.columnMetadata.head?.map Column.keyspaceName
  customPayload := preparedStatement.customPayload

def bind (s : BoundStatement α) (values : Values α) : BoundStatement α × Option BindError :=
  match s.preparedStatement.bound values with
  | .ok values => ({ s with values }, none)
  | .error (e, some values) => ({ s with values }, some e)
  | .error (e, none) => (s, some e)

end BoundStatement

/-! ## Routing keys -/

inductive KeyError
  | indexError
  | typeError
  | structError
  deriving DecidableEq

/-- `struct.pack(">H%dsB" % l, l, p, 0)`; `None` and `UNSET_VALUE` have no length. -/
def keyPart : BoundValue → Except KeyError Bytes
  | .bytes p => (packUnsigned 2 p.length).elim (.error .structError) fun l => .ok (l ++ (p ++ [0]))
  | _ => .error .typeError

/-- `b"".join(_key_parts_packed(parts))`, where taking the next part may raise. -/
def keyPartsPacked (parts : List (Except KeyError BoundValue)) : Except KeyError Bytes :=
  (parts.mapM fun p => p >>= keyPart).map List.flatten

def valueAt (values : List BoundValue) (i : Nat) : Except KeyError BoundValue :=
  match values[i]? with
  | some v => .ok v
  | none => .error .indexError

def PreparedStatement.buildKey (prepared : PreparedStatement α) (values : List BoundValue) : Except KeyError BoundValue :=
  match prepared.routingKeyIndexes with
  | [] => .ok .none
  | [i] => valueAt values i
  | indexes => (keyPartsPacked (indexes.map (valueAt values))).map .bytes

def BoundStatement.routingKey (s : BoundStatement α) : BoundStatement α × Except KeyError BoundValue :=
  if s.preparedStatement.routingKeyIndexes = [] then (s, .ok .none)
  else if s.cachedKey ≠ .none then (s, .ok s.cachedKey)
  else
    match s.preparedStatement.buildKey s.values with
    | .ok key => ({ s with cachedKey := key }, .ok key)
    | .error e => (s, .error e)

/-! ## Composite keys -/

theorem keyPart_bytes (p : Bytes) :
    keyPart (.bytes p) = if p.length < 65536 then .ok (beEncode 2 p.length ++ (p ++ [0])) else .error .structError := by
  have hp : keyPart (.bytes p) = (packUnsigned 2 p.length).elim (.error .structError) fun l => .ok (l ++ (p ++ [0])) := rfl
  rw [hp, packUnsigned_natCast, show 256 ^ 2 = 65536 by norm_num]
  split <;> rfl

def compositeKey (parts : List Bytes) : Bytes := parts.flatMap fun p => beEncode 2 p.length ++ (p ++ [0])

theorem keyPartsPacked_cons (part : Except KeyError BoundValue) (pts : List (Except KeyError BoundValue)) :
    keyPartsPacked (part :: pts) = (part >>= keyPart) >>= fun b => (keyPartsPacked pts).map (b ++ ·) := by
  unfold keyPartsPacked
  rw [mapM_cons]
  cases part >>= keyPart with
  | error e => rfl
  | ok b =>
    cases pts.mapM fun p => p >>= keyPart with
    | error e => rfl
    | ok bs => rfl

theorem ok_bind (v : BoundValue) (f : BoundValue → Except KeyError Bytes) : (Except.ok v >>= f) = f v := rfl

variable {pts : List Bytes} {env : Decoding.Env} {ver n : Nat}

theorem keyPartsPacked_bytes : keyPartsPacked (pts.map fun p => .ok (.bytes p)) =
      if ∀ p ∈ pts, p.length < 65536 then .ok (compositeKey pts) else .error .structError := by
  induction pts with
  | nil => rfl
  | cons p pts ih =>
    have hf : (∀ q ∈ p :: pts, q.length < 65536) ↔ p.length < 65536 ∧ ∀ q ∈ pts, q.length < 65536 :=
      forall_mem_cons
    rw [map_cons, keyPartsPacked_cons, ih, ok_bind, keyPart_bytes]
    by_cases hp : p.length < 65536
    · rw [if_pos hp]
      by_cases hall : ∀ q ∈ pts, q.length < 65536
      · rw [if_pos hall, if_pos (hf.mpr ⟨hp, hall⟩)]
        rfl
      rw [if_neg hall, if_neg fun h => hall (hf.mp h).2]
      rfl
    rw [if_neg hp, if_neg fun h => hp (hf.mp h).1]
    rfl

theorem fromBinary_bytes (b : Bytes) : fromBinary env (.scalar .bytes) (some b) ver = some (.bytes b) := by
  simp [fromBinary, fromBinaryWith, Decoding.CqlType.emptyBinaryOk, deserializeWith, deserializeScalar]

theorem readComponents_part (sub : Decoding.Decoder) (subs : List Decoding.Decoder) {p : Bytes}
    (hp : p.length < 65536) (rest : Bytes) :
    readComponents ver (sub :: subs) (beEncode 2 p.length ++ (p ++ [0]) ++ rest) = (sub (some p) ver).bind fun v =>
        (readComponents ver subs rest).map (v :: ·) := by
  rw [append_assoc, append_assoc, singleton_append]
  have hlen : (beEncode 2 p.length).length = 2 := beEncode_length _ _
  have hpc : unpackUnsigned 2 (beEncode 2 p.length) = some (p.length : Int) := by
    rw [unpackUnsigned, if_pos hlen, beDecode_beEncode, Nat.mod_eq_of_lt (by norm_num; omega)]
  have hs := slice_middle (beEncode 2 p.length) p (0 :: rest)
  generalize beEncode 2 p.length = l at *
  rw [hlen, Nat.cast_ofNat] at hs
  have hd : (l ++ (p ++ 0 :: rest)).drop (2 + (p.length : Int) + 1).toNat = rest := by
    rw [show (2 + (p.length : Int) + 1).toNat = 2 + (p.length + 1) by omega, ← drop_drop, drop_left' hlen,
      ← drop_drop, drop_left]
    rfl
  rw [readComponents, if_neg (by simp), take_left' hlen, hpc]
  simp only [Option.bind_eq_bind, Option.bind_some, hs, hd]
  cases sub (some p) ver with
  | none => rfl
  | some v => cases readComponents ver subs rest <;> rfl

theorem readComponents_compositeKey (hn : pts.length ≤ n) (h : ∀ p ∈ pts, p.length < 65536) :
    readComponents ver (replicate n (fromBinary env (.scalar .bytes)))
      (compositeKey pts) = some (pts.map .bytes) := by
  induction pts generalizing n with
  | nil => cases n <;> rfl
  | cons p pts ih =>
    cases n with
    | zero => simp at hn
    | succ n =>
      rw [length_cons, Nat.add_le_add_iff_right] at hn
      obtain ⟨hp, h⟩ := forall_mem_cons.mp h
      rw [compositeKey, flatMap_cons, replicate_succ, readComponents_part _ _ hp, fromBinary_bytes]
      exact congrArg (Option.map _) (ih hn h)

theorem fromBinary_composite_bytes (hn : n ≠ 0) {key : Bytes} (hkey : key ≠ []) :
    fromBinary env (.composite (replicate n (.scalar .bytes))) (some key) ver =
      (readComponents ver (replicate n (fromBinary env (.scalar .bytes))) key).map
        .tuple := by
  obtain ⟨n, rfl⟩ := Nat.exists_eq_succ_of_ne_zero hn
  rw [fromBinary_eq, Decoding.CqlType.subtypes, map_replicate, fromBinaryWith, if_neg fun h => hkey h.1]
  rfl

/-- **Composite keys.** The parts are read back, or one was too long. -/
theorem composite_key_unambiguous (env : Decoding.Env) (version : Nat) :
    (∀ parts : List Bytes, 2 ≤ parts.length → (∀ p ∈ parts, p.length < 65536) →
      ∃ key, keyPartsPacked (parts.map fun p => .ok (.bytes p)) = .ok key ∧
        fromBinary env (.composite (List.replicate parts.length (.scalar .bytes))) (some key) version =
          some (.tuple (parts.map .bytes))) ∧
    (∀ (parts parts' : List Bytes) (key : Bytes), keyPartsPacked (parts.map fun p => .ok (.bytes p)) = .ok key →
      keyPartsPacked (parts'.map fun p => .ok (.bytes p)) = .ok key → parts = parts') ∧
    ∀ parts : List Bytes, (∃ p ∈ parts, 65536 ≤ p.length) →
      keyPartsPacked (parts.map fun p => .ok (.bytes p)) = .error .structError := by
  have hr {parts : List Bytes} {n : Nat} {key : Bytes} (hn : parts.length ≤ n)
      (hkey : keyPartsPacked (parts.map fun p => .ok (.bytes p)) = .ok key) :
      readComponents version (List.replicate n (fromBinary env (.scalar .bytes))) key = some (parts.map .bytes) := by
    rw [keyPartsPacked_bytes] at hkey
    split at hkey
    · rename_i hall
      cases hkey
      exact readComponents_compositeKey hn hall
    · exact absurd hkey nofun
  refine ⟨?_, ?_, ?_⟩
  · intro parts hlen hall
    have hkey : keyPartsPacked (parts.map fun p => .ok (.bytes p)) = .ok (compositeKey parts) := by
      rw [keyPartsPacked_bytes, if_pos hall]
    have hne : compositeKey parts ≠ [] := by
      obtain ⟨p, parts, rfl⟩ := exists_cons_of_length_pos (show 0 < parts.length by omega)
      simp [compositeKey]
    refine ⟨compositeKey parts, hkey, ?_⟩
    rw [fromBinary_composite_bytes (by omega) hne, hr (le_refl _) hkey]
    rfl
  · intro parts parts' key hkey hkey'
    have hpr := hr (Nat.le_max_left parts.length parts'.length) hkey
    rw [hr (Nat.le_max_right parts.length parts'.length) hkey', Option.some.injEq] at hpr
    exact (map_injective_iff.mpr (fun _ _ h => by cases h; rfl) hpr).symm
  rintro parts ⟨p, hp, hl⟩
  rw [keyPartsPacked_bytes, if_neg fun hall => absurd (hall p hp) (not_lt.mpr hl)]

end CqlDriver.Statements
