import CqlDriver.Lib.Reader
import Mathlib

/-! # Names in the exported schema -/

namespace CqlDriver.Metadata

open Lib List

def cqlKeywords : List String :=
  ["add", "aggregate", "all", "allow", "alter", "and", "apply", "as", "asc", "ascii", "authorize", "batch", "begin",
    "bigint", "blob", "boolean", "by", "called", "clustering", "columnfamily", "compact", "contains", "count",
    "counter", "create", "custom", "date", "decimal", "delete", "desc", "describe", "distinct", "double", "drop",
    "entries", "execute", "exists", "filtering", "finalfunc", "float", "from", "frozen", "full", "function",
    "functions", "grant", "if", "in", "index", "inet", "infinity", "initcond", "input", "insert", "int", "into", "is",
    "json", "key", "keys", "keyspace", "keyspaces", "language", "limit", "list", "login", "map", "materialized",
    "modify", "nan", "nologin", "norecursive", "nosuperuser", "not", "null", "of", "on", "options", "or", "order",
    "password", "permission", "permissions", "primary", "rename", "replace", "returns", "revoke", "role", "roles",
    "schema", "select", "set", "sfunc", "smallint", "static", "storage", "stype", "superuser", "table", "text",
    "time", "timestamp", "timeuuid", "tinyint", "to", "token", "trigger", "truncate", "ttl", "tuple", "type",
    "unlogged", "update", "use", "user", "users", "using", "uuid", "values", "varchar", "varint", "view", "where",
    "with", "writetime"]

def cqlKeywordsUnreserved : List String :=
  ["aggregate", "all", "as", "ascii", "bigint", "blob", "boolean", "called", "clustering", "compact", "contains",
    "count", "counter", "custom", "date", "decimal", "distinct", "double", "exists", "filtering", "finalfunc",
    "float", "frozen", "function", "functions", "inet", "initcond", "input", "int", "json", "key", "keys",
    "keyspaces", "language", "list", "login", "map", "nologin", "nosuperuser", "options", "password", "permission",
    "permissions", "returns", "role", "roles", "sfunc", "smallint", "static", "storage", "stype", "superuser", "text",
    "time", "timestamp", "timeuuid", "tinyint", "trigger", "ttl", "tuple", "type", "user", "users", "uuid", "values",
    "varchar", "varint", "writetime"]

def isReserved (w : List Char) : Bool := cqlKeywords.contains (.ofList w) && !cqlKeywordsUnreserved.contains (.ofList w)

def isWordChar (c : Char) : Bool := c.isLower || c.isDigit || c = '_'

/-- `^[a-z][0-9a-z_]*$`, where a newline may follow at the end. -/
def matchesWord : List Char → Bool
  | [] => false
  | c :: rest => c.isLower && (rest.dropWhile isWordChar = [] || rest.dropWhile isWordChar = ['\n'])

/-- Letters outside ASCII are in no word. -/
def isValidName (name : List Char) : Bool := !isReserved (name.map Char.toLower) && matchesWord name

def escapeName (name : List Char) : List Char := '"' :: doubled '"' name ++ ['"']

def maybeEscapeName (name : List Char) : List Char := if isValidName name then name else escapeName name

def protectName (name : List Char) : List Char := maybeEscapeName name

/-! ## Reading a name -/

def isNameChar (c : Char) : Bool := c.isAlpha || c.isDigit || c = '_'

/-- An identifier of CQL, and what follows it. -/
def readIdentifier : List Char → Option (List Char × List Char)
  | [] => none
  | c :: rest =>
    if c = '"' then readQuoted '"' rest
    else if c.isAlpha then
      let name := ((c :: rest).takeWhile isNameChar).map Char.toLower
      if isReserved name then none else some (name, (c :: rest).dropWhile isNameChar)
    else none

theorem toLower_of_isWordChar {c : Char} (h : isWordChar c) : c.toLower = c := by
  unfold Char.toLower
  rw [dif_neg]
  rintro ⟨hlo, hhi⟩
  simp only [isWordChar, Char.isLower, Char.isDigit, Bool.or_eq_true, Bool.and_eq_true, decide_eq_true_eq] at h hlo hhi
  rcases h with (⟨h, -⟩ | ⟨-, h⟩) | rfl
  · exact absurd (UInt32.le_trans h hhi) (by decide)
  · exact absurd (UInt32.le_trans hlo h) (by decide)
  · exact absurd hhi (by decide)

theorem isNameChar_of_isWordChar {c : Char} (h : isWordChar c) : isNameChar c := by
  simp only [isWordChar, isNameChar, Char.isAlpha, Bool.or_eq_true] at h ⊢
  tauto

theorem readIdentifier_escapeName (name : List Char) : readIdentifier (escapeName name) = some (name, []) := by
  have hr := @readQuoted_doubled _ _ '"' name [] (by simp)
  rw [← hr]
  rfl

variable {c : Char} {w : List Char}

theorem map_toLower (hw : ∀ d ∈ w, isWordChar d) : w.map Char.toLower = w :=
  (map_congr_left fun d hd => toLower_of_isWordChar (hw d hd)).trans (map_id w)

/-- A word is read up to what cannot stand in a word. -/
theorem readIdentifier_word {rest : List Char} (hc : c.isLower) (hw : ∀ d ∈ c :: w, isWordChar d)
    (hr : ∀ d ∈ rest.head?, isNameChar d = false) :
    readIdentifier (c :: w ++ rest) = if isReserved (c :: w) then none else some (c :: w, rest) := by
  have hn : ∀ d ∈ c :: w, isNameChar d := fun d hd => isNameChar_of_isWordChar (hw d hd)
  have ht : (c :: w ++ rest).takeWhile isNameChar = c :: w ∧ (c :: w ++ rest).dropWhile isNameChar = rest := by
    rw [takeWhile_append_of_pos hn, dropWhile_append_of_pos hn]
    cases rest with
    | nil => simp
    | cons d rest => simp [hr d rfl]
  have hq : c ≠ '"' := by
    rintro rfl
    cases hc
  rw [cons_append, readIdentifier, if_neg hq, if_pos (by simp [Char.isAlpha, hc]), ← cons_append, ht.1, ht.2,
    map_toLower hw]

theorem readIdentifier_protectName_iff (s : List Char) :
    readIdentifier (protectName s) = some (s, []) ↔ (isValidName s → s.getLast? ≠ some '\n') := by
  unfold protectName maybeEscapeName
  cases hv : isValidName s with
  | false => simp [readIdentifier_escapeName]
  | true =>
    obtain ⟨hrs, hwr⟩ := Bool.and_eq_true_iff.mp hv
    cases s with
    | nil => cases hwr
    | cons c t =>
      obtain ⟨hc, hend⟩ := Bool.and_eq_true_iff.mp hwr
      have hw : ∀ d ∈ c :: t.takeWhile isWordChar, isWordChar d :=
        forall_mem_cons.mpr ⟨by simp [isWordChar, hc], fun d hd => mem_takeWhile_imp hd⟩
      rw [← takeWhile_append_dropWhile (p := isWordChar) (l := t)] at hrs ⊢
      rw [Bool.or_eq_true, decide_eq_true_eq, decide_eq_true_eq] at hend
      rw [if_pos rfl]
      rcases hend with hend | hend <;> rw [hend] at hrs ⊢
      · rw [append_nil, map_toLower hw, Bool.not_eq_true'] at hrs
        have hr := @readIdentifier_word c _ [] hc hw (by simp)
        rw [append_nil, hrs] at hr
        refine iff_of_true (by rw [append_nil]; exact hr) fun _ hl => ?_
        exact absurd (hw _ (mem_of_getLast? (by rwa [append_nil] at hl))) (by decide)
      have hr := @readIdentifier_word c _ ['\n'] hc hw (by rintro _ ⟨⟩; rfl)
      refine iff_of_false ?_ fun h => h rfl (by rw [← cons_append]; exact getLast?_concat)
      rw [← cons_append, hr]
      split
      · nofun
      · simp

/-- A word of small letters, digits and underscores that a newline follows. -/
def WordAndNewline (s : List Char) : Prop :=
  ∃ c w, s = c :: w ++ ['\n'] ∧ c.isLower = true ∧ ∀ d ∈ w, isWordChar d = true

theorem wordAndNewline_iff (s : List Char) : WordAndNewline s ↔ isValidName s ∧ s.getLast? = some '\n' := by
  constructor
  · rintro ⟨c, w, rfl, hc, hw⟩
    have hdrop : (w ++ ['\n']).dropWhile isWordChar = ['\n'] := by
      rw [dropWhile_append_of_pos hw]
      rfl
    have hres : isReserved ((c :: w ++ ['\n']).map Char.toLower) = false := by
      have hkeys : ∀ key ∈ cqlKeywords, '\n' ∉ key.toList := by decide +kernel
      rw [isReserved, Bool.and_eq_false_iff]
      refine .inl (Bool.eq_false_iff.mpr fun hmem => hkeys _ (contains_iff_mem.mp hmem) ?_)
      simp
    refine ⟨?_, by rw [getLast?_concat]⟩
    rw [isValidName, hres, cons_append, matchesWord, hc, hdrop]
    rfl
  rintro ⟨hv, hl⟩
  obtain ⟨-, hwr⟩ := Bool.and_eq_true_iff.mp hv
  cases s with
  | nil => cases hwr
  | cons c t =>
    obtain ⟨hc, hend⟩ := Bool.and_eq_true_iff.mp hwr
    rw [Bool.or_eq_true, decide_eq_true_eq, decide_eq_true_eq] at hend
    have ht := takeWhile_append_dropWhile (p := isWordChar) (l := t)
    have hw : ∀ d ∈ t.takeWhile isWordChar, isWordChar d := fun d hd => mem_takeWhile_imp hd
    rcases hend with hend | hend <;> rw [hend] at ht
    · -- A word that ends in a newline is none.
      rw [append_nil] at ht
      rw [ht] at hw
      have hall : ∀ d ∈ c :: t, isWordChar d := forall_mem_cons.mpr ⟨by simp [isWordChar, hc], hw⟩
      exact absurd (hall _ (mem_of_getLast? hl)) (by decide)
    exact ⟨c, _, by rw [cons_append, ht], hc, hw⟩

/-- **Names read back**, unless a newline follows a word. -/
theorem protectName_exact_iff (s : List Char) :
    (readIdentifier (protectName s) = some (s, []) ↔ ¬ WordAndNewline s) ∧
      ∀ s', ¬ WordAndNewline s → ¬ WordAndNewline s' → protectName s = protectName s' → s = s' := by
  have hread (s : List Char) : readIdentifier (protectName s) = some (s, []) ↔ ¬ WordAndNewline s := by
    rw [readIdentifier_protectName_iff, wordAndNewline_iff, not_and]
  refine ⟨hread s, fun s' hs hs' heq => ?_⟩
  have hr := (hread s).mpr hs
  rw [heq, (hread s').mpr hs'] at hr
  exact (Prod.mk.inj (Option.some.inj hr)).1.symm

theorem protectName_newline :
    protectName "ks\n".toList = "ks\n".toList ∧ readIdentifier (protectName "ks\n".toList) = some ("ks".toList, ['\n']) := by
  decide

end CqlDriver.Metadata
