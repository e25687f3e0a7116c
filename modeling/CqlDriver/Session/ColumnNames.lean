import Mathlib

/-! # Names of the fields of a row -/

namespace CqlDriver.Session

open List

/-- What the interpreter says about characters and words. -/
structure Python where
  isalnum : Char → Bool
  isdigit : Char → Bool
  keywords : List (List Char)
  ascii : ∀ c : Char, c.toNat < 128 → isalnum c = c.isAlphanum ∧ isdigit c = c.isDigit
  no_underscore : ∀ w ∈ keywords, w.getLast? ≠ some '_'

instance : Inhabited Python where
  default := {
    isalnum := Char.isAlphanum
    isdigit := Char.isDigit
    keywords := ["False", "None", "True", "and", "as", "assert", "async", "await", "break", "class", "continue", "def",
      "del", "elif", "else", "except", "finally", "for", "from", "global", "if", "import", "in", "is", "lambda",
      "nonlocal", "not", "or", "pass", "raise", "return", "try", "while", "with", "yield"].map String.toList
    ascii := fun _ _ => ⟨rfl, rfl⟩
    no_underscore := by decide }

def isAscii (c : Char) : Bool := c.isAlphanum || c = '_'

/-- The three patterns, from the innermost `sub` on. -/
def cleanColumnName (name : List Char) : List Char :=
  ((name.rdropWhile fun c => !isAscii c).dropWhile fun c => !c.isAlphanum).map fun c => if c.isAlphanum then c else '_'

namespace Python

variable (py : Python)

local instance lawfulBEq_name : LawfulBEq (List Char) := inferInstance

def isInvalid (name : List Char) : Bool :=
  !(name.all fun c => py.isalnum c || c = '_') || name ∈ py.keywords || name = [] || name.head?.any py.isdigit ||
    name.head? = some '_'

def fieldName (index : Nat) : List Char := "field_".toList ++ Nat.toDigits 10 index ++ ['_']

def positionalRenameInvalidIdentifiers (fieldNames : List (List Char)) : List (List Char) :=
  fieldNames.mapIdx fun index name => if py.isInvalid name then fieldName index else name

end Python

/-- The `while` loop for one name. -/
def unobserved (observed : List (List Char)) (name : List Char) : List Char :=
  if name ∈ observed then unobserved observed (name ++ ['_']) else name
termination_by (observed.map length).sum + 1 - name.length
decreasing_by
  have hle := le_sum_of_mem (mem_map_of_mem (f := length) ‹_›)
  simp only [length_append, length_singleton]
  omega

def distinct (observed : List (List Char)) : List (List Char) → List (List Char)
  | [] => []
  | name :: rest => unobserved observed name :: distinct (unobserved observed name :: observed) rest

def Python.sanitizeIdentifiers (py : Python) (fieldNames : List (List Char)) : List (List Char) :=
  let namesOut := py.positionalRenameInvalidIdentifiers fieldNames
  if namesOut.Nodup then namesOut else distinct [] namesOut

/-! ## Names that can be used -/

namespace Python

variable (py : Python)

def Usable (name : List Char) : Prop :=
  (∀ c ∈ name, isAscii c) ∧ (∃ c ∈ name.head?, c.isAlpha) ∧ name ∉ py.keywords

variable {py} {name : List Char}

theorem Usable.append (h : py.Usable name) : py.Usable (name ++ ['_']) := by
  obtain ⟨has, ⟨c, hc, ha⟩, -⟩ := h
  refine ⟨?_, ⟨c, ?_, ha⟩, fun hmem => py.no_underscore _ hmem getLast?_concat⟩
  · rw [forall_mem_append]
    exact ⟨has, by simp [isAscii]⟩
  rw [head?_append, hc]
  rfl

theorem usable_fieldName (idx : Nat) : py.Usable (fieldName idx) := by
  refine ⟨?_, ⟨'f', rfl, by decide⟩, fun hmem => py.no_underscore _ hmem getLast?_concat⟩
  unfold fieldName
  simp only [forall_mem_append]
  refine ⟨⟨by simp [isAscii], fun c hc => ?_⟩, by simp [isAscii]⟩
  have hd := Nat.isDigit_of_mem_toDigits (by decide) (by decide) hc
  simp [isAscii, Char.isAlphanum, hd]

theorem toNat_lt_of_isAscii {c : Char} (h : isAscii c) : c.toNat < 128 := by
  simp only [isAscii, Char.isAlphanum, Char.isAlpha, Char.isUpper, Char.isLower, Char.isDigit, Bool.or_eq_true,
    Bool.and_eq_true, decide_eq_true_eq] at h
  change (((65 ≤ c.toNat ∧ c.toNat ≤ 90) ∨ 97 ≤ c.toNat ∧ c.toNat ≤ 122) ∨ 48 ≤ c.toNat ∧ c.toNat ≤ 57) ∨ c = '_' at h
  rcases h with h | rfl
  · omega
  · decide

theorem isAlpha_iff {c : Char} (h : isAscii c) : c.isAlpha ↔ c.isDigit = false ∧ c ≠ '_' := by
  unfold isAscii Char.isAlphanum at h
  rw [Bool.or_eq_true, Bool.or_eq_true, decide_eq_true_eq] at h
  refine ⟨fun ha => ⟨?_, by rintro rfl; cases ha⟩, fun hnot => ?_⟩
  · simp only [Char.isAlpha, Char.isUpper, Char.isLower, Char.isDigit, Bool.or_eq_true, Bool.and_eq_true,
      decide_eq_true_eq, ← Bool.not_eq_true] at ha ⊢
    change (65 ≤ c.toNat ∧ c.toNat ≤ 90) ∨ 97 ≤ c.toNat ∧ c.toNat ≤ 122 at ha
    change ¬ (48 ≤ c.toNat ∧ c.toNat ≤ 57)
    omega
  rcases h with (h | h) | h
  · exact h
  · exact absurd h (by simp [hnot.1])
  · exact absurd h hnot.2

theorem isInvalid_eq_false_iff (h : ∀ c ∈ name, isAscii c) : py.isInvalid name = false ↔ py.Usable name := by
  have hall : (name.all fun c => py.isalnum c || c = '_') := by
    rw [all_eq_true]
    intro c hc
    rw [(py.ascii c (toNat_lt_of_isAscii (h c hc))).1]
    exact h c hc
  rw [isInvalid, Usable, hall, and_iff_right h]
  cases name with
  | nil => simp
  | cons c name =>
    have hc := h c mem_cons_self
    simp [(py.ascii c (toNat_lt_of_isAscii hc)).2, isAlpha_iff hc, and_comm, and_left_comm, and_assoc]

variable (py) in
theorem unobserved_spec (obs : List (List Char)) (name : List Char) : unobserved obs name ∉ obs ∧
    (name ∉ obs → unobserved obs name = name) ∧ (py.Usable name → py.Usable (unobserved obs name)) := by
  fun_induction unobserved obs name with
  | case1 name hmem ih => exact ⟨ih.1, fun h => absurd hmem h, fun h => ih.2.2 h.append⟩
  | case2 name hnot => exact ⟨hnot, fun _ => rfl, id⟩

/-- What the names `out` for the names `names` are to satisfy. -/
structure Distinct (py : Python) (observed names out : List (List Char)) : Prop where
  length : out.length = names.length
  nodup : out.Nodup
  not_observed : ∀ name ∈ out, name ∉ observed
  usable : (∀ name ∈ names, py.Usable name) → ∀ name ∈ out, py.Usable name
  unchanged : ∀ (i : Nat) name, names[i]? = some name → name ∉ observed → name ∉ out.take i → out[i]? = some name

variable (py) in
theorem distinct_spec (names : List (List Char)) : ∀ obs, py.Distinct obs names (distinct obs names) := by
  induction names with
  | nil => exact fun obs => ⟨rfl, nodup_nil, nofun, fun _ => nofun, nofun⟩
  | cons name names ih =>
    intro obs
    obtain ⟨hnot, hs, hu⟩ := unobserved_spec py obs name
    have hr := ih (unobserved obs name :: obs)
    rw [distinct]
    refine ⟨congrArg (· + 1) hr.length, nodup_cons.mpr ⟨fun hmem => ?_, hr.nodup⟩, ?_, ?_, ?_⟩
    · exact hr.not_observed _ hmem mem_cons_self
    · rw [forall_mem_cons]
      exact ⟨hnot, fun name hn hmem => hr.not_observed name hn (mem_cons_of_mem _ hmem)⟩
    · rw [forall_mem_cons, forall_mem_cons]
      exact fun h => ⟨hu h.1, hr.usable h.2⟩
    intro i name' hi ho ht
    cases i with
    | zero =>
      cases hi
      exact congrArg some (hs ho)
    | succ i =>
      rw [take_succ_cons, mem_cons, not_or] at ht
      exact hr.unchanged i name' hi (by simp [ht.1, ho]) ht.2

theorem isAscii_cleanColumnName (name : List Char) : ∀ c ∈ cleanColumnName name, isAscii c := by
  intro c hc
  obtain ⟨d, -, rfl⟩ := mem_map.mp hc
  split
  · simp [isAscii, *]
  · decide

theorem cleanColumnName_of_usable (h : py.Usable name) : cleanColumnName name = name := by
  obtain ⟨has, ⟨c, hc, ha⟩, -⟩ := h
  obtain ⟨name, rfl⟩ := head?_eq_some_iff.mp hc
  rw [cleanColumnName, rdropWhile_eq_self_iff.mpr fun hl => by simp [has _ _],
    dropWhile_cons_of_neg (by simp [Char.isAlphanum, ha])]
  refine (map_congr_left fun d hd => ?_).trans (map_id _)
  have hd := has d hd
  unfold isAscii at hd
  split
  · rfl
  · simp_all

variable (py) in
theorem positionalRenameInvalidIdentifiers_spec (colnames : List (List Char)) :
    let out := py.positionalRenameInvalidIdentifiers (colnames.map cleanColumnName)
    out.length = colnames.length ∧ (∀ name ∈ out, py.Usable name) ∧
      ∀ (i : Nat) name, colnames[i]? = some name → py.Usable name → out[i]? = some name := by
  refine ⟨by simp [positionalRenameInvalidIdentifiers], fun name hn => ?_, fun i name hi hu => ?_⟩
  · obtain ⟨i, hi, rfl⟩ := mem_mapIdx.mp hn
    split
    · exact usable_fieldName i
    rename_i hv
    refine (isInvalid_eq_false_iff ?_).mp (Bool.not_eq_true _ ▸ hv)
    rw [getElem_map]
    exact isAscii_cleanColumnName _
  rw [positionalRenameInvalidIdentifiers, getElem?_mapIdx, getElem?_map, hi, Option.map_some, Option.map_some,
    cleanColumnName_of_usable hu, (isInvalid_eq_false_iff hu.1).mpr hu]
  rfl

/-- **Usable names.** They are distinct, and a usable one stays. -/
theorem sanitizeIdentifiers_usable (py : Python) (colnames : List (List Char)) :
    let names := py.sanitizeIdentifiers (colnames.map cleanColumnName)
    names.length = colnames.length ∧ names.Nodup ∧ (∀ name ∈ names, py.Usable name) ∧
      ∀ (i : Nat) name, colnames[i]? = some name → py.Usable name → name ∉ names.take i → names[i]? = some name := by
  intro names
  obtain ⟨hl, hu, hk⟩ := positionalRenameInvalidIdentifiers_spec py colnames
  by_cases hnd : (py.positionalRenameInvalidIdentifiers (colnames.map cleanColumnName)).Nodup
  · have hn : names = _ := if_pos hnd
    rw [hn]
    exact ⟨hl, hnd, hu, fun i name hi h _ => hk i name hi h⟩
  have hn : names = _ := if_neg hnd
  have hd := distinct_spec py (py.positionalRenameInvalidIdentifiers (colnames.map cleanColumnName)) []
  rw [hn]
  exact ⟨hd.length.trans hl, hd.nodup, hd.usable hu, fun i name hi h =>
    hd.unchanged i name (hk i name hi h) nofun⟩

end Python

end CqlDriver.Session
