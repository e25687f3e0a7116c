import CqlDriver.Literals.Encoder

/-! # The grammar of CQL literals -/

namespace CqlDriver.Literals

open List Option

inductive Term
  | null
  | str (s : Text)
  | blob (b : List UInt8)
  | bool (b : Bool)
  | int (n : Int)
  | uuid (bytes : List UInt8)
  | list (ts : List Term)
  | set (ts : List Term)
  | map (entries : List (Term × Term))
  | emptyCollection

/-! ## Words -/

def isDigit (c : Nat) : Bool := ch '0' ≤ c && c ≤ ch '9'

def isLetter (c : Nat) : Bool := ch 'a' ≤ c && c ≤ ch 'z' || ch 'A' ≤ c && c ≤ ch 'Z'

def isWord (c : Nat) : Bool := isDigit c || isLetter c || c == ch '-'

def lower (c : Nat) : Nat := if ch 'A' ≤ c ∧ c ≤ ch 'Z' then c + 32 else c

def readDigits (w : Text) : Nat := Nat.ofDigits 10 (w.map (· - ch '0')).reverse

def readInteger (w : Text) : Option Int :=
  match w with
  | [] => none
  | c :: cs =>
    if c = ch '-' then if cs ≠ [] ∧ cs.all isDigit then some (-readDigits cs) else none
    else if (c :: cs).all isDigit then some (readDigits (c :: cs)) else none

def readKeyword (w : Text) : Option Term :=
  if w.map lower = text "null" then some .null
  else if w.map lower = text "true" then some (.bool true)
  else if w.map lower = text "false" then some (.bool false)
  else none

def hexValue (c : Nat) : Option Nat :=
  if isDigit c then some (c - ch '0')
  else if ch 'a' ≤ lower c ∧ lower c ≤ ch 'f' then some (lower c - ch 'a' + 10)
  else none

def unhexlify : Text → Option (List UInt8)
  | [] => some []
  | [_] => none
  | c :: d :: rest => do
    let high ← hexValue c
    let low ← hexValue d
    let bytes ← unhexlify rest
    return UInt8.ofNat (16 * high + low) :: bytes

/-- Groups of 8, 4, 4, 4 and 12 hexadecimal digits. -/
def readUUID (w : Text) : Option (List UInt8) :=
  if w.length = 36 ∧ w[8]? = some (ch '-') ∧ w[13]? = some (ch '-') ∧ w[18]? = some (ch '-') ∧ w[23]? = some (ch '-') then
    unhexlify (w.take 8 ++ (w.drop 9).take 4 ++ (w.drop 14).take 4 ++ (w.drop 19).take 4 ++ w.drop 24)
  else none

def readBlob : Text → Option (List UInt8)
  | c :: d :: rest => if c = ch '0' ∧ lower d = ch 'x' then unhexlify rest else none
  | _ => none

def readWord (w : Text) : Option Term :=
  (readInteger w).map Term.int <|> readKeyword w <|> (readUUID w).map Term.uuid <|> (readBlob w).map Term.blob

/-! ## Strings and collections -/

/-- Two quotes are one, and one quote is the end. -/
def readString : Text → Option (Text × Text)
  | [] => none
  | [c] => if c = ch '\'' then some ([], []) else none
  | c :: d :: rest =>
    if c = ch '\'' then
      if d = ch '\'' then (readString rest).map fun (s, rest) => (c :: s, rest)
      else some ([], d :: rest)
    else (readString (d :: rest)).map fun (s, rest) => (c :: s, rest)

def skipSpaces (t : Text) : Text := t.dropWhile (· = ch ' ')

def collect (close : Nat) (items : List (Term × Option Term)) : Option Term :=
  if close = ch ']' then if items.all (·.2.isNone) then some (.list (items.map Prod.fst)) else none
  else if items.all (·.2.isNone) then some (.set (items.map Prod.fst))
  else (items.mapM fun (item : Term × Option Term) => item.2.map (item.1, ·)).map Term.map

mutual

def readTerm : Nat → Text → Option (Term × Text)
  | 0, _ => none
  | _ + 1, [] => none
  | fuel + 1, c :: cs =>
    if c = ch '\'' then (readString cs).map fun (s, rest) => (.str s, rest)
    else if c = ch '[' then readCollection fuel (ch ']') (.list []) (skipSpaces cs)
    else if c = ch '{' then readCollection fuel (ch '}') .emptyCollection (skipSpaces cs)
    else (readWord ((c :: cs).takeWhile isWord)).map fun t => (t, (c :: cs).dropWhile isWord)

def readCollection : Nat → Nat → Term → Text → Option (Term × Text)
  | 0, _, _, _ => none
  | _ + 1, _, _, [] => none
  | fuel + 1, close, empty, c :: cs =>
    if c = close then some (empty, cs)
    else
      match readItems fuel close (c :: cs) with
      | none => none
      | some (items, rest) => (collect close items).map (·, rest)

def readItems : Nat → Nat → Text → Option (List (Term × Option Term) × Text)
  | 0, _, _ => none
  | fuel + 1, close, cs =>
    match readTerm fuel cs with
    | none => none
    | some (key, cs) =>
      match readValue fuel (skipSpaces cs) with
      | none => none
      | some (value, cs) =>
        match skipSpaces cs with
        | [] => none
        | c :: cs =>
          if c = ch ',' then
            (readItems fuel close (skipSpaces cs)).map fun (items, rest) => ((key, value) :: items, rest)
          else if c = close then some ([(key, value)], cs)
          else none

def readValue : Nat → Text → Option (Option Term × Text)
  | 0, _ => none
  | _ + 1, [] => some (none, [])
  | fuel + 1, c :: cs =>
    if c = ch ':' then (readTerm fuel (skipSpaces cs)).map fun (t, rest) => (some t, rest)
    else some (none, c :: cs)

end

def readLiteral (t : Text) : Option Term :=
  match readTerm (4 * t.length) t with
  | some (term, []) => some term
  | _ => none

/-! ## More text behind a literal -/

/-- It starts with nothing that goes on a literal. -/
def Stops (rest : Text) : Prop := ∀ c ∈ rest.head?, isWord c = false ∧ c ≠ ch '\''

instance (rest : Text) : Decidable (Stops rest) := by unfold Stops; infer_instance

variable {r rest t : Text} {fuel n close : Nat} {term : Term}

theorem readString_append {s : Text} (h : readString t = some (s, r)) (hr : r = [] → Stops rest) :
    readString (t ++ rest) = some (s, r ++ rest) := by
  fun_induction readString t generalizing s r with
  | case1 => cases h
  | case2 =>
    cases h
    cases rest with
    | nil => simp [readString]
    | cons d rest => simp [readString, (hr rfl d rfl).2]
  | case3 c hc => cases h
  | case4 tail ih =>
    obtain ⟨⟨s', r'⟩, hs, heq⟩ := map_eq_some_iff.mp h
    cases heq
    simp [readString, ih hs hr]
  | case5 d tail hd =>
    cases h
    simp [readString, hd]
  | case6 c d tail hc ih =>
    obtain ⟨⟨s', r'⟩, hs, heq⟩ := map_eq_some_iff.mp h
    cases heq
    have hn := ih hs hr
    simp only [cons_append] at hn ⊢
    rw [readString, if_neg hc, hn]
    rfl

theorem takeWhile_append_stops (h : t.dropWhile isWord = [] → Stops rest) :
    (t ++ rest).takeWhile isWord = t.takeWhile isWord ∧ (t ++ rest).dropWhile isWord = t.dropWhile isWord ++ rest := by
  induction t with
  | nil =>
    have hr := h rfl
    cases rest with
    | nil => exact ⟨rfl, rfl⟩
    | cons c rest => simp [(hr c rfl).1]
  | cons c t ih =>
    cases hc : isWord c with
    | false => simp [hc]
    | true =>
      have hih := ih fun hnil => h (by simpa [hc] using hnil)
      simp [hc, hih.1, hih.2]

theorem skipSpaces_append (h : skipSpaces t ≠ []) (rest : Text) : skipSpaces (t ++ rest) = skipSpaces t ++ rest := by
  unfold skipSpaces at h ⊢
  rw [dropWhile_append, if_neg (by simpa using h)]

theorem readTerm_nil (fuel : Nat) : readTerm fuel [] = none := by
  cases fuel <;> rfl

theorem readItems_nil (fuel close : Nat) : readItems fuel close [] = none := by
  cases fuel with
  | zero => rfl
  | succ fuel => simp [readItems, readTerm_nil]

theorem readCollection_nil (fuel close : Nat) (empty : Term) : readCollection fuel close empty [] = none := by
  cases fuel <;> rfl

/-- More fuel and more text behind change nothing. -/
structure ReadsOn (fuel : Nat) : Prop where
  term : ∀ t term r, readTerm fuel t = some (term, r) → ∀ rest, (r = [] → Stops rest) → ∀ n, fuel ≤ n →
    readTerm n (t ++ rest) = some (term, r ++ rest)
  collection : ∀ close empty t term r, readCollection fuel close empty t = some (term, r) → ∀ rest n, fuel ≤ n →
    readCollection n close empty (t ++ rest) = some (term, r ++ rest)
  items : ∀ close t items r, readItems fuel close t = some (items, r) → ∀ rest n, fuel ≤ n →
    readItems n close (t ++ rest) = some (items, r ++ rest)
  value : ∀ t value r, readValue fuel t = some (value, r) → r ≠ [] → ∀ rest n, fuel ≤ n →
    readValue n (t ++ rest) = some (value, r ++ rest)

section

variable (ih : ReadsOn fuel)
include ih

theorem readTerm_append (h : readTerm (fuel + 1) t = some (term, r)) (hr : r = [] → Stops rest)
    (hn : fuel ≤ n) : readTerm (n + 1) (t ++ rest) = some (term, r ++ rest) := by
  -- A bracket is followed by something, or the collection would not have been read.
  have hcl : ∀ close empty cs, readCollection fuel close empty (skipSpaces cs) = some (term, r) →
      readCollection n close empty (skipSpaces (cs ++ rest)) = some (term, r ++ rest) := by
    intro close empty cs hcs
    have hne : skipSpaces cs ≠ [] := by
      intro hnil
      rw [hnil, readCollection_nil] at hcs
      cases hcs
    rw [skipSpaces_append hne]
    exact ih.collection close empty _ _ _ hcs rest n hn
  cases t with
  | nil => cases h
  | cons c cs =>
    rw [readTerm] at h
    rw [cons_append, readTerm]
    split at h
    · rename_i hc
      obtain ⟨⟨s, r'⟩, hs, heq⟩ := map_eq_some_iff.mp h
      cases heq
      rw [if_pos hc, readString_append hs hr]
      rfl
    rename_i hq
    rw [if_neg hq]
    split at h
    · rename_i hc
      rw [if_pos hc]
      exact hcl _ _ _ h
    rename_i hsq
    rw [if_neg hsq]
    split at h
    · rename_i hc
      rw [if_pos hc]
      exact hcl _ _ _ h
    rename_i hcr
    rw [if_neg hcr]
    obtain ⟨term', hw, heq⟩ := map_eq_some_iff.mp h
    cases heq
    obtain ⟨ht, hd⟩ := takeWhile_append_stops hr
    rw [← cons_append, ht, hd, hw]
    rfl

theorem readCollection_append {empty : Term}
    (h : readCollection (fuel + 1) close empty t = some (term, r)) (rest : Text) (hn : fuel ≤ n) :
    readCollection (n + 1) close empty (t ++ rest) = some (term, r ++ rest) := by
  cases t with
  | nil =>
    cases h
  | cons c cs =>
    rw [readCollection] at h
    rw [cons_append, readCollection]
    split at h
    · rename_i hc
      cases h
      rw [if_pos hc]
    rename_i hc
    rw [if_neg hc]
    cases hi : readItems fuel close (c :: cs) with
    | none =>
      rw [hi] at h
      cases h
    | some found =>
      simp only [hi, map_eq_some_iff] at h
      obtain ⟨term', hcl, heq⟩ := h
      cases heq
      have hm := ih.items close _ _ _ hi rest n hn
      rw [cons_append] at hm
      simp only [hm, hcl, map_some]

theorem readValue_append {v : Option Term} (h : readValue (fuel + 1) t = some (v, r))
    (hr : r ≠ []) (rest : Text) (hn : fuel ≤ n) : readValue (n + 1) (t ++ rest) = some (v, r ++ rest) := by
  cases t with
  | nil =>
    cases h
    exact absurd rfl hr
  | cons c cs =>
    rw [readValue] at h
    rw [cons_append, readValue]
    split at h
    · rename_i hc
      obtain ⟨⟨term, r'⟩, ht, heq⟩ := map_eq_some_iff.mp h
      cases heq
      have hne : skipSpaces cs ≠ [] := by
        intro hnil
        rw [hnil, readTerm_nil] at ht
        cases ht
      rw [if_pos hc, skipSpaces_append hne, ih.term _ _ _ ht rest (fun hnil => absurd hnil hr) n hn]
      rfl
    rename_i hc
    cases h
    rw [if_neg hc]
    rfl

theorem readItems_append {xs : List (Term × Option Term)}
    (h : readItems (fuel + 1) close t = some (xs, r)) (rest : Text) (hn : fuel ≤ n) :
    readItems (n + 1) close (t ++ rest) = some (xs, r ++ rest) := by
  rw [readItems] at h ⊢
  cases hkey : readTerm fuel t with
  | none =>
    rw [hkey] at h
    cases h
  | some found =>
    obtain ⟨key, afterKey⟩ := found
    simp only [hkey] at h
    cases hvl : readValue fuel (skipSpaces afterKey) with
    | none =>
      rw [hvl] at h
      cases h
    | some found =>
      obtain ⟨v, afterValue⟩ := found
      simp only [hvl] at h
      cases hnx : skipSpaces afterValue with
      | nil =>
        rw [hnx] at h
        cases h
      | cons c cs =>
        simp only [hnx] at h
        -- There is more text after the key and after the value, so both are read as before.
        have ha : skipSpaces afterValue ≠ [] := by simp [hnx]
        have hv : afterValue ≠ [] := by
          rintro rfl
          exact ha rfl
        have hs : skipSpaces afterKey ≠ [] := by
          intro hnil
          rw [hnil] at hvl
          cases fuel with
          | zero => cases hvl
          | succ fuel =>
            cases hvl
            exact hv rfl
        have hk : afterKey ≠ [] := by
          rintro rfl
          exact hs rfl
        simp only [ih.term _ _ _ hkey rest (fun hnil => absurd hnil hk) n hn, skipSpaces_append hs,
          ih.value _ _ _ hvl hv rest n hn, skipSpaces_append ha, hnx, cons_append]
        split at h
        · rename_i hc
          obtain ⟨⟨more, r'⟩, hm, heq⟩ := map_eq_some_iff.mp h
          cases heq
          have hne : skipSpaces cs ≠ [] := by
            intro hnil
            rw [hnil, readItems_nil] at hm
            cases hm
          rw [if_pos hc, skipSpaces_append hne, ih.items _ _ _ _ hm rest n hn]
          rfl
        rename_i hc
        rw [if_neg hc]
        split at h
        · rename_i hcl
          cases h
          rw [if_pos hcl]
        · cases h

end

theorem readsOn (fuel : Nat) : ReadsOn fuel := by
  induction fuel with
  | zero =>
    refine ⟨?_, ?_, ?_, ?_⟩
    · intro t term r h
      cases h
    · intro close empty t term r h
      cases h
    · intro close t xs r h
      cases h
    intro t v r h
    cases h
  | succ fuel ih =>
    refine ⟨?_, ?_, ?_, ?_⟩
    · rintro t term r h rest hrs (_ | n) hn
      · omega
      · exact readTerm_append ih h hrs (by omega)
    · rintro close empty t term r h rest (_ | n) hn
      · omega
      · exact readCollection_append ih h rest (by omega)
    · rintro close t xs r h rest (_ | n) hn
      · omega
      · exact readItems_append ih h rest (by omega)
    rintro t v r h hr rest (_ | n) hn
    · omega
    · exact readValue_append ih h hr rest (by omega)

end CqlDriver.Literals
