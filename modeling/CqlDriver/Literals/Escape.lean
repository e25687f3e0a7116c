import CqlDriver.Literals.Grammar
import Mathlib.Data.List.TakeWhile
import Mathlib.Data.Nat.Digits.Lemmas
import Mathlib.Tactic.IntervalCases

/-! # A literal cannot be left -/

namespace CqlDriver.Literals

open List

/-! ## Words -/

variable {rest w l fst : Text} {term : Term} {c close : Nat} {b : List UInt8} {v : PyValue}
  {items : List (Term × Option Term)} {pts pieces : List Text}

variable {n : Nat} {part cs p : Text} {ts : List Term} {args ls : List Text}

theorem readTerm_word (hw : readWord w = some term) (hne : w ≠ []) (hall : ∀ c ∈ w, isWord c) (hr : Stops rest) :
    readTerm (n + 1) (w ++ rest) = some (term, rest) := by
  cases w with
  | nil => exact absurd rfl hne
  | cons c cs =>
    have hwr := hall c mem_cons_self
    have hq : c ≠ ch '\'' := by rintro rfl; revert hwr; decide
    have hs : c ≠ ch '[' := by rintro rfl; revert hwr; decide
    have hc : c ≠ ch '{' := by rintro rfl; revert hwr; decide
    have hend : (c :: cs).dropWhile isWord = [] := dropWhile_eq_nil_iff.mpr hall
    obtain ⟨ht, hd⟩ := takeWhile_append_stops (t := c :: cs) fun _ => hr
    rw [cons_append, readTerm, if_neg hq, if_neg hs, if_neg hc, ← cons_append, ht, hd,
      hend, takeWhile_eq_self_iff.mpr hall, hw]
    rfl

theorem decimal_all (n : Nat) : ∀ c ∈ decimal n, isDigit c := by
  intro c hc
  unfold decimal at hc
  split at hc
  · rw [mem_singleton.mp hc]
    decide
  simp only [mem_map, mem_reverse] at hc
  obtain ⟨d, hd, rfl⟩ := hc
  have hlt : d < 10 := Nat.digits_lt_base (by decide) hd
  interval_cases d <;> decide

theorem decimal_ne_nil : decimal n ≠ [] := by
  unfold decimal
  split
  · simp
  rename_i hn
  simp [Nat.digits_ne_nil_iff_ne_zero.mpr hn]

theorem readDigits_decimal (n : Nat) : readDigits (decimal n) = n := by
  unfold decimal readDigits
  split
  · rename_i hn
    rw [hn]
    rfl
  have hsub : ∀ ds : List Nat, (ds.map (ch '0' + ·)).map (· - ch '0') = ds := by
    intro ds
    rw [map_map]
    exact map_id'' (fun d => Nat.add_sub_cancel_left ..) ds
  rw [hsub, reverse_reverse, Nat.ofDigits_digits]

theorem isWord_of_isDigit (h : isDigit c) : isWord c := by
  simp [isWord, h]

theorem readInteger_decimal (n : Nat) : readInteger (decimal n) = some (n : Int) := by
  have hall := decimal_all n
  have hv := readDigits_decimal n
  cases hd : decimal n with
  | nil => exact absurd hd decimal_ne_nil
  | cons c cs =>
    rw [hd] at hall hv
    have hds : c ≠ ch '-' := by
      rintro rfl
      exact absurd (hall _ mem_cons_self) (by decide)
    have hdg : (c :: cs).all isDigit := all_eq_true.mpr hall
    rw [readInteger, if_neg hds, if_pos hdg, hv]

theorem readInteger_strInt {n : Int} : readInteger (strInt n) = some n := by
  cases n with
  | ofNat n => exact readInteger_decimal n
  | negSucc n =>
    have hd : (decimal (n + 1)).all isDigit := all_eq_true.mpr (decimal_all _)
    rw [strInt, readInteger, if_pos rfl, if_pos ⟨decimal_ne_nil, hd⟩, readDigits_decimal]
    rfl

theorem strInt_word {n : Int} : strInt n ≠ [] ∧ ∀ c ∈ strInt n, isWord c := by
  cases n with
  | ofNat n => exact ⟨decimal_ne_nil, fun c hc => isWord_of_isDigit (decimal_all n c hc)⟩
  | negSucc n =>
    refine ⟨by simp [strInt], ?_⟩
    intro c hc
    rcases mem_cons.mp hc with rfl | hc
    · decide
    · exact isWord_of_isDigit (decimal_all _ c hc)

/-! ## Hexadecimal -/

theorem hexlify_all (h : c ∈ hexlify b) : isWord c ∧ c ≠ ch '-' ∧ c ≠ ch 'x' := by
  simp only [hexlify, mem_flatMap, mem_cons, not_mem_nil, or_false] at h
  obtain ⟨x, -, h⟩ := h
  have hdg : ∀ d, d < 16 → isWord (hexDigit d) ∧ hexDigit d ≠ ch '-' ∧ hexDigit d ≠ ch 'x' := by
    intro d hd
    interval_cases d <;> decide
  have hx : x.toNat < 256 := x.toNat_lt
  rcases h with rfl | rfl
  · exact hdg _ (by omega)
  · exact hdg _ (by omega)

theorem hexValue_hexDigit {d : Nat} (hd : d < 16) : hexValue (hexDigit d) = some d := by
  interval_cases d <;> decide

theorem unhexlify_hexlify {b : List UInt8} : unhexlify (hexlify b) = some b := by
  induction b with
  | nil => rfl
  | cons x b ih =>
    have hx : x.toNat < 256 := x.toNat_lt
    have hsum : 16 * (x.toNat / 16) + x.toNat % 16 = x.toNat := by omega
    have hc : hexlify (x :: b) = hexDigit (x.toNat / 16) :: hexDigit (x.toNat % 16) :: hexlify b := rfl
    rw [hc, unhexlify, hexValue_hexDigit (by omega), hexValue_hexDigit (by omega), ih]
    have hb : UInt8.ofNat (16 * (x.toNat / 16) + x.toNat % 16) = x := by rw [hsum, UInt8.ofNat_toNat]
    exact congrArg (fun y => some (y :: b)) hb

theorem hexlify_length {b : List UInt8} : (hexlify b).length = 2 * b.length := by
  induction b with
  | nil => rfl
  | cons x b ih =>
    have hc : hexlify (x :: b) = hexDigit (x.toNat / 16) :: hexDigit (x.toNat % 16) :: hexlify b := rfl
    rw [hc, length_cons, length_cons, length_cons]
    omega

theorem blob_all (h : c ∈ cqlEncodeBytes b) : isWord c ∧ c ≠ ch '-' := by
  rcases mem_append.mp h with h | h
  · have hp : ∀ c ∈ text "0x", isWord c ∧ c ≠ ch '-' := by decide
    exact hp c h
  · exact ⟨(hexlify_all h).1, (hexlify_all h).2.1⟩

theorem readWord_blob {b : List UInt8} : readWord (cqlEncodeBytes b) = some (.blob b) := by
  have hc : cqlEncodeBytes b = ch '0' :: ch 'x' :: hexlify b := rfl
  have hi : readInteger (cqlEncodeBytes b) = none := by
    have hx : isDigit (ch 'x') = false := by decide
    rw [hc, readInteger, if_neg (by decide), if_neg (by simp [hx])]
  have hk : readKeyword (cqlEncodeBytes b) = none := by
    have hl : (cqlEncodeBytes b).map lower = ch '0' :: ch 'x' :: (hexlify b).map lower := rfl
    simp [readKeyword, hl, text, ch]
  have hu : readUUID (cqlEncodeBytes b) = none := by
    rw [readUUID, if_neg]
    rintro ⟨-, h8, -⟩
    exact (blob_all (mem_of_getElem? h8)).2 rfl
  have hb : readBlob (cqlEncodeBytes b) = some b := by
    rw [hc, readBlob, if_pos (by decide), unhexlify_hexlify]
  simp [readWord, hi, hk, hu, hb]

theorem strUUID_groups (u : UUID) : ∃ a b c d e : Text,
    a.length = 8 ∧ b.length = 4 ∧ c.length = 4 ∧ d.length = 4 ∧ e.length = 12 ∧
    hexlify u.bytes = a ++ (b ++ (c ++ (d ++ e))) ∧
    strUUID u = a ++ ch '-' :: (b ++ ch '-' :: (c ++ ch '-' :: (d ++ ch '-' :: e))) := by
  have hlen : (hexlify u.bytes).length = 32 := by rw [hexlify_length, u.size]
  refine ⟨(hexlify u.bytes).take 8, ((hexlify u.bytes).drop 8).take 4, ((hexlify u.bytes).drop 12).take 4,
    ((hexlify u.bytes).drop 16).take 4, (hexlify u.bytes).drop 20, ?_, ?_, ?_, ?_, ?_, ?_, ?_⟩
  · simp [hlen]
  · simp [hlen]
  · simp [hlen]
  · simp [hlen]
  · simp [hlen]
  · have hs : ∀ k m, (hexlify u.bytes).drop k =
        ((hexlify u.bytes).drop k).take m ++ (hexlify u.bytes).drop (k + m) := by
      intro k m
      rw [← drop_drop, take_append_drop]
    rw [← hs, ← hs, ← hs, take_append_drop]
  · simp [strUUID]

theorem strUUID_length (u : UUID) : (strUUID u).length = 36 := by
  obtain ⟨a, b, c, d, e, ha, hb, hc, hd, he, -, heq⟩ := strUUID_groups u
  simp [heq, ha, hb, hc, hd, he]

theorem strUUID_all {u : UUID} : ∀ c ∈ strUUID u, isWord c := by
  obtain ⟨a, b, c, d, e, -, -, -, -, -, hhex, heq⟩ := strUUID_groups u
  have hw : ∀ x, x ∈ hexlify u.bytes → isWord x := fun x hx => (hexlify_all hx).1
  have hd : isWord (ch '-') := by decide
  intro x hx
  rw [heq] at hx
  rw [hhex] at hw
  simp only [mem_append, mem_cons] at hx hw
  rcases hx with hx | rfl | hx | rfl | hx | rfl | hx | rfl | hx
  · exact hw x (.inl hx)
  · exact hd
  · exact hw x (.inr (.inl hx))
  · exact hd
  · exact hw x (.inr (.inr (.inl hx)))
  · exact hd
  · exact hw x (.inr (.inr (.inr (.inl hx))))
  · exact hd
  · exact hw x (.inr (.inr (.inr (.inr hx))))

theorem readUUID_strUUID (u : UUID) : readUUID (strUUID u) = some u.bytes := by
  have hlen := strUUID_length u
  obtain ⟨a, b, c, d, e, ha, hb, hc, hd, he, hhex, heq⟩ := strUUID_groups u
  have h8 : (strUUID u)[8]? = some (ch '-') := by simp [heq, ha]
  have h13 : (strUUID u)[13]? = some (ch '-') := by simp [heq, getElem?_append_right, ha, hb]
  have h18 : (strUUID u)[18]? = some (ch '-') := by simp [heq, getElem?_append_right, ha, hb, hc]
  have h23 : (strUUID u)[23]? = some (ch '-') := by simp [heq, getElem?_append_right, ha, hb, hc, hd]
  have hg : (strUUID u).take 8 ++ ((strUUID u).drop 9).take 4 ++ ((strUUID u).drop 14).take 4 ++
      ((strUUID u).drop 19).take 4 ++ (strUUID u).drop 24 = hexlify u.bytes := by
    simp [heq, hhex, drop_append, drop_eq_nil_of_le, ha, hb, hc, hd]
  rw [readUUID, if_pos ⟨hlen, h8, h13, h18, h23⟩, hg, unhexlify_hexlify]

theorem readWord_uuid (u : UUID) : readWord (strUUID u) = some (.uuid u.bytes) := by
  have hlen := strUUID_length u
  have hd : ch '-' ∈ (strUUID u).tail ∧ (strUUID u).head? ≠ some (ch '-') := by
    obtain ⟨a, b, c, d, e, ha, -, -, -, -, hhex, heq⟩ := strUUID_groups u
    cases a with
    | nil => cases ha
    | cons x a =>
      have hx : x ∈ hexlify u.bytes := by simp [hhex]
      simp [heq, (hexlify_all hx).2.1]
  have hi : readInteger (strUUID u) = none := by
    cases hu : strUUID u with
    | nil => rfl
    | cons x cs =>
      rw [hu] at hd
      have hx : x ≠ ch '-' := fun h => hd.2 (congrArg some h)
      have hall : ¬(x :: cs).all isDigit := by
        intro hall
        exact absurd (all_eq_true.mp hall _ (mem_cons_of_mem _ hd.1)) (by decide)
      rw [readInteger, if_neg hx, if_neg hall]
  have hk : readKeyword (strUUID u) = none := by
    have hne : ∀ w, w.length < 36 → (strUUID u).map lower ≠ w := by
      rintro w hw rfl
      rw [length_map] at hw
      omega
    rw [readKeyword, if_neg (hne _ (by decide)), if_neg (hne _ (by decide)), if_neg (hne _ (by decide))]
  simp [readWord, hi, hk, readUUID_strUUID]

/-! ## Strings -/

theorem readString_quote (hr : Stops rest) : readString (ch '\'' :: rest) = some ([], rest) := by
  cases rest with
  | nil => simp [readString]
  | cons d rest => simp [readString, (hr d rfl).2]

theorem readString_doubleQuotes (s : Text) (hr : Stops rest) :
    readString (doubleQuotes s ++ ch '\'' :: rest) = some (s, rest) := by
  induction s with
  | nil => exact readString_quote hr
  | cons c s ih =>
    by_cases hc : c = ch '\''
    · have hcn : doubleQuotes (c :: s) = c :: c :: doubleQuotes s := by simp [doubleQuotes, hc]
      rw [hcn, cons_append, cons_append, readString, if_pos hc, if_pos hc, ih]
      rfl
    have hcn : doubleQuotes (c :: s) = c :: doubleQuotes s := by simp [doubleQuotes, hc]
    -- There is at least the closing quote behind the character.
    cases ht : doubleQuotes s ++ ch '\'' :: rest with
    | nil => simp at ht
    | cons d tail =>
      rw [ht] at ih
      rw [hcn, cons_append, ht, readString, if_neg hc, ih]
      rfl

/-! ## Collections -/

mutual

/-- A tuple is a list, and an empty set or dict is `{}`. -/
def PyValue.term : PyValue → Term
  | .none => .null
  | .str s => .str s
  | .bytes b => .blob b
  | .bool b => .bool b
  | .int n => .int n
  | .uuid u => .uuid u.bytes
  | .list xs | .tuple xs => .list (terms xs)
  | .set xs | .frozenset xs => if xs.isEmpty then .emptyCollection else .set (terms xs)
  | .dict entries => if entries.isEmpty then .emptyCollection else .map (entryTerms entries)

def terms : List PyValue → List Term
  | [] => []
  | x :: xs => x.term :: terms xs

def entryTerms : List (PyValue × PyValue) → List (Term × Term)
  | [] => []
  | (k, v) :: entries => (k.term, v.term) :: entryTerms entries

end

theorem encode_head (v : PyValue) : ∃ c cs, cqlEncodeAllTypes v = c :: cs ∧
    c ≠ ch ' ' ∧ c ≠ ch ']' ∧ c ≠ ch '}' := by
  have hw : ∀ w, w ≠ [] → (∀ c ∈ w, isWord c) →
      ∃ c cs, w = c :: cs ∧ c ≠ ch ' ' ∧ c ≠ ch ']' ∧ c ≠ ch '}' := by
    intro w hne hall
    cases w with
    | nil => exact absurd rfl hne
    | cons c cs =>
      have hc := hall c mem_cons_self
      refine ⟨c, cs, rfl, ?_, ?_, ?_⟩
      all_goals
        rintro rfl
        exact absurd hc (by decide)
  cases v with
  | none | str s | bytes b => exact ⟨_, _, rfl, by decide⟩
  | bool b => cases b <;> exact ⟨_, _, rfl, by decide⟩
  | int n =>
    exact hw _ strInt_word.1 strInt_word.2
  | uuid u =>
    rw [cqlEncodeAllTypes]
    apply hw
    · intro hnil
      have hlen := strUUID_length u
      rw [hnil] at hlen
      cases hlen
    · exact strUUID_all
  | list xs | tuple xs | set xs | frozenset xs | dict es =>
    exact ⟨_, _, rfl, by decide⟩

theorem joinComma_cons (next : Text) (parts : List Text) :
    joinComma (part :: next :: parts) = part ++ ch ',' :: ch ' ' :: joinComma (next :: parts) := by
  simp [joinComma, text]

theorem joinComma_singleton : joinComma [part] = part := by
  simp [joinComma]

theorem skipSpaces_cons (hc : c ≠ ch ' ') : skipSpaces (c :: cs) = c :: cs := by
  simp [skipSpaces, hc]

theorem skipSpaces_space : skipSpaces (ch ' ' :: cs) = skipSpaces cs := by
  simp [skipSpaces]

theorem skipSpaces_encode {v : PyValue} {rest : Text} :
    skipSpaces (cqlEncodeAllTypes v ++ rest) = cqlEncodeAllTypes v ++ rest := by
  obtain ⟨c, cs, heq, hc, -⟩ := encode_head v
  rw [heq, cons_append, skipSpaces_cons hc]

theorem stops_cons (h : isWord c = false ∧ c ≠ ch '\'') : Stops (c :: cs) := by
  rintro d hd
  cases hd
  exact h

/-- Read as its term in front of anything that stops it. -/
def Reads (t : Text) (term : Term) : Prop :=
  ∀ rest n, Stops rest → 4 * t.length ≤ n → readTerm n (t ++ rest) = some (term, rest)

def Separator (c : Nat) : Prop := c = ch ',' ∨ c = ch ']' ∨ c = ch '}'

theorem Separator.stops (h : Separator c) : isWord c = false ∧ c ≠ ch '\'' := by
  rcases h with rfl | rfl | rfl <;> decide

theorem Separator.skipSpaces (h : Separator c) (cs : Text) : skipSpaces (c :: cs) = c :: cs := by
  apply skipSpaces_cons
  rcases h with rfl | rfl | rfl <;> decide

theorem Separator.ne_colon (h : Separator c) : c ≠ ch ':' := by
  rcases h with rfl | rfl | rfl <;> decide

def ReadsItem (t : Text) (item : Term × Option Term) : Prop :=
  (∃ c cs, t = c :: cs ∧ c ≠ ch ' ' ∧ c ≠ ch ']' ∧ c ≠ ch '}') ∧
  ∀ c cs n, Separator c → 4 * t.length ≤ n → ∃ mid, readTerm n (t ++ c :: cs) = some (item.1, mid) ∧
    readValue n (skipSpaces mid) = some (item.2, c :: cs)

theorem readsItem_plain (h : Reads (cqlEncodeAllTypes v) v.term) : ReadsItem (cqlEncodeAllTypes v) (v.term, none) := by
  have hh := encode_head v
  refine ⟨hh, ?_⟩
  intro c cs n hc hn
  refine ⟨c :: cs, h _ _ (stops_cons hc.stops) hn, ?_⟩
  obtain ⟨x, xs, heq, -⟩ := hh
  rw [heq, length_cons] at hn
  obtain _ | m := n
  · omega
  rw [hc.skipSpaces, readValue, if_neg hc.ne_colon]

theorem readsItem_entry {k : PyValue} (hk : Reads (cqlEncodeAllTypes k) k.term)
    (hv : Reads (cqlEncodeAllTypes v) v.term) :
    ReadsItem (cqlEncodeAllTypes k ++ text ": " ++ cqlEncodeAllTypes v) (k.term, some v.term) := by
  have hcl : text ": " = [ch ':', ch ' '] := rfl
  refine ⟨?_, ?_⟩
  · obtain ⟨x, xs, heq, hx⟩ := encode_head k
    exact ⟨x, xs ++ text ": " ++ cqlEncodeAllTypes v, by rw [heq]; rfl, hx⟩
  intro c cs n hc hn
  simp only [hcl, length_append, length_cons] at hn
  obtain _ | m := n
  · omega
  refine ⟨ch ':' :: ch ' ' :: (cqlEncodeAllTypes v ++ c :: cs), ?_, ?_⟩
  · have ht : cqlEncodeAllTypes k ++ text ": " ++ cqlEncodeAllTypes v ++ c :: cs =
        cqlEncodeAllTypes k ++ ch ':' :: ch ' ' :: (cqlEncodeAllTypes v ++ c :: cs) := by simp [hcl]
    rw [ht]
    exact hk _ _ (stops_cons (by decide)) (by omega)
  have hs : skipSpaces (ch ' ' :: (cqlEncodeAllTypes v ++ c :: cs)) = cqlEncodeAllTypes v ++ c :: cs := by
    rw [skipSpaces_space, skipSpaces_encode]
  rw [skipSpaces_cons (by decide), readValue, hs, hv _ _ (stops_cons hc.stops) (by omega)]
  rfl

theorem readItems_join (hcl : close = ch ']' ∨ close = ch '}') (h : Forall₂ ReadsItem parts items)
    (hne : parts ≠ []) (rest : Text) (n : Nat) (hn : 4 * (joinComma parts).length + 1 ≤ n) :
    readItems n close (joinComma parts ++ close :: rest) = some (items, rest) := by
  have hsep : Separator close := Or.inr hcl
  have hcm : close ≠ ch ',' := by rcases hcl with rfl | rfl <;> decide
  induction h generalizing n with
  | nil => exact absurd rfl hne
  | @cons part item parts items hi hit ih =>
    obtain _ | m := n
    · omega
    cases hit with
    | nil =>
      rw [joinComma_singleton] at hn ⊢
      obtain ⟨mid, hkey, hv⟩ := hi.2 close rest m hsep (by omega)
      simp only [readItems, hkey, hv, hsep.skipSpaces]
      rw [if_neg hcm, if_pos trivial]
    | @cons next item' parts xs' hnx hit =>
      rw [joinComma_cons] at hn ⊢
      simp only [length_append, length_cons] at hn
      rw [append_assoc, cons_append, cons_append]
      obtain ⟨mid, hkey, hv⟩ := hi.2 _ (ch ' ' :: (joinComma (next :: parts) ++ close :: rest)) m (.inl rfl) (by omega)
      have hs : skipSpaces (ch ' ' :: (joinComma (next :: parts) ++ close :: rest)) =
          joinComma (next :: parts) ++ close :: rest := by
        obtain ⟨c, cs, rfl, hc, -⟩ := hnx.1
        cases parts with
        | nil => simp [skipSpaces, joinComma_singleton, hc]
        | cons p ps => simp [skipSpaces, joinComma_cons, hc]
      have hm := ih (by simp) m (by omega)
      simp only [readItems, hkey, hv, Separator.skipSpaces (.inl rfl), hs, hm]
      rfl

theorem readCollection_join (hcl : close = ch ']' ∨ close = ch '}') (h : Forall₂ ReadsItem parts items)
    (empty : Term) (he : items = [] → empty = term) (htr : items ≠ [] → collect close items = some term)
    (rest : Text) (n : Nat) (hn : 4 * (joinComma parts).length + 2 ≤ n) :
    readCollection n close empty (skipSpaces (joinComma parts ++ close :: rest)) = some (term, rest) := by
  have hsep : Separator close := Or.inr hcl
  obtain _ | m := n
  · omega
  cases h with
  | nil =>
    have hnil : joinComma [] = [] := rfl
    rw [hnil, nil_append, hsep.skipSpaces, readCollection, if_pos rfl, he rfl]
  | @cons part item parts items hi hit =>
    have hr := readItems_join hcl (.cons hi hit) (by simp) rest m (by omega)
    obtain ⟨c, cs, rfl, hs, hsq, hcr⟩ := hi.1
    obtain ⟨tail, ht⟩ : ∃ tail, joinComma ((c :: cs) :: parts) = c :: tail := by
      cases parts with
      | nil => exact ⟨cs, joinComma_singleton⟩
      | cons p ps => exact ⟨_, joinComma_cons _ _⟩
    have hc : c ≠ close := by rcases hcl with rfl | rfl <;> assumption
    rw [ht] at hr ⊢
    rw [cons_append] at hr ⊢
    rw [skipSpaces_cons hs, readCollection, if_neg hc, hr]
    simp [htr (by simp)]

theorem collect_list (ts : List Term) : collect (ch ']') (ts.map (·, none)) = some (.list ts) := by
  simp [collect, Function.comp_def]

theorem collect_set : collect (ch '}') (ts.map (·, none)) = some (.set ts) := by
  simp [collect, Function.comp_def, ch]

theorem collect_map {entries : List (Term × Term)} (hne : entries ≠ []) :
    collect (ch '}') (entries.map fun e => (e.1, some e.2)) = some (.map entries) := by
  have hm : ∀ entries : List (Term × Term), (entries.map fun e => (e.1, some e.2)).mapM
        (fun item => item.2.map (item.1, ·)) = some entries := by
    intro entries
    induction entries with
    | nil => rfl
    | cons e entries ih => simp [ih]
  have hv : ¬((entries.map fun e => (e.1, some e.2)).all (·.2.isNone)) := by
    cases entries with
    | nil => exact absurd rfl hne
    | cons e entries => simp
  rw [collect, if_neg (by decide), if_neg hv, hm]
  rfl

theorem reads_word (hw : readWord w = some term) (hne : w ≠ []) (hall : ∀ c ∈ w, isWord c) : Reads w term := by
  intro rest n hr hn
  have hlen := length_pos_iff.mpr hne
  obtain _ | m := n
  · omega
  exact readTerm_word hw hne hall hr

theorem reads_list (h : Forall₂ ReadsItem parts (ts.map (·, none))) :
    Reads (ch '[' :: joinComma parts ++ [ch ']']) (.list ts) := by
  intro rest n hr hn
  simp only [length_append, length_cons] at hn
  obtain _ | m := n
  · omega
  have he : ts.map (·, (none : Option Term)) = [] → Term.list [] = .list ts := by
    intro hnil
    rw [map_eq_nil_iff.mp hnil]
  have hc := readCollection_join (.inl rfl) h _ he (fun _ => collect_list ts) rest m (by omega)
  rw [append_assoc, cons_append, readTerm]
  exact hc

theorem reads_braces (h : Forall₂ ReadsItem parts items) (he : items = [] → .emptyCollection = term)
    (ht : items ≠ [] → collect (ch '}') items = some term) : Reads (ch '{' :: joinComma parts ++ [ch '}']) term := by
  intro rest n hr hn
  simp only [length_append, length_cons] at hn
  obtain _ | m := n
  · omega
  have hc := readCollection_join (.inr rfl) h .emptyCollection he ht rest m (by omega)
  rw [append_assoc, cons_append, readTerm]
  exact hc

theorem reads_set {xs : List PyValue} (h : Forall₂ ReadsItem (encodeItems xs) ((terms xs).map (·, none))) :
    Reads (ch '{' :: joinComma (encodeItems xs) ++ [ch '}'])
      (if xs.isEmpty then .emptyCollection else .set (terms xs)) := by
  apply reads_braces h
  · intro hnil
    cases xs with
    | nil => rfl
    | cons x xs => cases hnil
  intro hne
  cases xs with
  | nil => exact absurd rfl hne
  | cons x xs => exact collect_set

theorem reads_map {es : List (PyValue × PyValue)}
    (h : Forall₂ ReadsItem (encodeEntries es) ((entryTerms es).map fun e => (e.1, some e.2))) :
    Reads (ch '{' :: joinComma (encodeEntries es) ++ [ch '}'])
      (if es.isEmpty then .emptyCollection else .map (entryTerms es)) := by
  apply reads_braces h
  · intro hnil
    cases es with
    | nil => rfl
    | cons entry es => cases hnil
  intro hne
  cases es with
  | nil => exact absurd rfl hne
  | cons entry es =>
    apply collect_map
    simp [entryTerms]

mutual

theorem reads_encode : ∀ v : PyValue, Reads (cqlEncodeAllTypes v) v.term
  | .none => by
    rw [cqlEncodeAllTypes, PyValue.term]
    exact reads_word rfl (by decide) (by decide)
  | .str s => by
    rw [cqlEncodeAllTypes, PyValue.term]
    intro rest n hr hn
    simp only [cqlEncodeStr, cqlQuote, length_append, length_cons, length_nil] at hn
    obtain _ | m := n
    · omega
    rw [cqlEncodeStr, cqlQuote, append_assoc, singleton_append, cons_append, readTerm, if_pos rfl,
      readString_doubleQuotes s hr]
    rfl
  | .bytes b => by
    rw [cqlEncodeAllTypes, PyValue.term]
    exact reads_word readWord_blob (by simp [cqlEncodeBytes, text]) fun c hc => (blob_all hc).1
  | .bool b => by
    rw [cqlEncodeAllTypes, PyValue.term]
    cases b <;> exact reads_word rfl (by decide) (by decide)
  | .int n => by
    rw [cqlEncodeAllTypes, PyValue.term]
    exact reads_word (by simp [readWord, readInteger_strInt]) strInt_word.1 strInt_word.2
  | .uuid u => by
    rw [cqlEncodeAllTypes, PyValue.term]
    apply reads_word (readWord_uuid u)
    · intro hnil
      have hlen := strUUID_length u
      rw [hnil] at hlen
      cases hlen
    · exact strUUID_all
  | .list xs | .tuple xs => by
    rw [cqlEncodeAllTypes, PyValue.term]
    exact reads_list (reads_items xs)
  | .set xs | .frozenset xs => by
    rw [cqlEncodeAllTypes, PyValue.term]
    exact reads_set (reads_items xs)
  | .dict es => by
    rw [cqlEncodeAllTypes, PyValue.term]
    exact reads_map (reads_entries es)

theorem reads_items : ∀ xs : List PyValue, Forall₂ ReadsItem (encodeItems xs) ((terms xs).map (·, none))
  | [] => .nil
  | x :: xs => .cons (readsItem_plain (reads_encode x)) (reads_items xs)

theorem reads_entries : ∀ es : List (PyValue × PyValue),
    Forall₂ ReadsItem (encodeEntries es) ((entryTerms es).map fun e => (e.1, some e.2))
  | [] => .nil
  | (k, v) :: es => .cons (readsItem_entry (reads_encode k) (reads_encode v)) (reads_entries es)

end

theorem readLiteral_encode (v : PyValue) : readLiteral (cqlEncodeAllTypes v) = some v.term := by
  have hr := reads_encode v [] _ (by decide) le_rfl
  rw [append_nil] at hr
  rw [readLiteral, hr]

theorem readTerm_of_readLiteral (h : readLiteral l = some term) (hrs : Stops rest) (hn : 4 * l.length ≤ n) :
    readTerm n (l ++ rest) = some (term, rest) := by
  rw [readLiteral] at h
  split at h
  · rename_i term' hr
    cases h
    exact (readsOn _).term _ _ _ hr rest (fun _ => hrs) n hn
  · cases h

/-! ## Queries -/

/-- A query with a `%s` before each of its later pieces. -/
def queryText (first : Text) (pieces : List Text) : Text := first ++ (pieces.map (text "%s" ++ ·)).flatten

def weave (first : Text) (literals pieces : List Text) : Text :=
  first ++ (List.zipWith (· ++ ·) literals pieces).flatten

theorem formatPercent_piece {pc : Text} (h : ch '%' ∉ pc) {rest : Text} :
    formatPercent (pc ++ rest) args = (formatPercent rest args).map (pc ++ ·) := by
  induction pc with
  | nil => simp
  | cons c pc ih =>
    have hc : c ≠ ch '%' := fun hc => h (hc ▸ mem_cons_self)
    have hn := ih fun hmem => h (mem_cons_of_mem c hmem)
    cases ht : pc ++ rest with
    | nil =>
      obtain ⟨rfl, rfl⟩ := append_eq_nil_iff.mp ht
      cases args with
      | nil => simp [formatPercent, hc]
      | cons arg args => simp [formatPercent]
    | cons d tail =>
      have hs : formatPercent (c :: d :: tail) args = (formatPercent (d :: tail) args).map (c :: ·) := by
        simp [formatPercent, hc]
      rw [ht] at hn
      rw [cons_append, ht, hs, hn, Option.map_map]
      rfl

theorem formatPercent_placeholder {rest : Text} (arg : Text) :
    formatPercent (text "%s" ++ rest) (arg :: args) = (formatPercent rest args).map (arg ++ ·) := by
  have ht : text "%s" ++ rest = ch '%' :: ch 's' :: rest := rfl
  rw [ht, formatPercent, if_pos rfl, if_pos rfl]

theorem formatPercent_queryText (hlen : pieces.length = args.length) (hf : ch '%' ∉ first)
    (hpcs : ∀ p ∈ pieces, ch '%' ∉ p) :
    formatPercent (queryText first pieces) args = some (weave first args pieces) := by
  induction pieces generalizing first args with
  | nil =>
    cases args with
    | nil => rw [queryText, formatPercent_piece hf]; rfl
    | cons arg args => cases hlen
  | cons pc pieces ih =>
    cases args with
    | nil => cases hlen
    | cons arg args =>
      have hn := ih (by simpa using hlen) (hpcs pc mem_cons_self) fun p hp => hpcs p (mem_cons_of_mem pc hp)
      have hq : queryText first (pc :: pieces) = first ++ (text "%s" ++ queryText pc pieces) := by
        simp [queryText]
      rw [hq, formatPercent_piece hf, formatPercent_placeholder, hn]
      simp [weave]

theorem literal_unique {l' rest' : Text} {term' : Term} (h : readLiteral l = some term)
    (h' : readLiteral l' = some term') (hrs : Stops rest) (hrs' : Stops rest') (heq : l ++ rest = l' ++ rest') :
    l = l' ∧ rest = rest' := by
  have hr := readTerm_of_readLiteral h hrs (le_max_left _ (4 * l'.length))
  have hr' := readTerm_of_readLiteral h' hrs' (le_max_right (4 * l.length) _)
  rw [heq, hr'] at hr
  cases hr
  exact ⟨append_cancel_right heq, rfl⟩

theorem stops_append (hne : p ≠ []) (hp : Stops p) (rest : Text) : Stops (p ++ rest) := by
  cases p with
  | nil => exact absurd rfl hne
  | cons c p => exact stops_cons (hp c rfl)

theorem weave_cons (first : Text) {l : Text} (ps : List Text) :
    weave first (l :: ls) (p :: ps) = first ++ (l ++ weave p ls ps) := by
  simp [weave]

theorem weave_unique {ls' : List Text} (hlen : ls.length = pieces.length) (hlen' : ls'.length = pieces.length)
    (hpcs : ∀ p ∈ pieces.dropLast, p ≠ [] ∧ Stops p) (hls : ∀ l ∈ ls, ∃ term, readLiteral l = some term)
    (hls' : ∀ l ∈ ls', ∃ term, readLiteral l = some term) (heq : weave first ls pieces = weave first ls' pieces) :
    ls = ls' := by
  induction pieces generalizing first ls ls' with
  | nil => rw [length_eq_zero_iff.mp hlen, length_eq_zero_iff.mp hlen']
  | cons piece pieces ih =>
    obtain ⟨l, ls, rfl⟩ := exists_cons_of_length_eq_add_one hlen
    obtain ⟨l', ls', rfl⟩ := exists_cons_of_length_eq_add_one hlen'
    rw [weave_cons, weave_cons] at heq
    have ht := append_cancel_left heq
    cases pieces with
    | nil =>
      -- The last literal is what the pieces leave over.
      have hnil : ls = [] := by simpa using hlen
      have hnil' : ls' = [] := by simpa using hlen'
      subst hnil hnil'
      have hl : l ++ piece = l' ++ piece := by simpa using ht
      rw [append_cancel_right hl]
    | cons next pieces =>
      obtain ⟨hne, hs⟩ := hpcs piece (by simp)
      obtain ⟨term, htr⟩ := hls l mem_cons_self
      obtain ⟨term', ht'⟩ := hls' l' mem_cons_self
      obtain ⟨rfl, hm⟩ := literal_unique htr ht' (stops_append hne hs _) (stops_append hne hs _) ht
      have hr := ih (by simpa using hlen) (by simpa using hlen')
        (fun p hp => hpcs p (by rw [dropLast_cons_of_ne_nil (by simp)]; exact mem_cons_of_mem _ hp))
        (fun k hk => hls k (mem_cons_of_mem _ hk)) (fun k hk => hls' k (mem_cons_of_mem _ hk)) hm
      rw [hr]

/-- **Literals cannot be left.** Each reads back as its value, and queries split in one way. -/
theorem literal_cannot_be_left : (∀ v, readLiteral (cqlEncodeAllTypes v) = some v.term) ∧
    ∀ (first : Text) (pieces : List Text) (params : List PyValue), pieces.length = params.length →
      (∀ p ∈ first :: pieces, ch '%' ∉ p) → (∀ p ∈ pieces.dropLast, p ≠ [] ∧ Stops p) →
      bindParams (queryText first pieces) params = some (weave first (params.map cqlEncodeAllTypes) pieces) ∧
      ∀ literals, literals.length = params.length → (∀ l ∈ literals, ∃ term, readLiteral l = some term) →
        weave first literals pieces = weave first (params.map cqlEncodeAllTypes) pieces →
        literals = params.map cqlEncodeAllTypes := by
  refine ⟨readLiteral_encode, ?_⟩
  intro first pieces params hlen hpr hpcs
  have ha : pieces.length = (params.map cqlEncodeAllTypes).length := by rw [hlen, length_map]
  refine ⟨?_, ?_⟩
  · exact formatPercent_queryText ha (hpr first mem_cons_self) fun p hp => hpr p (mem_cons_of_mem first hp)
  intro literals hlt hr heq
  apply weave_unique (hlt.trans hlen.symm) ha.symm hpcs hr _ heq
  intro l hl
  obtain ⟨v, -, rfl⟩ := mem_map.mp hl
  exact ⟨v.term, readLiteral_encode v⟩

theorem literal_cannot_be_left_two :
    readLiteral (cqlEncodeAllTypes (.str (text "' OR '1"))) = some (.str (text "' OR '1")) ∧
    bindParams (text "a = %s AND b = %s") [.str (text "' OR '1"), .int (-5)] =
      some (text "a = ''' OR ''1' AND b = -5") ∧
    ∀ literals, literals.length = 2 → (∀ l ∈ literals, ∃ term, readLiteral l = some term) →
      weave (text "a = ") literals [text " AND b = ", []] = text "a = ''' OR ''1' AND b = -5" →
      literals = [text "''' OR ''1'", text "-5"] := by
  have hq := literal_cannot_be_left.2 (text "a = ") [text " AND b = ", []] [.str (text "' OR '1"), .int (-5)] rfl
    (by decide) (by decide)
  have hf : strInt (-5) = text "-5" := by decide +kernel
  have he : [PyValue.str (text "' OR '1"), .int (-5)].map cqlEncodeAllTypes = [text "''' OR ''1'", text "-5"] := by
    decide
  exact ⟨literal_cannot_be_left.1 _, hq⟩

/-- `1` and `23` give the text of `12` and `3`. -/
theorem adjacent_placeholders_split_twice :
    bindParams (text "%s%s") [.int 1, .int 23] = some (weave [] [text "12", text "3"] [[], []]) ∧
    readLiteral (text "12") = some (.int 12) ∧ readLiteral (text "3") = some (.int 3) ∧
    [text "12", text "3"] ≠ [PyValue.int 1, .int 23].map cqlEncodeAllTypes := by
  have hone : strInt 1 = text "1" := by decide +kernel
  have hm : strInt 23 = text "23" := by decide +kernel
  refine ⟨?_, rfl, rfl, ?_⟩
  · decide
  · decide

end CqlDriver.Literals
