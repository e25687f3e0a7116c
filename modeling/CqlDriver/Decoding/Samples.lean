import CqlDriver.Decoding.Ordered
import CqlDriver.Decoding.Reading
import CqlDriver.Types.Framing

/-! # Values without an order -/

namespace CqlDriver.Decoding

open Lib CqlDriver.Types List CqlType Python Scalar

/-! ## Encodings of some values -/

def countedBytes (items : List Bytes) : Bytes := lengthBytes 3 items.length ++ items.flatMap (framed 3)

variable {n p : Nat} {b : Bytes} {items : List Bytes}

theorem lengthValue_lengthBytes (h : n < lengthLimit p) : lengthValue p (lengthBytes p n) = n := by
  have hunp := unpackLength_eq h
  have ht := unpackLength_take (p := p) (b := lengthBytes p n) (by simp)
  rw [← lengthBytes_length, take_length] at ht
  exact Option.some.inj (ht.symm.trans hunp)

theorem takeItem_framed (h : b.length < lengthLimit p) (rest : Bytes) :
    takeItem p (framed p b ++ rest) = some (b, rest) := by
  have hlen := lengthValue_lengthBytes h
  have hs : framed p b ++ rest = lengthBytes p b.length ++ (b ++ rest) := by simp [framed]
  have hd : (lengthBytes p b.length ++ (b ++ rest)).drop (lengthWidth p) = b ++ rest :=
    drop_left' (lengthBytes_length ..)
  have hd' : (lengthBytes p b.length ++ (b ++ rest)).drop (lengthWidth p + b.length) = rest := by
    rw [← drop_drop, hd, drop_left]
  rw [takeItem, hs, count_take, hlen]
  simp only [Int.toNat_natCast, hd, hd', take_left]
  rw [if_pos (by simp)]

variable {rest : Bytes}

theorem takeItems_framed (h : ∀ b ∈ items, b.length < lengthLimit p) :
    takeItems p items.length (items.flatMap (framed p) ++ rest) = some items := by
  induction items with
  | nil => rfl
  | cons b items ih =>
    rw [forall_mem_cons] at h
    rw [length_cons, takeItems, flatMap_cons, append_assoc, takeItem_framed h.1]
    simp [ih h.2]

theorem takeCounted_lengthBytes {β : Type} (takeAll : Nat → Bytes → Option β) (h : n < lengthLimit p) :
    takeCounted p takeAll (lengthBytes p n ++ rest) = takeAll n rest := by
  have hlen := lengthValue_lengthBytes h
  rw [takeCounted, count_take, hlen, if_pos (by simp)]
  simp only [Int.toNat_natCast]
  rw [drop_left' (lengthBytes_length ..)]

theorem takeEntries_one {kb : Bytes} (hkb : kb.length < lengthLimit p) (hb : b.length < lengthLimit p) :
    takeEntries p 1 (framed p kb ++ framed p b) = some [(kb, b)] := by
  have hv := takeItem_framed hb []
  rw [append_nil] at hv
  simp [takeEntries, takeItem_framed hkb, hv]

theorem lengthLimit_three : lengthLimit 3 = 2 ^ 31 := rfl

theorem takeCounted_items (hc : items.length < 2 ^ 31) (h : ∀ b ∈ items, b.length < 2 ^ 31) :
    takeCounted 3 (takeItems 3) (countedBytes items) = some items := by
  have hi : takeItems 3 items.length (items.flatMap (framed 3) ++ []) = some items := takeItems_framed h
  rw [append_nil] at hi
  rw [countedBytes, takeCounted_lengthBytes _ hc, hi]

theorem takeFields_null : takeFields (n + 1) (signedBytes 4 (-1)) = some (none :: replicate n none) := by
  have hb : signedBytes 4 (-1) = [255, 255, 255, 255] := by decide
  have hv : signedValue [255, 255, 255, 255] < 0 := by decide
  rw [hb, takeFields]
  simp [hv, takeFields_nil]

theorem takeFields_one (hb : b.length < lengthLimit 3) :
    takeFields (n + 1) (framed 3 b) = some (some b :: replicate n none) := by
  have hlen := lengthValue_lengthBytes hb
  rw [lengthValue, if_pos le_rfl] at hlen
  have hw : (lengthBytes 3 b.length).length = 4 := lengthBytes_length ..
  have ht : (framed 3 b).take 4 = lengthBytes 3 b.length := take_left' hw
  have hd : (framed 3 b).drop 4 = b := drop_left' hw
  have hs : (framed 3 b).length = 4 + b.length := by rw [framed, length_append, hw]
  have hne : framed 3 b ≠ [] := by
    intro hnil
    rw [hnil] at hs
    simp at hs
    omega
  rw [takeFields, ht, hlen, if_neg hne, if_neg (by omega), if_neg (by omega), if_neg (by omega), Int.toNat_natCast,
    ← drop_drop, hd, drop_length, take_length, takeFields_nil]
  rfl

/-- Bytes, and the value they become under version 3. -/
structure Encodes (env : Env) (t : CqlType) (b : Bytes) (v : Value) : Prop where
  ne_nil : b ≠ []
  decodes : fromBinary env t (some b) 3 = some v
  isValue : t.IsValue v

namespace Encodes

variable {env : Env} {t k : CqlType} {ts : List CqlType} {b kb : Bytes} {v key : Value}

theorem countedBytes_ne_nil {items : List Bytes} : countedBytes items ≠ [] := count_ne_nil _ _ _

theorem list_nil : Encodes env (.list t) (countedBytes []) (.list []) where
  ne_nil := countedBytes_ne_nil
  decodes := by
    rw [fromBinary_list env (takeCounted_items (by simp) (by simp))]
    rfl
  isValue := by simp [CqlType.IsValue]

theorem list_one (h : Encodes env t b v) (hb : b.length < 2 ^ 31) : Encodes env (.list t) (countedBytes [b]) (.list [v]) where
  ne_nil := countedBytes_ne_nil
  decodes := by
    rw [fromBinary_list env (takeCounted_items (by simp) (by simpa using hb))]
    simp [innerProto, h.decodes]
  isValue := by simpa [CqlType.IsValue] using h.isValue

theorem set_nil : Encodes env (.set t) (countedBytes []) (.set []) where
  ne_nil := countedBytes_ne_nil
  decodes := by
    rw [fromBinary_set env (takeCounted_items (by simp) (by simp))]
    rfl
  isValue := by simp [CqlType.IsValue]

theorem set_one (h : Encodes env t b v) (hb : b.length < 2 ^ 31) : Encodes env (.set t) (countedBytes [b]) (.set [v]) where
  ne_nil := countedBytes_ne_nil
  decodes := by
    rw [fromBinary_set env (takeCounted_items (by simp) (by simpa using hb))]
    simp [innerProto, h.decodes, SortedSet.update, SortedSet.add, sortedPlace, bisectLoopM]
  isValue := by simpa [CqlType.IsValue] using h.isValue

theorem map_nil : Encodes env (.map k t) (countedBytes []) (.map k 3 [] Dict.empty) where
  ne_nil := countedBytes_ne_nil
  decodes := by
    have hcnt : takeCounted 3 (takeEntries 3) (countedBytes []) = some [] :=
      takeCounted_lengthBytes _ (by rw [lengthLimit_three]; simp)
    rw [fromBinary_map env hcnt]
    rfl
  isValue := by simp [CqlType.IsValue]

theorem map_one (hkey : Encodes env k kb key) (hkb : kb.length < 2 ^ 31) (h : Encodes env t b v) (hb : b.length < 2 ^ 31) :
    Encodes env (.map k t) (lengthBytes 3 1 ++ (framed 3 kb ++ framed 3 b))
      (.map k 3 [(key, v)] (Dict.empty.set kb 0)) where
  ne_nil := count_ne_nil _ _ _
  decodes := by
    have hcnt : takeCounted 3 (takeEntries 3) (lengthBytes 3 1 ++ (framed 3 kb ++ framed 3 b)) = some [(kb, b)] := by
      rw [takeCounted_lengthBytes _ (by rw [lengthLimit_three]; omega), takeEntries_one hkb hb]
    rw [fromBinary_map env hcnt]
    simp only [mapM_cons, entry, innerProto, Nat.max_self, hkey.decodes, h.decodes]
    rfl
  isValue := by simpa [CqlType.IsValue] using ⟨hkey.isValue, h.isValue⟩

theorem areComponents_none {ts : List CqlType} : CqlType.AreComponents ts (replicate ts.length .none) := by
  induction ts with
  | nil => trivial
  | cons t ts ih => exact ⟨.inl rfl, ih⟩

theorem missing_fields {env : Env} {ts : List CqlType} {p : Nat} :
    ((ts.zip (replicate ts.length none)).mapM fun f => fromBinary env f.1 f.2 p) =
      some (replicate ts.length .none) := by
  induction ts with
  | nil => rfl
  | cons t ts ih =>
    rw [length_cons, replicate_succ, zip_cons_cons, mapM_cons, fromBinary_none, ih]
    rfl

theorem null_fields {env : Env} {t : CqlType} {ts : List CqlType} :
    ((t :: ts).zip (none :: replicate ts.length none)).mapM (fun f => fromBinary env f.1 f.2 (innerProto 3)) =
      some (.none :: replicate ts.length .none) := by
  rw [zip_cons_cons, mapM_cons, fromBinary_none, missing_fields]
  rfl

theorem first_field (h : Encodes env t b v) {ts : List CqlType} :
    ((t :: ts).zip (some b :: replicate ts.length none)).mapM
      (fun f => fromBinary env f.1 f.2 (innerProto 3)) = some (v :: replicate ts.length .none) := by
  rw [zip_cons_cons, mapM_cons, missing_fields, show innerProto 3 = 3 from rfl, h.decodes]
  rfl

theorem framed_ne_nil {b : Bytes} : framed 3 b ≠ [] := count_ne_nil _ _ _

theorem tuple_null : Encodes env (.tuple (t :: ts)) (signedBytes 4 (-1)) (.tuple (.none :: replicate ts.length .none)) where
  ne_nil := by decide
  decodes := by
    rw [fromBinary_tuple env (by decide) (cons_ne_nil t ts) takeFields_null, null_fields]
    rfl
  isValue := by
    exact areComponents_none

theorem tuple_one (h : Encodes env t b v) (hb : b.length < lengthLimit 3) :
    Encodes env (.tuple (t :: ts)) (framed 3 b) (.tuple (v :: replicate ts.length .none)) where
  ne_nil := framed_ne_nil
  decodes := by
    rw [fromBinary_tuple env framed_ne_nil (cons_ne_nil t ts) (takeFields_one hb), first_field h]
    rfl
  isValue := by
    exact ⟨.inr h.isValue, areComponents_none⟩

theorem isValue_construct {u : UserType} {vs : List Value} (h : CqlType.AreComponents ts vs) :
    (user u ts).IsValue (u.construct vs) := by
  unfold UserType.construct
  split <;> simpa only [CqlType.IsValue] using h

theorem user_null (u : UserType) :
    Encodes env (.user u (t :: ts)) (signedBytes 4 (-1)) (u.construct (.none :: replicate ts.length .none)) where
  ne_nil := by decide
  decodes := by
    rw [fromBinary_user env (by decide) (cons_ne_nil t ts) takeFields_null, null_fields]
    rfl
  isValue := isValue_construct areComponents_none

section

variable (h : Encodes env t b v)
include h

theorem user_one {u : UserType} (hb : b.length < lengthLimit 3) :
    Encodes env (.user u (t :: ts)) (framed 3 b) (u.construct (v :: replicate ts.length .none)) where
  ne_nil := framed_ne_nil
  decodes := by
    rw [fromBinary_user env framed_ne_nil (cons_ne_nil t ts) (takeFields_one hb), first_field h]
    rfl
  isValue := isValue_construct ⟨.inr h.isValue, areComponents_none⟩

theorem frozen : Encodes env (.frozen t) b v where
  ne_nil := h.ne_nil
  decodes := (fromBinary_frozen env h.ne_nil).trans h.decodes
  isValue := by simpa only [CqlType.IsValue] using h.isValue

theorem reversed : Encodes env (.reversed t) b v where
  ne_nil := h.ne_nil
  decodes := (fromBinary_reversed env h.ne_nil).trans h.decodes
  isValue := by simpa only [CqlType.IsValue] using h.isValue

end

theorem scalar {s : Scalar} (hb : b ≠ []) (h : deserializeScalar env s b = some v) (hv : s.IsValue v) :
    Encodes env (.scalar s) b v where
  ne_nil := hb
  decodes := (fromBinary_some env hb).trans h
  isValue := by simpa only [CqlType.IsValue] using hv

end Encodes

/-! ## Two values of each type -/

def HasTwo (env : Env) (t : CqlType) (related : Value → Value → Prop) : Prop :=
  ∃ b₁ v₁ b₂ v₂, Encodes env t b₁ v₁ ∧ Encodes env t b₂ v₂ ∧ b₁.length ≤ 16 ∧ b₂.length ≤ 64 ∧ related v₁ v₂

theorem datetime_second (r : Rounding) {k : ℤ} (hk : |k| ≤ 1000) :
    Util.datetimeFromTimestamp r (timestampSeconds r (k * 1000)) = some ⟨k * 1000000⟩ := by
  have hk' := abs_le.mp hk
  have hm : |k * 1000| ≤ 2 ^ 53 := by rw [abs_mul]; norm_num; omega
  have hs : timestampSeconds r (k * 1000) = (k : ℚ) := by
    rw [timestampSeconds_eq r hm]
    push_cast
    rw [mul_div_cancel_right₀ _ (by norm_num), r.round_intCast (by omega)]
  have hz : r.round ((k - truncate (k : ℚ)) * 1000000) = 0 := by
    rw [truncate_intCast, sub_self]
    exact_mod_cast r.round_intCast (m := 0) (by norm_num)
  have hmic : Util.timedelta r k = k * 1000000 := by
    rw [Util.timedelta, hz, truncate_intCast]
    exact roundHalfEven_eq (.inl (by push_cast; norm_num))
  rw [Util.datetimeFromTimestamp, hs, hmic, afterEpoch, if_pos (by omega)]

def Scalar.samples : Scalar → (Bytes × Value) × Bytes × Value
  | .bytes => (([0], .bytes [0]), [1], .bytes [1])
  | .decimal => (([0, 0, 0, 0, 0], .decimal 0 0), [0, 0, 0, 0, 1], .decimal 1 0)
  | .uuid | .timeUUID =>
    ((List.replicate 16 0, .uuid (List.replicate 16 0)), List.replicate 16 1, .uuid (List.replicate 16 1))
  | .boolean => (([0], .bool false), [1], .bool true)
  | .byte | .integer => (([0], .int 0), [1], .int 1)
  | .short => (([0, 0], .int 0), [0, 1], .int 1)
  | .int32 => (([0, 0, 0, 0], .int 0), [0, 0, 0, 1], .int 1)
  | .long | .counterColumn => (([0, 0, 0, 0, 0, 0, 0, 0], .int 0), [0, 0, 0, 0, 0, 0, 0, 1], .int 1)
  | .ascii | .utf8 | .varchar => (([97], .str ['a']), [98], .str ['b'])
  | .float => (([0, 0, 0, 0], .float 0), [0, 0, 0, 1], .float 1)
  | .double => (([0, 0, 0, 0, 0, 0, 0, 0], .double 0), [0, 0, 0, 0, 0, 0, 0, 1], .double 1)
  | .inetAddress => (([0, 0, 0, 0], .inet [0, 0, 0, 0]), [0, 0, 0, 1], .inet [0, 0, 0, 1])
  | .date | .timestamp => (([0, 0, 0, 0, 0, 0, 0, 0], .datetime ⟨0⟩), [0, 0, 0, 0, 0, 0, 3, 232], .datetime ⟨1000000⟩)
  | .simpleDate => (([128, 0, 0, 0], .date 0), [128, 0, 0, 1], .date 1)
  | .time => (([0, 0, 0, 0, 0, 0, 0, 0], .time 0), [0, 0, 0, 0, 0, 0, 0, 1], .time 1)

theorem utf8Decode_sample : utf8Decode [97] = some ['a'] ∧ utf8Decode [98] = some ['b'] :=
  ⟨utf8Decode_utf8Encode ['a'], utf8Decode_utf8Encode ['b']⟩

variable {s : Scalar}

theorem deserialize_samples {env : Env} : deserializeScalar env s s.samples.1.1 = some s.samples.1.2 ∧
      deserializeScalar env s s.samples.2.1 = some s.samples.2.2 := by
  cases s with
  | bytes | uuid | timeUUID | inetAddress => exact ⟨rfl, rfl⟩
  | decimal | integer =>
    simp [samples, deserializeScalar, unpackSigned, signedValue, beDecode, varintUnpack]
  | boolean | byte | short | int32 | long | counterColumn | ascii =>
    simp [samples, deserializeScalar, unpackSigned, signedValue, beDecode]
  | float | double | simpleDate => simp [samples, deserializeScalar, unpackUnsigned, beDecode]
  | utf8 | varchar => simp [samples, deserializeScalar, utf8Decode_sample]
  | time => simp [samples, deserializeScalar, unpackSigned, signedValue, beDecode, nanosOfDay]
  | date | timestamp =>
    have h₀ := datetime_second env.rounding (k := 0) (by decide)
    have h₁ := datetime_second env.rounding (k := 1) (by decide)
    norm_num at h₀ h₁
    simp [samples, deserializeScalar, unpackSigned, signedValue, beDecode, h₀, h₁]

theorem isValue_samples : s.IsValue s.samples.1.2 ∧ s.IsValue s.samples.2.2 := by
  cases s with
  | decimal => exact ⟨⟨(0, 0), rfl⟩, ⟨(1, 0), rfl⟩⟩
  | _ => exact ⟨⟨_, rfl⟩, ⟨_, rfl⟩⟩

theorem different_samples {inet : InetText} : Different (valueEq inet) s.samples.1.2 s.samples.2.2 := by
  cases s with
  | inetAddress =>
    have hne : ∀ {a b}, a.length = 4 → b.length = 4 → a ≠ b → inet.text a ≠ inet.text b :=
      fun ha hb hne ht => hne (inet.injective _ _ (.inl ha) (.inl hb) ht)
    simp [Different, samples, valueEq, hne]
  | float | double => simp [Different, samples, valueEq]; decide
  | decimal => simp [Different, samples, valueEq, decimalValue]
  | _ => simp [Different, samples, valueEq]

theorem hasTwo_scalar {env : Env} {inet : InetText} : HasTwo env (.scalar s) (Different (valueEq inet)) := by
  have hs : s.samples.1.1 ≠ [] ∧ s.samples.2.1 ≠ [] ∧ s.samples.1.1.length ≤ 16 ∧ s.samples.2.1.length ≤ 64 := by
    cases s <;> decide
  obtain ⟨h₁, h₂⟩ := deserialize_samples
  obtain ⟨hv₁, hv₂⟩ := isValue_samples
  exact ⟨_, _, _, _, .scalar hs.1 h₁ hv₁, .scalar hs.2.1 h₂ hv₂, hs.2.2.1, hs.2.2.2, different_samples⟩

theorem not_isValue_none : ∀ t : CqlType, ¬ t.IsValue .none
  | .scalar s => by cases s <;> simp [CqlType.IsValue, Scalar.IsValue]
  | .frozen t | .reversed t => by simpa only [CqlType.IsValue] using not_isValue_none t
  | .list _ | .set _ | .map _ _ | .tuple _ | .user _ _ | .composite _ => by simp [CqlType.IsValue]

section

variable (inet : InetText) {v : Value}

theorem different_none (h : v ≠ .none) : Different (valueEq inet) .none v := by
  cases v with
  | none => exact absurd rfl h
  | _ => simp [Different, valueEq]

/-- Different values, neither below the other. -/
structure Apart (a b : Value) : Prop where
  different : Different (valueEq inet) a b
  not_below : ∀ n, valueLt inet n a b ≠ some true
  not_above : ∀ n, valueLt inet n b a ≠ some true

variable {as bs : List Value}

theorem apart_heads (h : v ≠ .none) :
    (valueEqList inet (.none :: as) (v :: bs) = false ∧ valueEqList inet (v :: bs) (.none :: as) = false) ∧
    ∀ n, ltItems inet (valueLt inet n) (.none :: as) (v :: bs) = none ∧
      ltItems inet (valueLt inet n) (v :: bs) (.none :: as) = none := by
  obtain ⟨hne, hne'⟩ := different_none inet h
  refine ⟨by simp [valueEqList, hne, hne'], fun n => ?_⟩
  simp [ltItems, hne, hne', valueLt_none]

theorem apart_tuples (h : v ≠ .none) : Apart inet (.tuple (.none :: as)) (.tuple (v :: bs)) := by
  obtain ⟨hne, hlt⟩ := apart_heads inet h
  refine ⟨by simpa only [Different, valueEq] using hne, fun n => ?_, fun n => ?_⟩ <;> cases n <;> simp [valueLt, hlt]

theorem apart_construct {u : UserType} (h : v ≠ .none) :
    Apart inet (u.construct (.none :: as)) (u.construct (v :: bs)) := by
  unfold UserType.construct
  split
  · obtain ⟨hne, hlt⟩ := apart_heads inet h
    refine ⟨by simpa only [Different, valueEq] using hne, fun n => ?_, fun n => ?_⟩
    · cases n <;> simp [valueLt, hlt]
    · cases n <;> simp [valueLt, hlt]
  · exact apart_tuples inet h

variable {env : Env}

theorem length_countedBytes_one {b : Bytes} : (countedBytes [b]).length = b.length + 8 := by
  simp [countedBytes, framed, lengthWidth]
  omega

section

variable {k t : CqlType} {P Q : Value → Value → Prop}

theorem HasTwo.map (hk : HasTwo env k P) (ht : HasTwo env t Q) : HasTwo env (.map k t) (Apart inet) := by
  obtain ⟨kb, key, -, -, hkey, -, hkb, -⟩ := hk
  obtain ⟨b, v, -, -, h, -, hb, -⟩ := ht
  refine ⟨_, _, _, _, .map_nil, hkey.map_one (by omega) h (by omega), by decide, ?_, ?_⟩
  · simp [framed, lengthWidth]
    omega
  refine ⟨by simp [Different, valueEq, valueEqPairs], fun n => ?_, fun n => ?_⟩ <;> cases n <;> simp [valueLt]

theorem HasTwo.tuple (ht : HasTwo env t P) (ts : List CqlType) : HasTwo env (.tuple (t :: ts)) (Apart inet) := by
  obtain ⟨b, v, -, -, h, -, hb, -⟩ := ht
  have hv : v ≠ .none := fun hn => not_isValue_none t (hn ▸ h.isValue)
  refine ⟨_, _, _, _, .tuple_null, h.tuple_one (by rw [lengthLimit_three]; omega), by decide, ?_, apart_tuples inet hv⟩
  simp [framed, lengthWidth]
  omega

theorem HasTwo.user (ht : HasTwo env t P) (u : UserType) (ts : List CqlType) :
    HasTwo env (.user u (t :: ts)) (Apart inet) := by
  obtain ⟨b, v, -, -, h, -, hb, -⟩ := ht
  have hv : v ≠ .none := fun hn => not_isValue_none t (hn ▸ h.isValue)
  refine ⟨_, _, _, _, .user_null u, h.user_one (by rw [lengthLimit_three]; omega), by decide, ?_,
    apart_construct inet hv⟩
  simp [framed, lengthWidth]
  omega

theorem HasTwo.imp (h : HasTwo env t P) (himp : ∀ a b, P a b → Q a b) : HasTwo env t Q := by
  obtain ⟨b₁, v₁, b₂, v₂, h₁, h₂, hb₁, hb₂, hr⟩ := h
  exact ⟨b₁, v₁, b₂, v₂, h₁, h₂, hb₁, hb₂, himp _ _ hr⟩

end

theorem hasTwo : ∀ t : CqlType, t.Plain → HasTwo env t (Different (valueEq inet)) := by
  apply subtypes_induction
  intro t ih ht
  cases t with
  | scalar s => exact hasTwo_scalar
  | list t =>
    obtain ⟨b, v, -, -, h, -, hb, -⟩ := ih t (by simp [subtypes]) ht
    refine ⟨_, _, _, _, .list_nil, h.list_one (by omega), by decide, ?_, by simp [Different, valueEq, valueEqList]⟩
    rw [length_countedBytes_one]
    omega
  | set t =>
    obtain ⟨b, v, -, -, h, -, hb, -⟩ := ih t (by simp [subtypes]) ht
    refine ⟨_, _, _, _, .set_nil, h.set_one (by omega), by decide, ?_, by simp [Different, valueEq, valueEqList]⟩
    rw [length_countedBytes_one]
    omega
  | map k t =>
    have hk := ih k (by simp [subtypes]) ht.1
    have ht := ih t (by simp [subtypes]) ht.2
    exact (hk.map inet ht).imp fun _ _ => Apart.different
  | tuple ts =>
    obtain ⟨t, ts, rfl⟩ := exists_cons_of_ne_nil ht.1
    have h := ih t (by simp [subtypes]) ht.2.1
    exact (h.tuple inet ts).imp fun _ _ => Apart.different
  | user u ts =>
    obtain ⟨t, ts, rfl⟩ := exists_cons_of_ne_nil ht.1
    have h := ih t (by simp [subtypes]) ht.2.1
    exact (h.user inet u ts).imp fun _ _ => Apart.different
  | reversed t =>
    obtain ⟨b₁, v₁, b₂, v₂, h₁, h₂, hr⟩ := ih t (by simp [subtypes]) ht
    exact ⟨b₁, v₁, b₂, v₂, h₁.reversed, h₂.reversed, hr⟩
  | frozen t =>
    obtain ⟨b₁, v₁, b₂, v₂, h₁, h₂, hr⟩ := ih t (by simp [subtypes]) ht
    exact ⟨b₁, v₁, b₂, v₂, h₁.frozen, h₂.frozen, hr⟩
  | composite ts => exact ht.elim

/-! ## Types without an order -/

def Scalar.floatSamples : Scalar → (Bytes × Value) × Bytes × Value
  | .double => (([0, 0, 0, 0, 0, 0, 0, 0], .double 0), [0x7f, 0xf8, 0, 0, 0, 0, 0, 0], .double 0x7ff8000000000000)
  | _ => (([0, 0, 0, 0], .float 0), [0x7f, 0xc0, 0, 0], .float 0x7fc00000)

theorem hasTwo_float {s : Scalar} (hs : s = .float ∨ s = .double) : HasTwo env (.scalar s) (Apart inet) := by
  have h : deserializeScalar env s s.floatSamples.1.1 = some s.floatSamples.1.2 ∧
      deserializeScalar env s s.floatSamples.2.1 = some s.floatSamples.2.2 := by
    rcases hs with rfl | rfl <;> simp [floatSamples, deserializeScalar, unpackUnsigned, beDecode]
  have hv : s.IsValue s.floatSamples.1.2 ∧ s.IsValue s.floatSamples.2.2 := by
    rcases hs with rfl | rfl <;> exact ⟨⟨_, rfl⟩, ⟨_, rfl⟩⟩
  have hsz : s.floatSamples.1.1 ≠ [] ∧ s.floatSamples.2.1 ≠ [] ∧ s.floatSamples.1.1.length ≤ 16 ∧
      s.floatSamples.2.1.length ≤ 64 := by
    rcases hs with rfl | rfl <;> decide
  have ha : Apart inet s.floatSamples.1.2 s.floatSamples.2.2 := by
    rcases hs with rfl | rfl
    all_goals refine ⟨⟨rfl, rfl⟩, fun n => ?_, fun n => ?_⟩ <;> cases n <;>
        simp [valueLt, floatSamples, floatLt, isNaN, singleInfinity, doubleInfinity]
  exact ⟨_, _, _, _, .scalar hsz.1 h.1 hv.1, .scalar hsz.2.1 h.2 hv.2, hsz.2.2.1, hsz.2.2.2, ha⟩

variable {w : Value}

theorem apart_lists {v : Value} (h : Apart inet v w) : Apart inet (.list [v]) (.list [w]) := by
  obtain ⟨⟨hne, hne'⟩, hb, ha⟩ := h
  refine ⟨by simp [Different, valueEq, valueEqList, hne, hne'], fun n => ?_, fun n => ?_⟩
  · cases n with
    | zero => simp [valueLt]
    | succ n => simpa [valueLt, ltItems, hne] using hb n
  cases n with
  | zero => simp [valueLt]
  | succ n => simpa [valueLt, ltItems, hne'] using ha n

theorem apart_sets {v : Value} (h : Different (valueEq inet) v w) : Apart inet (.set [v]) (.set [w]) := by
  refine ⟨by simp [Different, valueEq, valueEqList, h.1, h.2], fun n => ?_, fun n => ?_⟩ <;>
    cases n <;> simp [valueLt, SortedSet.less]

theorem exists_apart : ∀ t : CqlType, t.Plain → ¬ t.Ordered → 8 * t.listDepth + 72 < 2 ^ 31 →
    ∃ b₁ v₁ b₂ v₂, Encodes env t b₁ v₁ ∧ Encodes env t b₂ v₂ ∧ b₁.length ≤ 8 * t.listDepth + 72 ∧
      b₂.length ≤ 8 * t.listDepth + 72 ∧ Apart inet v₁ v₂ := by
  have hsr : ∀ {t}, HasTwo env t (Apart inet) → ∃ b₁ v₁ b₂ v₂, Encodes env t b₁ v₁ ∧ Encodes env t b₂ v₂ ∧
      b₁.length ≤ 8 * t.listDepth + 72 ∧ b₂.length ≤ 8 * t.listDepth + 72 ∧ Apart inet v₁ v₂ := by
    rintro t ⟨b₁, v₁, b₂, v₂, h₁, h₂, hb₁, hb₂, ha⟩
    exact ⟨b₁, v₁, b₂, v₂, h₁, h₂, by omega, by omega, ha⟩
  apply subtypes_induction
  intro t ih ht hord hd
  cases t with
  | scalar s =>
    refine hsr (hasTwo_float inet ?_)
    by_contra hs
    exact hord (not_or.mp hs)
  | list t =>
    rw [listDepth] at hd ⊢
    obtain ⟨b₁, v₁, b₂, v₂, h₁, h₂, hb₁, hb₂, ha⟩ := ih t (by simp [subtypes]) ht hord (by omega)
    refine ⟨_, _, _, _, h₁.list_one (by omega), h₂.list_one (by omega), ?_, ?_, apart_lists inet ha⟩
    · rw [length_countedBytes_one]
      omega
    rw [length_countedBytes_one]
    omega
  | set t =>
    obtain ⟨b₁, v₁, b₂, v₂, h₁, h₂, hb₁, hb₂, hdf⟩ := hasTwo inet t ht
    refine ⟨_, _, _, _, h₁.set_one (by omega), h₂.set_one (by omega), ?_, ?_, apart_sets inet hdf⟩
    · rw [length_countedBytes_one]
      omega
    rw [length_countedBytes_one]
    omega
  | map k t => exact hsr ((hasTwo inet k ht.1).map inet (hasTwo inet t ht.2))
  | tuple ts =>
    obtain ⟨t, ts, rfl⟩ := exists_cons_of_ne_nil ht.1
    exact hsr ((hasTwo inet t ht.2.1).tuple inet ts)
  | user u ts =>
    obtain ⟨t, ts, rfl⟩ := exists_cons_of_ne_nil ht.1
    exact hsr ((hasTwo inet t ht.2.1).user inet u ts)
  | reversed t =>
    obtain ⟨b₁, v₁, b₂, v₂, h₁, h₂, hr⟩ := ih t (by simp [subtypes]) ht hord hd
    exact ⟨b₁, v₁, b₂, v₂, h₁.reversed, h₂.reversed, hr⟩
  | frozen t =>
    obtain ⟨b₁, v₁, b₂, v₂, h₁, h₂, hr⟩ := ih t (by simp [subtypes]) ht hord hd
    exact ⟨b₁, v₁, b₂, v₂, h₁.frozen, h₂.frozen, hr⟩
  | composite ts => exact ht.elim

end

end CqlDriver.Decoding
