import CqlDriver.Decoding.Compare
import CqlDriver.Types.SortedSetChains

/-! # Values with an order -/

namespace CqlDriver.Decoding

open Lib CqlDriver.Types

/-! ## Values of a type -/

def Scalar.IsValue (v : Value) : Scalar → Prop
  | .bytes => ∃ b, v = .bytes b
  | .decimal => ∃ d : ℤ × ℤ, v = .decimal d.1 d.2
  | .uuid | .timeUUID => ∃ b, v = .uuid b
  | .boolean => ∃ b, v = .bool b
  | .byte | .short | .int32 | .long | .counterColumn | .integer => ∃ n, v = .int n
  | .float => ∃ bits, v = .float bits
  | .double => ∃ bits, v = .double bits
  | .ascii | .utf8 | .varchar => ∃ s, v = .str s
  | .inetAddress => ∃ b, v = .inet b
  | .date | .timestamp => ∃ d, v = .datetime d
  | .simpleDate => ∃ n, v = .date n
  | .time => ∃ n, v = .time n

namespace CqlType

mutual

/-- A value of the type, `None` only as a component. -/
def IsValue : CqlType → Value → Prop
  | .scalar s, v => Scalar.IsValue v s
  | .list t, .list vs | .set t, .set vs => ∀ v ∈ vs, IsValue t v
  | .map k t, .map _ _ items _ => ∀ e ∈ items, IsValue k e.1 ∧ IsValue t e.2
  | .tuple ts, .tuple vs | .user _ ts, .user _ vs | .user _ ts, .tuple vs => AreComponents ts vs
  | .frozen t, v | .reversed t, v => IsValue t v
  | _, _ => False

def AreComponents : List CqlType → List Value → Prop
  | [], [] => True
  | t :: ts, v :: vs => (v = .none ∨ IsValue t v) ∧ AreComponents ts vs
  | _, _ => False

end

mutual

/-- Nestings of scalars and collections; tuples and user types have a component. -/
def Plain : CqlType → Prop
  | .scalar _ => True
  | .list t | .set t | .frozen t | .reversed t => Plain t
  | .map k t => Plain k ∧ Plain t
  | .tuple ts | .user _ ts => ts ≠ [] ∧ AllPlain ts
  | .composite _ => False

def AllPlain : List CqlType → Prop
  | [] => True
  | t :: ts => Plain t ∧ AllPlain ts

end

/-- Scalars but floats, and lists of such. -/
def Ordered : CqlType → Prop
  | .scalar s => s ≠ .float ∧ s ≠ .double
  | .list t | .frozen t | .reversed t => Ordered t
  | _ => False

def listDepth : CqlType → Nat
  | .list t => listDepth t + 1
  | .frozen t | .reversed t => listDepth t
  | _ => 0

end CqlType

/-! ## Ordered types -/

section

variable (inet : InetText)

def intKey : Value → ℤ
  | .int n | .date n | .time n => n
  | .datetime d => d.micros
  | .bool b => b.toInt
  | _ => 0

def codesKey : Value → List ℕ
  | .bytes b | .uuid b => b.map UInt8.toNat
  | .str s => s.map Char.toNat
  | .inet b => (inet.text b).map Char.toNat
  | _ => []

def decimalKey : Value → ℚ
  | .decimal u e => decimalValue u e
  | _ => 0

theorem bytesKey_inj {a b : Bytes} : a.map UInt8.toNat = b.map UInt8.toNat ↔ a = b :=
  (List.map_injective_iff.mpr fun _ _ => UInt8.toNat_inj.mp).eq_iff

theorem strKey_inj {a b : List Char} : a.map Char.toNat = b.map Char.toNat ↔ a = b :=
  (List.map_injective_iff.mpr fun _ _ => Char.toNat_inj.mp).eq_iff

variable {n : Nat}

theorem keyed_constructor {β κ : Type} [LinearOrder κ] (constructor : β → Value) (key : Value → κ)
    {below : β → β → Bool} (hlt : ∀ x y, valueLt inet n (constructor x) (constructor y) = some (below x y))
    (hb : ∀ x y, below x y ↔ key (constructor x) < key (constructor y))
    (heq : ∀ x y, valueEq inet (constructor x) (constructor y) ↔ key (constructor x) = key (constructor y)) :
    Keyed (valueLt inet n) (valueEq inet) fun v => ∃ x, v = constructor x := by
  refine ⟨κ, inferInstance, key, ?_⟩
  rintro _ _ ⟨x, rfl⟩ ⟨y, rfl⟩
  exact ⟨⟨_, hlt x y, hb x y⟩, heq x y⟩

theorem keyed_scalar {s : Scalar} (hs : (CqlType.scalar s).Ordered) (n : Nat) :
    Keyed (valueLt inet (n + 1)) (valueEq inet) fun v => s.IsValue v := by
  cases s with
  | bytes =>
    exact keyed_constructor inet .bytes (codesKey inet) (fun x y => rfl) (by simp [codesLt, codesKey])
      (by simp [valueEq, codesKey, bytesKey_inj])
  | uuid | timeUUID =>
    exact keyed_constructor inet .uuid (codesKey inet) (fun x y => rfl) (by simp [codesLt, codesKey])
      (by simp [valueEq, codesKey, bytesKey_inj])
  | ascii | utf8 | varchar =>
    exact keyed_constructor inet .str (codesKey inet) (fun x y => rfl) (by simp [codesLt, codesKey])
      (by simp [valueEq, codesKey, strKey_inj])
  | inetAddress =>
    exact keyed_constructor inet .inet (codesKey inet) (fun x y => rfl) (by simp [codesLt, codesKey])
      (by simp [valueEq, codesKey, strKey_inj])
  | decimal =>
    exact keyed_constructor inet (fun d : ℤ × ℤ => .decimal d.1 d.2) decimalKey (fun x y => rfl) (by simp [decimalKey])
      (by simp [valueEq, decimalKey])
  | boolean => exact keyed_constructor inet .bool intKey (fun x y => rfl) (by decide) (by simp [valueEq, intKey])
  | byte | short | int32 | long | counterColumn | integer =>
    exact keyed_constructor inet .int intKey (fun x y => rfl) (by simp [intKey]) (by simp [valueEq, intKey])
  | date | timestamp =>
    exact keyed_constructor inet .datetime intKey (fun x y => rfl) (by simp [intKey]) (by simp [valueEq, intKey])
  | simpleDate => exact keyed_constructor inet .date intKey (fun x y => rfl) (by simp [intKey]) (by simp [valueEq, intKey])
  | time => exact keyed_constructor inet .time intKey (fun x y => rfl) (by simp [intKey]) (by simp [valueEq, intKey])
  | float => exact absurd rfl hs.1
  | double => exact absurd rfl hs.2

def listKey {κ : Type} (key : Value → κ) : Value → List κ
  | .list vs => vs.map key
  | _ => []

theorem keyed_list {P : Value → Prop} {n : Nat} (h : Keyed (valueLt inet n) (valueEq inet) P) :
    Keyed (valueLt inet (n + 1)) (valueEq inet) fun v => ∃ vs, v = .list vs ∧ ∀ x ∈ vs, P x := by
  obtain ⟨κ, _, key, hkey⟩ := h
  have hl : ∀ as bs, (∀ x ∈ as, P x) → (∀ x ∈ bs, P x) →
      (∃ below, ltItems inet (valueLt inet n) as bs = some below ∧ (below ↔ as.map key < bs.map key)) ∧
        (valueEqList inet as bs ↔ as.map key = bs.map key) := by
    intro as
    induction as with
    | nil =>
      intro bs _ _
      cases bs <;> simp [ltItems, valueEqList]
    | cons a as ih =>
      intro bs has hbs
      cases bs with
      | nil => simp [ltItems, valueEqList]
      | cons b bs =>
        rw [List.forall_mem_cons] at has hbs
        obtain ⟨⟨below, hlt, hb⟩, heq⟩ := hkey a b has.1 hbs.1
        obtain ⟨⟨below', hlt', hb'⟩, heq'⟩ := ih bs has.2 hbs.2
        simp only [ltItems, valueEqList, hlt, hlt', Bool.and_eq_true, heq, heq', List.map_cons, List.cons.injEq, and_true,
          List.cons_lt_cons_iff]
        by_cases hab : key a = key b
        · exact ⟨below', by rw [if_pos hab], by simp [hab, hb']⟩
        · exact ⟨below, by rw [if_neg hab], by simp [hab, hb]⟩
  refine ⟨List κ, inferInstance, listKey key, ?_⟩
  rintro _ _ ⟨as, rfl, has⟩ ⟨bs, rfl, hbs⟩
  have h := hl as bs has hbs
  exact h

theorem list_of_isValue {t : CqlType} {v : Value} (h : (CqlType.list t).IsValue v) :
    ∃ vs, v = .list vs ∧ ∀ x ∈ vs, t.IsValue x := by
  cases v with
  | list vs => exact ⟨vs, rfl, by simpa only [CqlType.IsValue] using h⟩
  | _ => simp [CqlType.IsValue] at h

theorem keyed_of_ordered : ∀ {t : CqlType}, t.Ordered → ∀ {n : Nat}, t.listDepth < n →
    Keyed (valueLt inet n) (valueEq inet) t.IsValue
  | .scalar s, hs, n + 1, _ => by simpa only [CqlType.IsValue] using keyed_scalar inet hs n
  | .list t, ht, n + 1, hn => by
    have hi := keyed_of_ordered (show t.Ordered from ht) (show t.listDepth < n by simpa [CqlType.listDepth] using hn)
    obtain ⟨κ, _, key, hkey⟩ := keyed_list inet hi
    refine ⟨κ, inferInstance, key, fun a b ha hb => hkey a b ?_ ?_⟩
    · exact list_of_isValue ha
    · exact list_of_isValue hb
  | .frozen t, ht, n, hn | .reversed t, ht, n, hn => by
    simpa only [CqlType.IsValue] using keyed_of_ordered (show t.Ordered from ht) hn

end

end CqlDriver.Decoding
