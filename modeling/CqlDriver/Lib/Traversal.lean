import Mathlib.Data.List.Forall2

/-!
# Functions that may fail, over a list
-/

namespace CqlDriver.Lib

open List

variable {α β : Type} {f : α → Option β} {l : List α} {l' : List β}

theorem mapM_eq_some : l.mapM f = some l' ↔ Forall₂ (fun a b => f a = some b) l l' := by
  induction l generalizing l' with
  | nil => simp
  | cons a l ih =>
    simp only [mapM_cons, Option.bind_eq_bind, Option.bind_eq_some_iff, forall₂_cons_left_iff]
    grind

theorem mapM_isSome : (l.mapM f).isSome ↔ ∀ a ∈ l, (f a).isSome := by
  induction l with
  | nil => simp
  | cons a l ih =>
    rw [forall_mem_cons, ← ih, mapM_cons]
    cases f a with
    | none => simp
    | some b => cases l.mapM f <;> simp

variable {b : β} {a : α}

theorem exists_of_mem_result (h : l.mapM f = some l') (hb : b ∈ l') : ∃ a ∈ l, f a = some b := by
  rw [mapM_eq_some] at h
  induction h with
  | nil => cases hb
  | @cons a b' l l' hab _ ih =>
    rcases mem_cons.mp hb with rfl | hb
    · exact ⟨a, mem_cons_self, hab⟩
    obtain ⟨a', ha', hfa⟩ := ih hb
    exact ⟨a', mem_cons_of_mem _ ha', hfa⟩

theorem mem_result (h : l.mapM f = some l') (ha : a ∈ l) (hab : f a = some b) : b ∈ l' := by
  rw [mapM_eq_some] at h
  induction h with
  | nil => cases ha
  | @cons a' b' l l' hab' _ ih =>
    rcases mem_cons.mp ha with rfl | ha
    · rw [hab', Option.some.injEq] at hab
      exact hab ▸ mem_cons_self
    · exact mem_cons_of_mem _ (ih ha)

theorem mapM_congr {g : α → Option β} (h : ∀ a ∈ l, f a = g a) : l.mapM f = l.mapM g := by
  induction l with
  | nil => rfl
  | cons a l ih =>
    rw [forall_mem_cons] at h
    rw [mapM_cons, mapM_cons, h.1, ih h.2]

theorem mapM_map_result {γ : Type} (g : β → γ) (l : List α) :
    (l.mapM fun a => (f a).map g) = (l.mapM f).map (map g) := by
  induction l with
  | nil => rfl
  | cons a l ih =>
    rw [mapM_cons, mapM_cons, ih]
    cases f a with
    | none => rfl
    | some b => cases l.mapM f <;> rfl

theorem foldlM_eq_error {ε : Type} {f : β → α → Except ε β} {e : ε} : l.foldlM f b = .error e ↔
      ∃ fr a back b', l = fr ++ a :: back ∧ fr.foldlM f b = .ok b' ∧ f b' a = .error e := by
  constructor
  · intro h
    induction l generalizing b with
    | nil => cases h
    | cons a l ih =>
      rw [foldlM_cons] at h
      cases hab : f b a with
      | error e' =>
        rw [hab] at h
        exact ⟨[], a, l, b, rfl, rfl, hab.trans h⟩
      | ok b' =>
        rw [hab] at h
        obtain ⟨fr, a', back, b'', rfl, hf, he⟩ := ih h
        exact ⟨a :: fr, a', back, b'', rfl, by rw [foldlM_cons, hab]; exact hf, he⟩
  rintro ⟨fr, a, back, b', rfl, hf, he⟩
  rw [foldlM_append, hf]
  change foldlM f b' (a :: back) = _
  rw [foldlM_cons, he]
  rfl

/-! ## Two lists, place by place -/

theorem forall₂_at {R : α → β → Prop} (h : Forall₂ R l l') {i : Nat} (ha : l[i]? = some a) :
    ∃ b, l'[i]? = some b ∧ R a b := by
  induction h generalizing i with
  | nil => cases ha
  | @cons a' b l l' hab _ ih =>
    cases i with
    | zero =>
      cases ha
      exact ⟨b, rfl, hab⟩
    | succ i => exact ih ha

end CqlDriver.Lib
