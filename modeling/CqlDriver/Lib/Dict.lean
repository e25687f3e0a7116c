import Mathlib.Data.List.Nodup
import Mathlib.Data.List.Basic

/-!
# Dictionaries in insertion order

A list of key/value pairs with no key twice. Assigning to a key that is there keeps its
place, assigning to a new key goes to the end.
-/

namespace CqlDriver.Lib

open List

/-- The structure carries the proof that no key occurs twice. -/
structure Dict (κ ν : Type) where
  entries : List (κ × ν)
  nodup : (entries.map Prod.fst).Nodup

namespace Dict

variable {κ ν : Type}

def empty : Dict κ ν := ⟨[], nodup_nil⟩

def keys (d : Dict κ ν) : List κ := d.entries.map Prod.fst

def values (d : Dict κ ν) : List ν := d.entries.map Prod.snd

@[simp] theorem keys_empty : (empty : Dict κ ν).keys = [] := rfl

@[simp] theorem values_empty : (empty : Dict κ ν).values = [] := rfl

theorem keys_nodup (d : Dict κ ν) : d.keys.Nodup := d.nodup

variable [DecidableEq κ]

def find (k : κ) : List (κ × ν) → Option ν
  | [] => none
  | (k', v) :: rest => if k' = k then some v else find k rest

def get? (d : Dict κ ν) (k : κ) : Option ν := find k d.entries

def put (k : κ) (v : ν) : List (κ × ν) → List (κ × ν)
  | [] => [(k, v)]
  | (k', v') :: rest => if k' = k then (k', v) :: rest else (k', v') :: put k v rest

def drop (k : κ) (l : List (κ × ν)) : List (κ × ν) := l.filter fun p => p.1 ≠ k

/-! ## On plain lists of pairs -/

theorem put_keys (k : κ) (v : ν) (l : List (κ × ν)) :
    (put k v l).map Prod.fst = if k ∈ l.map Prod.fst then l.map Prod.fst else l.map Prod.fst ++ [k] := by
  induction l with
  | nil => simp [put]
  | cons p rest ih =>
    obtain ⟨k', v'⟩ := p
    by_cases h : k' = k
    · simp [put, h]
    have h' : ¬ k = k' := fun e => h e.symm
    simp only [put, if_neg h, map_cons, mem_cons, h', false_or, ih]
    split <;> simp

theorem put_nodup {k : κ} {v : ν} {l : List (κ × ν)} (h : (l.map Prod.fst).Nodup) :
    ((put k v l).map Prod.fst).Nodup := by
  rw [put_keys]
  split
  · exact h
  rename_i hk
  rw [nodup_append]
  refine ⟨h, by simp, ?_⟩
  intro a ha b hb hab
  rw [mem_singleton] at hb
  exact hk (by rw [← hb, ← hab]; exact ha)

theorem drop_keys {k : κ} {l : List (κ × ν)} : (drop k l).map Prod.fst = (l.map Prod.fst).filter (fun x => x ≠ k) := by
  rw [filter_map]
  rfl

theorem drop_nodup {k : κ} {l : List (κ × ν)} (h : (l.map Prod.fst).Nodup) : ((drop k l).map Prod.fst).Nodup := by
  rw [drop_keys]
  exact h.filter _

theorem find_put {k k' : κ} {v : ν} {l : List (κ × ν)} :
    find k' (put k v l) = if k' = k then some v else find k' l := by
  induction l with
  | nil => simp only [put, find, eq_comm]
  | cons p rest ih =>
    obtain ⟨a, b⟩ := p
    by_cases h : a = k
    · subst h
      by_cases h' : a = k'
      · simp [put, find, h']
      have : ¬ k' = a := fun e => h' e.symm
      simp [put, find, h', this]
    simp only [put, if_neg h, find, ih]
    by_cases h' : a = k'
    · subst h'
      simp [h]
    · simp [h']

theorem find_drop {k k' : κ} {l : List (κ × ν)} : find k' (drop k l) = if k' = k then none else find k' l := by
  induction l with
  | nil => simp [drop, find]
  | cons p rest ih =>
    obtain ⟨a, b⟩ := p
    rw [drop] at ih
    by_cases h : a = k
    · subst h
      simp only [drop, ne_eq, not_true_eq_false, decide_false, Bool.false_eq_true,
        not_false_eq_true, filter_cons_of_neg, ih, find]
      by_cases h' : k' = a
      · simp [h']
      · simp [Ne.symm h']
    simp only [drop, ne_eq, h, not_false_eq_true, decide_true, filter_cons_of_pos, find, ih]
    by_cases h' : a = k'
    · subst h'
      simp [h]
    · simp [h']

theorem find_isSome (k : κ) (l : List (κ × ν)) : (find k l).isSome ↔ k ∈ l.map Prod.fst := by
  induction l with
  | nil => simp [find]
  | cons p rest ih =>
    obtain ⟨a, b⟩ := p
    by_cases h : a = k
    · simp [find, h]
    have : ¬ k = a := fun e => h e.symm
    simp [find, if_neg h, ih, this]

theorem find_mem (k : κ) (v : ν) {l : List (κ × ν)} (h : find k l = some v) : (k, v) ∈ l := by
  induction l with
  | nil => simp [find] at h
  | cons p rest ih =>
    obtain ⟨a, b⟩ := p
    by_cases hk : a = k
    · simp only [find, if_pos hk, Option.some.injEq] at h
      simp [hk, h]
    simp only [find, if_neg hk] at h
    exact mem_cons_of_mem _ (ih h)

theorem find_of_mem {k : κ} {v : ν} {l : List (κ × ν)} (hn : (l.map Prod.fst).Nodup)
    (h : (k, v) ∈ l) : find k l = some v := by
  induction l with
  | nil => simp at h
  | cons p rest ih =>
    obtain ⟨a, b⟩ := p
    rw [map_cons, nodup_cons] at hn
    rcases mem_cons.mp h with he | hr
    · simp only [Prod.mk.injEq] at he
      simp [find, he.1, he.2]
    have hne : ¬ a = k := by
      rintro rfl
      exact hn.1 (mem_map.mpr ⟨_, hr, rfl⟩)
    simp only [find, if_neg hne]
    exact ih hn.2 hr

/-! ## The operations -/

def set (d : Dict κ ν) (k : κ) (v : ν) : Dict κ ν := ⟨put k v d.entries, put_nodup d.nodup⟩

/-- `del d[k]`, which does nothing here when the key is missing. -/
def erase (d : Dict κ ν) (k : κ) : Dict κ ν := ⟨drop k d.entries, drop_nodup d.nodup⟩

def pop (d : Dict κ ν) (k : κ) : Option (ν × Dict κ ν) := (d.get? k).map fun v => (v, d.erase k)

@[simp] theorem get?_empty (k : κ) : (empty : Dict κ ν).get? k = none := rfl

section

variable (d : Dict κ ν)

@[simp] theorem get?_set (k k' : κ) (v : ν) :
    (d.set k v).get? k' = if k' = k then some v else d.get? k' := find_put

@[simp] theorem get?_erase (k k' : κ) :
    (d.erase k).get? k' = if k' = k then none else d.get? k' := find_drop

theorem get?_isSome (k : κ) : (d.get? k).isSome ↔ k ∈ d.keys := find_isSome k _

theorem get?_eq_none (k : κ) : d.get? k = none ↔ k ∉ d.keys := by
  rw [← get?_isSome, Option.not_isSome_iff_eq_none]

end

variable {d : Dict κ ν} {k : κ} {v : ν} {l : List (κ × ν)} {i : Nat}

theorem mem_keys_of_get? (h : d.get? k = some v) : k ∈ d.keys := by
  rw [← get?_isSome, h]
  rfl

theorem get?_eq_some (d : Dict κ ν) (k : κ) (v : ν) : d.get? k = some v ↔ (k, v) ∈ d.entries :=
  ⟨find_mem k v, find_of_mem d.nodup⟩

theorem keys_set_of_not_mem (d : Dict κ ν) (k : κ) (v : ν) (h : k ∉ d.keys) : (d.set k v).keys = d.keys ++ [k] := by
  rw [keys] at h
  have := put_keys k v d.entries
  rwa [if_neg h] at this

theorem keys_erase {d : Dict κ ν} {k : κ} : (d.erase k).keys = d.keys.filter (fun x => x ≠ k) :=
  drop_keys

theorem mem_keys_set (d : Dict κ ν) (k k' : κ) (v : ν) : k' ∈ (d.set k v).keys ↔ k' = k ∨ k' ∈ d.keys := by
  rw [← get?_isSome, get?_set, ← get?_isSome]
  split <;> simp_all

theorem mem_keys_erase (d : Dict κ ν) (k k' : κ) : k' ∈ (d.erase k).keys ↔ k' ≠ k ∧ k' ∈ d.keys := by
  rw [keys_erase]
  simp [and_comm]

theorem pop_eq_none (d : Dict κ ν) (k : κ) : d.pop k = none ↔ k ∉ d.keys := by
  rw [← get?_eq_none]
  simp [pop]

theorem pop_eq_some (d d' : Dict κ ν) (k : κ) (v : ν) :
    d.pop k = some (v, d') ↔ d.get? k = some v ∧ d' = d.erase k := by
  simp only [pop, Option.map_eq_some_iff, Prod.mk.injEq]
  constructor
  · rintro ⟨a, ha, rfl, rfl⟩
    exact ⟨ha, rfl⟩
  rintro ⟨hv, rfl⟩
  exact ⟨v, hv, rfl, rfl⟩

theorem drop_of_not_mem (h : k ∉ l.map Prod.fst) : drop k l = l := by
  rw [drop, filter_eq_self]
  intro p hp
  have hne : p.1 ≠ k := by
    intro he
    apply h
    rw [← he]
    exact mem_map_of_mem hp
  simp [hne]

theorem put_perm (k : κ) (v : ν) {l : List (κ × ν)} (h : (l.map Prod.fst).Nodup) :
    (put k v l).Perm ((k, v) :: drop k l) := by
  induction l with
  | nil => simp [put, drop]
  | cons p rest ih =>
    obtain ⟨a, b⟩ := p
    rw [map_cons, nodup_cons] at h
    by_cases hk : a = k
    · subst hk
      have hc : drop a ((a, b) :: rest) = drop a rest := by simp [drop]
      rw [hc, drop_of_not_mem h.1, put, if_pos rfl]
    have hc : drop k ((a, b) :: rest) = (a, b) :: drop k rest := by simp [drop, hk]
    rw [hc, put, if_neg hk]
    exact ((ih h.2).cons (a, b)).trans (Perm.swap ..)

theorem put_of_mem (hn : (l.map Prod.fst).Nodup) (h : (k, v) ∈ l) : put k v l = l := by
  induction l with
  | nil => simp at h
  | cons p rest ih =>
    obtain ⟨a, b⟩ := p
    rw [map_cons, nodup_cons] at hn
    rcases mem_cons.mp h with he | hr
    · simp only [Prod.mk.injEq] at he
      simp [put, he.1, he.2]
    have hne : ¬ a = k := by
      rintro rfl
      exact hn.1 (mem_map.mpr ⟨_, hr, rfl⟩)
    rw [put, if_neg hne, ih hn.2 hr]

theorem set_of_get? (h : d.get? k = some v) : d.set k v = d := by
  obtain ⟨es, hn⟩ := d
  unfold set
  congr
  exact put_of_mem hn ((get?_eq_some _ k v).mp h)

theorem values_set (d : Dict κ ν) (k : κ) (v : ν) : (d.set k v).values.Perm (v :: (d.erase k).values) :=
  (put_perm k v d.nodup).map Prod.snd

theorem entries_of_get? (h : d.get? k = some v) : d.entries.Perm ((k, v) :: (d.erase k).entries) := by
  have hput := put_perm k v d.nodup
  rwa [put_of_mem d.nodup (find_mem k v h)] at hput

theorem values_of_get? (h : d.get? k = some v) : d.values.Perm (v :: (d.erase k).values) :=
  (entries_of_get? h).map Prod.snd

theorem values_erase_of_not_mem (h : k ∉ d.keys) : (d.erase k).values = d.values :=
  congrArg (map Prod.snd) (drop_of_not_mem h)

theorem values_erase_subset (d : Dict κ ν) (k : κ) : (d.erase k).values ⊆ d.values :=
  (filter_sublist.map Prod.snd).subset

def setAll (d : Dict κ ν) (pairs : List (κ × ν)) : Dict κ ν := pairs.foldl (fun d p => d.set p.1 p.2) d

theorem setAll_append (d : Dict κ ν) (ps pairs' : List (κ × ν)) :
    d.setAll (ps ++ pairs') = (d.setAll ps).setAll pairs' := foldl_append

theorem setAll_fresh (pairs : List (κ × ν)) : ∀ (d : Dict κ ν), (pairs.map Prod.fst).Nodup →
    (∀ k ∈ pairs.map Prod.fst, k ∉ d.keys) → (d.setAll pairs).keys = d.keys ++ pairs.map Prod.fst ∧
      (∀ p ∈ pairs, (d.setAll pairs).get? p.1 = some p.2) ∧
      ∀ k ∉ pairs.map Prod.fst, (d.setAll pairs).get? k = d.get? k := by
  induction pairs with
  | nil => intro d _ _; simp [setAll]
  | cons p pairs ih =>
    obtain ⟨k, v⟩ := p
    intro d hn hf
    simp only [map_cons, nodup_cons, forall_mem_cons] at hn hf
    have hf' : ∀ k' ∈ pairs.map Prod.fst, k' ∉ (d.set k v).keys := by
      intro k' hk' hmem
      rcases (mem_keys_set ..).mp hmem with rfl | hd
      · exact hn.1 hk'
      · exact hf.2 k' hk' hd
    obtain ⟨hk, hget, hold⟩ := ih (d.set k v) hn.2 hf'
    have hc : d.setAll ((k, v) :: pairs) = (d.set k v).setAll pairs := rfl
    rw [hc]
    refine ⟨by rw [hk, keys_set_of_not_mem d k v hf.1]; simp, ?_, ?_⟩
    · intro p hp
      rcases mem_cons.mp hp with rfl | hp
      · rw [hold k hn.1, get?_set, if_pos rfl]
      · exact hget p hp
    intro k' hk'
    simp only [map_cons, mem_cons, not_or] at hk'
    rw [hold k' hk'.2, get?_set, if_neg hk'.1]

theorem put_of_not_mem (h : k ∉ l.map Prod.fst) {v : ν} : put k v l = l ++ [(k, v)] := by
  induction l with
  | nil => rfl
  | cons p rest ih =>
    simp only [map_cons, mem_cons, not_or] at h
    rw [put, if_neg (Ne.symm h.1), ih h.2]
    rfl

theorem entries_set_of_not_mem (h : k ∉ d.keys) (v : ν) : (d.set k v).entries = d.entries ++ [(k, v)] := put_of_not_mem h

theorem entries_setAll_fresh (pairs : List (κ × ν)) : ∀ (d : Dict κ ν), ((d.entries ++ pairs).map Prod.fst).Nodup →
    (d.setAll pairs).entries = d.entries ++ pairs := by
  induction pairs with
  | nil => intro d _; simp [setAll]
  | cons p pairs ih =>
    obtain ⟨k, v⟩ := p
    intro d hn
    have hf : k ∉ d.entries.map Prod.fst := by
      rw [map_append, nodup_append] at hn
      exact fun hk => hn.2.2 k hk k (by simp) rfl
    have hset : (d.set k v).entries = d.entries ++ [(k, v)] := put_of_not_mem hf
    have hc : d.setAll ((k, v) :: pairs) = (d.set k v).setAll pairs := rfl
    rw [hc, ih (d.set k v) (by rw [hset, append_assoc]; exact hn), hset, append_assoc]
    rfl

theorem setAll_entries (d : Dict κ ν) : empty.setAll d.entries = d := by
  have h := entries_setAll_fresh d.entries empty d.nodup
  obtain ⟨es, hn⟩ := d
  cases hd : (empty : Dict κ ν).setAll es with
  | mk es' hn' =>
    rw [hd] at h
    congr

theorem mem_put {p : κ × ν} (h : p ∈ put k v l) : p = (k, v) ∨ p ∈ l := by
  induction l with
  | nil => exact .inl (mem_singleton.mp h)
  | cons q rest ih =>
    unfold put at h
    split at h
    · rename_i ha
      subst ha
      rcases mem_cons.mp h with hp | hp
      · exact .inl hp
      · exact .inr (mem_cons_of_mem _ hp)
    rcases mem_cons.mp h with rfl | hp
    · exact .inr mem_cons_self
    · exact (ih hp).imp_right (mem_cons_of_mem _)

theorem mem_setAll (pairs : List (κ × ν)) : ∀ {d : Dict κ ν} {p : κ × ν}, p ∈ (d.setAll pairs).entries →
    p ∈ d.entries ∨ p ∈ pairs := by
  induction pairs with
  | nil => exact fun h => .inl h
  | cons q pairs ih =>
    intro d p h
    rcases ih (d := d.set q.1 q.2) h with h | h
    · rcases mem_put h with rfl | h
      · exact .inr mem_cons_self
      · exact .inl h
    · exact .inr (mem_cons_of_mem _ h)

theorem length_put_le {k : κ} {v : ν} {l : List (κ × ν)} : (put k v l).length ≤ l.length + 1 := by
  have hlen := congrArg length (put_keys k v l)
  split at hlen <;> simp only [length_map, length_append, length_singleton] at hlen <;> omega

theorem length_setAll_le (pairs : List (κ × ν)) : ∀ (d : Dict κ ν),
    (d.setAll pairs).entries.length ≤ d.entries.length + pairs.length := by
  induction pairs with
  | nil => exact fun d => Nat.le_refl _
  | cons p pairs ih =>
    intro d
    have ht := ih (d.set p.1 p.2)
    have hput : (d.set p.1 p.2).entries.length ≤ d.entries.length + 1 := length_put_le ..
    have hc : d.setAll (p :: pairs) = (d.set p.1 p.2).setAll pairs := rfl
    rw [hc, length_cons]
    omega

theorem mem_keys_setAll (ps : List (κ × ν)) : ∀ {d : Dict κ ν} {k : κ},
    k ∈ (d.setAll ps).keys ↔ k ∈ d.keys ∨ k ∈ ps.map Prod.fst := by
  induction ps with
  | nil => simp [setAll]
  | cons p ps ih =>
    intro d k
    refine (ih (d := d.set p.1 p.2)).trans ?_
    rw [mem_keys_set, map_cons, mem_cons]
    tauto

theorem get?_setAll {pairs : List (κ × ν)} (hn : (pairs.map Prod.fst).Nodup) (d : Dict κ ν) (k : κ) :
    (d.setAll pairs).get? k = (find k pairs).or (d.get? k) := by
  induction pairs generalizing d with
  | nil => rfl
  | cons p pairs ih =>
    rw [map_cons, nodup_cons] at hn
    have hc : d.setAll (p :: pairs) = (d.set p.1 p.2).setAll pairs := rfl
    rw [hc, ih hn.2, get?_set, find]
    by_cases hk : p.1 = k
    · have hl : find k pairs = none := by
        rw [← Option.not_isSome_iff_eq_none, find_isSome, ← hk]
        exact hn.1
      rw [if_pos hk.symm, if_pos hk, hl, Option.none_or, Option.some_or]
    · rw [if_neg (Ne.symm hk), if_neg hk]

theorem setAll_eq_self {d d' : Dict κ ν} : d.setAll d'.entries = d ↔ ∀ k v, d'.get? k = some v → d.get? k = some v := by
  constructor
  · intro heq k v h
    have hget := get?_setAll d'.nodup d k
    rw [heq, ← get?, h] at hget
    exact hget
  intro h
  have hset : ∀ p ∈ d'.entries, d.set p.1 p.2 = d := fun p hp => set_of_get? (h p.1 p.2 ((get?_eq_some ..).mpr hp))
  unfold setAll
  generalize d'.entries = ps at hset
  induction ps with
  | nil => rfl
  | cons p ps ih =>
    rw [forall_mem_cons] at hset
    rw [foldl_cons, hset.1]
    exact ih hset.2

/-- `for k in keys: d.pop(k, None)` -/
def eraseAll (d : Dict κ ν) (keys : List κ) : Dict κ ν := keys.foldl erase d

theorem get?_eraseAll (d : Dict κ ν) (keys : List κ) (k : κ) :
    (d.eraseAll keys).get? k = if k ∈ keys then none else d.get? k := by
  induction keys generalizing d with
  | nil => simp [eraseAll]
  | cons k' keys ih =>
    have hc : d.eraseAll (k' :: keys) = (d.erase k').eraseAll keys := rfl
    rw [hc, ih]
    by_cases hk : k = k'
    · simp [hk]
    · simp [hk]

def filterKeys (p : κ → Bool) (d : Dict κ ν) : Dict κ ν :=
  ⟨d.entries.filter fun e => p e.1, d.nodup.sublist ((filter_sublist ..).map Prod.fst)⟩

theorem get?_filterKeys (p : κ → Bool) (d : Dict κ ν) (k : κ) :
    (d.filterKeys p).get? k = if p k then d.get? k else none := by
  apply Option.ext
  intro v
  rw [get?_eq_some, filterKeys, mem_filter]
  split
  · rename_i hk
    rw [get?_eq_some]
    exact and_iff_left hk
  rename_i hk
  simp [hk]

def mapValues {μ : Type} (f : ν → μ) (d : Dict κ ν) : Dict κ μ where
  entries := d.entries.map fun e => (e.1, f e.2)
  nodup := by
    rw [map_map]
    exact d.nodup

theorem get?_mapValues {μ : Type} (f : ν → μ) (d : Dict κ ν) (k : κ) : (d.mapValues f).get? k = (d.get? k).map f := by
  apply Option.ext
  intro v
  rw [get?_eq_some, Option.map_eq_some_iff, mapValues, mem_map]
  simp only [get?_eq_some, Prod.mk.injEq]
  constructor
  · rintro ⟨⟨k', v'⟩, hmem, rfl, rfl⟩
    exact ⟨v', hmem, rfl⟩
  rintro ⟨v', hmem, rfl⟩
  exact ⟨(k, v'), hmem, rfl, rfl⟩

theorem put_eq_set (hn : (l.map Prod.fst).Nodup) (h : (l.map Prod.fst)[i]? = some k) (v : ν) :
    put k v l = l.set i (k, v) := by
  induction l generalizing i with
  | nil => simp at h
  | cons p rest ih =>
    obtain ⟨a, b⟩ := p
    rw [map_cons, nodup_cons] at hn
    cases i with
    | zero =>
      obtain rfl : a = k := by simpa using h
      simp [put]
    | succ i =>
      have hne : a ≠ k := by
        rintro rfl
        exact hn.1 (mem_of_getElem? h)
      rw [put, if_neg hne, ih hn.2 h, set_cons_succ]

theorem drop_eq_eraseIdx (hn : (l.map Prod.fst).Nodup) (h : (l.map Prod.fst)[i]? = some k) :
    drop k l = l.eraseIdx i := by
  induction l generalizing i with
  | nil => simp at h
  | cons p rest ih =>
    obtain ⟨a, b⟩ := p
    rw [map_cons, nodup_cons] at hn
    cases i with
    | zero =>
      obtain rfl : a = k := by simpa using h
      have hc : drop a ((a, b) :: rest) = drop a rest := by simp [drop]
      rw [hc, drop_of_not_mem hn.1, eraseIdx_cons_zero]
    | succ i =>
      have hne : a ≠ k := by
        rintro rfl
        exact hn.1 (mem_of_getElem? h)
      have hc : drop k ((a, b) :: rest) = (a, b) :: drop k rest := by simp [drop, hne]
      rw [hc, ih hn.2 h, eraseIdx_cons_succ]

/-- `d == d'`, which does not depend on the order of the keys. -/
def equals [DecidableEq ν] (d d' : Dict κ ν) : Bool := (d.keys ++ d'.keys).all fun k => d.get? k = d'.get? k

theorem equals_iff [DecidableEq ν] (d d' : Dict κ ν) : d.equals d' ↔ ∀ k, d.get? k = d'.get? k := by
  unfold equals
  rw [all_eq_true]
  constructor
  · intro h k
    by_cases hk : k ∈ d.keys ++ d'.keys
    · simpa using h k hk
    rw [mem_append, not_or] at hk
    rw [(get?_eq_none d k).mpr hk.1, (get?_eq_none d' k).mpr hk.2]
  intro h k _
  simpa using h k

end Dict

end CqlDriver.Lib
