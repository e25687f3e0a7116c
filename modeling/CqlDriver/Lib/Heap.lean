import Mathlib.Data.List.Basic
import Mathlib.Order.WithBot

/-!
# A heap in a list

The queue operations of Python's `heapq`: a list in which the place `i` is no smaller than the place
`(i - 1) / 2` above it. Elements are compared by a key in a linear order.
-/

namespace CqlDriver.Lib.Heap

open List

variable {α K : Type}

def parent (i : Nat) : Nat := (i - 1) / 2

variable {i c : Nat}

theorem parent_lt (h : 0 < i) : parent i < i := by
  unfold parent
  omega

theorem eq_child (hc : 0 < c) (h : parent c = i) : c = 2 * i + 1 ∨ c = 2 * i + 2 := by
  unfold parent at h
  omega

/-! ## The operations -/

section Operations

variable [LinearOrder K]

def before (key : α → K) (l : List α) (i j : Nat) : Bool :=
  match l[i]?, l[j]? with
  | some a, some b => key a < key b
  | _, _ => false

def swap (l : List α) (i j : Nat) : List α :=
  match l[i]?, l[j]? with
  | some a, some b => (l.set i b).set j a
  | _, _ => l

/-- Moves the element at `pos` up. -/
def siftdown (key : α → K) : Nat → List α → Nat → List α
  | 0, l, _ => l
  | n + 1, l, pos =>
    if 0 < pos ∧ before key l pos (parent pos) then
      siftdown key n (swap l pos (parent pos)) (parent pos)
    else l

def smallerChild (key : α → K) (l : List α) (pos : Nat) : Nat :=
  if 2 * pos + 2 < l.length ∧ ¬ before key l (2 * pos + 1) (2 * pos + 2) then 2 * pos + 2
  else 2 * pos + 1

/-- Moves the element at `pos` down to a leaf, and from there up. -/
def siftup (key : α → K) : Nat → List α → Nat → List α
  | 0, l, pos => siftdown key pos l pos
  | n + 1, l, pos =>
    if 2 * pos + 1 < l.length then
      siftup key n (swap l pos (smallerChild key l pos)) (smallerChild key l pos)
    else siftdown key pos l pos

def heappush (key : α → K) (l : List α) (a : α) : List α :=
  siftdown key l.length (l ++ [a]) l.length

def heappop (key : α → K) (l : List α) : List α :=
  match l.getLast? with
  | none => []
  | some last => siftup key l.length (l.dropLast.set 0 last) 0

/-! ## Nothing is lost -/

theorem swap_eq {l : List α} {i j : Nat} (hi : i < l.length) (hj : j < l.length) :
    swap l i j = (l.set i l[j]).set j l[i] := by
  unfold swap
  rw [getElem?_eq_getElem hi, getElem?_eq_getElem hj]

theorem swap_perm {l : List α} {i : Nat} (j : Nat) : (swap l i j).Perm l := by
  unfold swap
  split
  · rename_i a b ha hb
    obtain ⟨hi, rfl⟩ := List.getElem?_eq_some_iff.mp ha
    obtain ⟨hj, rfl⟩ := List.getElem?_eq_some_iff.mp hb
    exact set_set_perm hi hj
  · exact Perm.refl l

@[simp] theorem length_swap {l : List α} {i j : Nat} : (swap l i j).length = l.length :=
  (swap_perm j).length_eq

theorem siftdown_perm {key : α → K} {n : Nat} (l : List α) (pos : Nat) : (siftdown key n l pos).Perm l := by
  induction n generalizing l pos with
  | zero => exact Perm.refl l
  | succ n ih =>
    unfold siftdown
    split
    · exact (ih _ _).trans (swap_perm (parent pos))
    · exact Perm.refl l

theorem siftup_perm {key : α → K} {n : Nat} (l : List α) (pos : Nat) : (siftup key n l pos).Perm l := by
  induction n generalizing l pos with
  | zero => exact siftdown_perm l pos
  | succ n ih =>
    unfold siftup
    split
    · exact (ih _ _).trans (swap_perm _)
    · exact siftdown_perm l pos

theorem heappush_perm (key : α → K) {l : List α} {a : α} : (heappush key l a).Perm (a :: l) :=
  (siftdown_perm _ _).trans (perm_append_singleton a l)

theorem heappop_perm {key : α → K} {a : α} {l : List α} : (heappop key (a :: l)).Perm l := by
  unfold heappop
  rcases eq_nil_or_concat l with rfl | ⟨init, last, rfl⟩
  · exact siftup_perm _ _
  have hl : (a :: (init ++ [last])).getLast? = some last := by
    rw [← cons_append, getLast?_concat]
  have hi : (a :: (init ++ [last])).dropLast = a :: init := by
    rw [← cons_append, dropLast_concat]
  simp only [concat_eq_append, hl, hi]
  exact (siftup_perm _ _).trans (perm_append_singleton last init).symm

end Operations

/-! ## The order -/

/-- The key at a place; past the end it is above every key. -/
def keyAt (key : α → K) (l : List α) (i : Nat) : WithTop K :=
  match l[i]? with
  | some a => key a
  | none => ⊤

variable {key : α → K} {l : List α} {pos : Nat}

theorem keyAt_of_le (h : l.length ≤ i) : keyAt key l i = ⊤ := by
  unfold keyAt
  rw [getElem?_eq_none h]

theorem keyAt_eq (h : i < l.length) : keyAt key l i = key l[i] := by
  unfold keyAt
  rw [getElem?_eq_getElem h]

theorem keyAt_append {l' : List α} (h : i < l.length) : keyAt key (l ++ l') i = keyAt key l i := by
  unfold keyAt
  rw [getElem?_append_left h]

variable {j : Nat}

theorem keyAt_swap_left (hi : i < l.length) (hj : j < l.length) (hij : i ≠ j) :
    keyAt key (swap l i j) i = keyAt key l j := by
  have hlen : i < (swap l i j).length := by rw [length_swap]; exact hi
  rw [keyAt_eq hlen, keyAt_eq hj]
  simp only [swap_eq hi hj, getElem_set_ne hij.symm, getElem_set_self]

theorem keyAt_swap_right (hi : i < l.length) (hj : j < l.length) : keyAt key (swap l i j) j = keyAt key l i := by
  have hlen : j < (swap l i j).length := by rw [length_swap]; exact hj
  rw [keyAt_eq hlen, keyAt_eq hi]
  simp only [swap_eq hi hj, getElem_set_self]

variable {n : Nat}

theorem keyAt_swap_of_ne (hni : n ≠ i) (hnj : n ≠ j) : keyAt key (swap l i j) n = keyAt key l n := by
  have hget : (swap l i j)[n]? = l[n]? := by
    unfold swap
    split
    · rw [getElem?_set_ne hnj.symm, getElem?_set_ne hni.symm]
    · rfl
  unfold keyAt
  rw [hget]

variable [LinearOrder K]

def IsHeap (key : α → K) (l : List α) : Prop :=
  ∀ i, 0 < i → keyAt key l (parent i) ≤ keyAt key l i

theorem before_iff (hi : i < l.length) (hj : j < l.length) :
    before key l i j ↔ keyAt key l i < keyAt key l j := by
  unfold before
  rw [getElem?_eq_getElem hi, getElem?_eq_getElem hj, keyAt_eq hi, keyAt_eq hj]
  simp

theorem IsHeap.root_le (h : IsHeap key l) (i : Nat) : keyAt key l 0 ≤ keyAt key l i := by
  induction i using Nat.strongRecOn with
  | ind i ih =>
    rcases Nat.eq_zero_or_pos i with rfl | hi
    · exact le_refl _
    · exact (ih (parent i) (parent_lt hi)).trans (h i hi)

theorem IsHeap.head_le {a b : α} (h : IsHeap key (a :: l)) (hb : b ∈ a :: l) : key a ≤ key b := by
  obtain ⟨i, hi, rfl⟩ := getElem_of_mem hb
  have hr := h.root_le i
  rw [keyAt_eq hi] at hr
  exact WithTop.coe_le_coe.mp hr

/-- The order holds but around `pos`: what a move up starts from. -/
structure Rising (key : α → K) (l : List α) (pos : Nat) : Prop where
  others : ∀ i, 0 < i → i ≠ pos → keyAt key l (parent i) ≤ keyAt key l i
  across : 0 < pos → ∀ c, 0 < c → parent c = pos → keyAt key l (parent pos) ≤ keyAt key l c

/-- The order holds but at `pos` and just below it. -/
structure Sinking (key : α → K) (l : List α) (pos : Nat) : Prop where
  others : ∀ i, 0 < i → i ≠ pos → parent i ≠ pos → keyAt key l (parent i) ≤ keyAt key l i
  across : 0 < pos → ∀ c, 0 < c → parent c = pos → keyAt key l (parent pos) ≤ keyAt key l c

theorem Rising.isHeap (h : Rising key l pos)
    (hpos : 0 < pos → keyAt key l (parent pos) ≤ keyAt key l pos) : IsHeap key l := by
  intro i hi
  by_cases hip : i = pos
  · subst hip
    exact hpos hi
  · exact h.others i hi hip

theorem Rising.move (h : Rising key l pos) (hpos : 0 < pos) (hlen : pos < l.length)
    (hlt : keyAt key l pos < keyAt key l (parent pos)) : Rising key (swap l pos (parent pos)) (parent pos) := by
  have hp := parent_lt hpos
  have hup : keyAt key (swap l pos (parent pos)) (parent pos) = keyAt key l pos :=
    keyAt_swap_right hlen (hp.trans hlen)
  have hd : keyAt key (swap l pos (parent pos)) pos = keyAt key l (parent pos) :=
    keyAt_swap_left hlen (hp.trans hlen) hp.ne'
  constructor
  · intro i hi hip
    by_cases his : i = pos
    · subst his
      rw [hup, hd]
      exact hlt.le
    rw [keyAt_swap_of_ne his hip]
    by_cases hpi : parent i = pos
    · rw [hpi, hd]
      exact h.across hpos i hi hpi
    by_cases hpp : parent i = parent pos
    · have hi' := h.others i hi his
      rw [hpp] at hi' ⊢
      rw [hup]
      exact hlt.le.trans hi'
    rw [keyAt_swap_of_ne hpi hpp]
    exact h.others i hi his
  intro hp0 c hc hcp
  have hpp := parent_lt hp0
  have ha := h.others (parent pos) hp0 hp.ne
  rw [keyAt_swap_of_ne (hpp.trans hp).ne hpp.ne]
  by_cases hcs : c = pos
  · subst hcs
    rw [hd]
    exact ha
  have hc' := h.others c hc hcs
  have hcne : c ≠ parent pos := by
    have := parent_lt hc
    omega
  rw [keyAt_swap_of_ne hcs hcne]
  rw [hcp] at hc'
  exact ha.trans hc'

theorem siftdown_isHeap (hn : pos ≤ n) (hlen : pos < l.length) (h : Rising key l pos) :
    IsHeap key (siftdown key n l pos) := by
  induction n generalizing l pos with
  | zero => exact h.isHeap fun hpos => absurd hpos (by omega)
  | succ n ih =>
    unfold siftdown
    have hl : 0 < pos → parent pos < l.length := fun hpos => (parent_lt hpos).trans hlen
    split
    · rename_i hm
      have hlt := (before_iff hlen (hl hm.1)).mp hm.2
      have hp := parent_lt hm.1
      exact ih (by omega) (by rw [length_swap]; exact hl hm.1) (h.move hm.1 hlen hlt)
    rename_i hs
    refine h.isHeap fun hpos => not_lt.mp fun hlt => hs ⟨hpos, ?_⟩
    exact (before_iff hlen (hl hpos)).mpr hlt

theorem smallerChild_lt (h : 2 * pos + 1 < l.length) : smallerChild key l pos < l.length := by
  unfold smallerChild
  split
  · rename_i hr
    exact hr.1
  · exact h

theorem parent_smallerChild : parent (smallerChild key l pos) = pos := by
  unfold smallerChild parent
  split <;> omega

theorem lt_smallerChild : pos < smallerChild key l pos := by
  unfold smallerChild
  split <;> omega

theorem smallerChild_le (h : 2 * pos + 1 < l.length) (hc : 0 < c) (hp : parent c = pos) :
    keyAt key l (smallerChild key l pos) ≤ keyAt key l c := by
  unfold smallerChild
  split
  · rename_i hrg
    have hle : keyAt key l (2 * pos + 2) ≤ keyAt key l (2 * pos + 1) :=
      not_lt.mp fun hlt => hrg.2 ((before_iff h hrg.1).mpr hlt)
    rcases eq_child hc hp with rfl | rfl
    · exact hle
    · exact le_refl _
  rename_i hl
  rcases eq_child hc hp with rfl | rfl
  · exact le_refl _
  by_cases hr : 2 * pos + 2 < l.length
  · have hlt : before key l (2 * pos + 1) (2 * pos + 2) := by
      by_contra hn
      exact hl ⟨hr, hn⟩
    exact ((before_iff h hr).mp hlt).le
  rw [keyAt_of_le (not_lt.mp hr)]
  exact le_top

theorem Sinking.move (h : Sinking key l pos) (hchild : 2 * pos + 1 < l.length) :
    Sinking key (swap l pos (smallerChild key l pos)) (smallerChild key l pos) := by
  obtain ⟨c, hc⟩ : ∃ c, smallerChild key l pos = c := ⟨_, rfl⟩
  have hcl : c < l.length := hc ▸ smallerChild_lt hchild
  have hpc : pos < c := hc ▸ lt_smallerChild
  have hpr : parent c = pos := hc ▸ parent_smallerChild
  have hl : ∀ i, 0 < i → parent i = pos → keyAt key l c ≤ keyAt key l i :=
    fun i hi hp => hc ▸ smallerChild_le hchild hi hp
  rw [hc]
  have hup : keyAt key (swap l pos c) pos = keyAt key l c :=
    keyAt_swap_left (hpc.trans hcl) hcl hpc.ne
  constructor
  · intro i hi hic hpi
    by_cases hip : i = pos
    · subst hip
      have hp := parent_lt hi
      rw [keyAt_swap_of_ne hp.ne hpi, hup]
      exact h.across hi c (hi.trans hpc) hpr
    rw [keyAt_swap_of_ne hip hic]
    by_cases hpp : parent i = pos
    · rw [hpp, hup]
      exact hl i hi hpp
    rw [keyAt_swap_of_ne hpp hpi]
    exact h.others i hi hip hpp
  intro hc0 d hd hdc
  have hcd := parent_lt hd
  rw [hpr, hup, keyAt_swap_of_ne (by omega) (by omega), ← hdc]
  exact h.others d hd (by omega) (by omega)

theorem Sinking.rising (h : Sinking key l pos) (hl : l.length ≤ 2 * pos + 1) : Rising key l pos where
  others i hi hip := by
    by_cases hp : parent i = pos
    · have hps : l.length ≤ i := by
        rcases eq_child hi hp with rfl | rfl <;> omega
      rw [keyAt_of_le hps]
      exact le_top
    · exact h.others i hi hip hp
  across := h.across

theorem siftup_isHeap (hn : l.length ≤ n + pos) (hlen : pos < l.length) (h : Sinking key l pos) :
    IsHeap key (siftup key n l pos) := by
  induction n generalizing l pos with
  | zero => omega
  | succ n ih =>
    unfold siftup
    split
    · rename_i hc
      have hlt : pos < smallerChild key l pos := lt_smallerChild
      refine ih ?_ ?_ (h.move hc)
      · rw [length_swap]
        omega
      rw [length_swap]
      exact smallerChild_lt hc
    rename_i hl
    exact siftdown_isHeap (le_refl pos) hlen (h.rising (not_lt.mp hl))

theorem isHeap_nil : IsHeap key ([] : List α) := fun _ _ => by simp [keyAt]

theorem heappush_isHeap (h : IsHeap key l) {a : α} : IsHeap key (heappush key l a) := by
  refine siftdown_isHeap (le_refl _) (by simp) ⟨fun i hi hne => ?_, fun _ c hc hp => ?_⟩
  · rcases lt_or_gt_of_ne hne with hlt | hgt
    · rw [keyAt_append hlt, keyAt_append ((parent_lt hi).trans hlt)]
      exact h i hi
    rw [keyAt_of_le (i := i) (by simp; omega)]
    exact le_top
  have hlt := parent_lt hc
  rw [keyAt_of_le (i := c) (by simp; omega)]
  exact le_top

theorem heappop_isHeap (h : IsHeap key l) : IsHeap key (heappop key l) := by
  unfold heappop
  split
  · exact isHeap_nil
  rename_i last hl
  by_cases hone : l.dropLast = []
  · rw [hone, set_nil]
    have hnil : siftup key l.length ([] : List α) 0 = [] :=
      Perm.eq_nil (siftup_perm [] 0)
    rw [hnil]
    exact isHeap_nil
  refine siftup_isHeap (by simp) ?_ ⟨fun i hi hne hpne => ?_, nofun⟩
  · rw [length_set]
    exact length_pos_iff.mpr hone
  have hs : ∀ j, j ≠ 0 → j < l.dropLast.length → keyAt key (l.dropLast.set 0 last) j = keyAt key l j := by
    intro j hj hjl
    unfold keyAt
    rw [getElem?_set_ne hj.symm, getElem?_dropLast, if_pos (by simpa using hjl)]
  by_cases hil : i < l.dropLast.length
  · rw [hs i hne hil, hs (parent i) hpne ((parent_lt hi).trans hil)]
    exact h i hi
  rw [keyAt_of_le (i := i) (by simpa using hil)]
  exact le_top

/-! ## The queue as a type -/

structure Queue (key : α → K) where
  items : List α
  isHeap : IsHeap key items

namespace Queue

variable {key : α → K}

def empty : Queue key := ⟨[], isHeap_nil⟩

def push (q : Queue key) (a : α) : Queue key := ⟨heappush key q.items a, heappush_isHeap q.isHeap⟩

def pop (q : Queue key) : Queue key := ⟨heappop key q.items, heappop_isHeap q.isHeap⟩

theorem push_perm (q : Queue key) (a : α) : (q.push a).items.Perm (a :: q.items) :=
  heappush_perm key

variable {a : α} {q : Queue key}

theorem pop_perm {l : List α} (h : q.items = a :: l) : q.items.Perm (a :: q.pop.items) := by
  have hpop : q.pop.items = heappop key (a :: l) := congrArg (heappop key) h
  rw [hpop, h]
  exact (heappop_perm.cons a).symm

theorem head_le {l : List α} (h : q.items = a :: l) {b : α} (hb : b ∈ q.items) : key a ≤ key b := by
  have hh := q.isHeap
  rw [h] at hh hb
  exact hh.head_le hb

end Queue

end CqlDriver.Lib.Heap
