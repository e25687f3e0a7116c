import CqlDriver.Lib.Dict
import CqlDriver.Lib.Run
import Mathlib.Data.List.InsertIdx

/-! # `OrderedMap` -/

namespace CqlDriver.Types

open Lib List Dict

variable {κ ν φ : Type} [DecidableEq φ]

structure OrderedMap (κ ν φ : Type) where
  items : List (κ × ν) := []
  index : Dict φ Nat := Dict.empty

inductive MapError
  | keyError
  | indexError
  | notSerializable
  deriving DecidableEq

namespace OrderedMap

section

variable (serializeKey : κ → Option φ) (m : OrderedMap κ ν φ)

def insert (key : κ) (value : ν) : Except MapError Unit × OrderedMap κ ν φ :=
  match serializeKey key with
  | none => (.error .notSerializable, m)
  | some flatKey =>
    match m.index.get? flatKey with
    | some i =>
      if i < m.items.length then (.ok (), { m with items := m.items.set i (key, value) }) else (.error .indexError, m)
    | none => (.ok (), { items := m.items ++ [(key, value)], index := m.index.set flatKey m.items.length })

def insertUnchecked (key : κ) (flatKey : φ) (value : ν) : OrderedMap κ ν φ where
  items := m.items ++ [(key, value)]
  index := m.index.set flatKey m.items.length

def getItem (key : κ) : Except MapError ν :=
  match serializeKey key with
  | none => .error .notSerializable
  | some flatKey =>
    match m.index.get? flatKey with
    | none => .error .keyError
    | some index =>
      match m.items[index]? with
      | none => .error .indexError
      | some item => .ok item.2

def delItem (key : κ) : Except MapError Unit × OrderedMap κ ν φ :=
  match serializeKey key with
  | none => (.error .notSerializable, m)
  | some flatKey =>
    match m.index.pop flatKey with
    | none => (.error .keyError, m)
    | some (index, rest) =>
      let m := { m with index := rest.mapValues fun i => if i < index then i else i - 1 }
      if index < m.items.length then (.ok (), { m with items := m.items.eraseIdx index }) else (.error .indexError, m)

def popitem : Except MapError (κ × ν) × OrderedMap κ ν φ :=
  match m.items.getLast? with
  | none => (.error .keyError, m)
  | some kv =>
    let m := { m with items := m.items.dropLast }
    match serializeKey kv.1 with
    | none => (.error .notSerializable, m)
    | some flatKey =>
      match m.index.pop flatKey with
      | none => (.error .keyError, m)
      | some (_, rest) => (.ok kv, { m with index := rest })

def iter : List κ := m.items.map Prod.fst

def itemsView : Except MapError (List (κ × ν)) := m.iter.mapM fun key => (m.getItem serializeKey key).map fun value => (key, value)

/-- `OrderedMap(pairs)`. The first exception ends it. -/
def ofPairs (serializeKey : κ → Option φ) (m : OrderedMap κ ν φ) : List (κ × ν) → Except MapError (OrderedMap κ ν φ)
  | [] => .ok m
  | (key, value) :: rest =>
    match m.insert serializeKey key value with
    | (.ok (), m) => ofPairs serializeKey m rest
    | (.error e, _) => .error e

end

/-! ## The index -/

def without (m : OrderedMap κ ν φ) (flatKey : φ) (i : Nat) : OrderedMap κ ν φ where
  items := m.items.eraseIdx i
  index := (m.index.erase flatKey).mapValues fun j => if j < i then j else j - 1

structure Indexed (m : OrderedMap κ ν φ) (flatKeys : List φ) : Prop where
  length : flatKeys.length = m.items.length
  get?_iff : ∀ flatKey i, m.index.get? flatKey = some i ↔ flatKeys[i]? = some flatKey

variable {ser : κ → Option φ} {m : OrderedMap κ ν φ} {flatKeys : List φ}

theorem itemsView_of_getItem (h : ∀ kv ∈ m.items, m.getItem ser kv.1 = .ok kv.2) : m.itemsView ser = .ok m.items := by
  rw [itemsView, iter]
  generalize m.items = xs at h
  induction xs with
  | nil => rfl
  | cons kv xs ih =>
    rw [forall_mem_cons] at h
    rw [map_cons, mapM_cons, h.1, ih h.2]
    rfl

theorem indexed_empty : ({} : OrderedMap κ ν φ).Indexed [] := ⟨rfl, by simp⟩

namespace Indexed

variable (h : m.Indexed flatKeys)
include h

variable {fk : φ} {i : Nat} {item : κ × ν} {key : κ}

theorem get?_none : m.index.get? fk = none ↔ fk ∉ flatKeys := by
  rw [Option.eq_none_iff_forall_ne_some]
  simp [h.get?_iff, mem_iff_getElem?]

theorem position_unique {j : Nat} (hi : flatKeys[i]? = some fk) (hj : flatKeys[j]? = some fk) : i = j := by
  rw [← h.get?_iff] at hi hj
  exact Option.some.inj (hi.symm.trans hj)

theorem lt_length (hi : flatKeys[i]? = some fk) : i < m.items.length :=
  h.length ▸ (List.getElem?_eq_some_iff.mp hi).1

theorem insertUnchecked (hnew : fk ∉ flatKeys) (key : κ) (v : ν) :
    (m.insertUnchecked key fk v).Indexed (flatKeys ++ [fk]) := by
  refine ⟨by simp [OrderedMap.insertUnchecked, h.length], fun flatKey' i => ?_⟩
  rw [OrderedMap.insertUnchecked, get?_set, ← h.length]
  by_cases hkey : flatKey' = fk
  · subst hkey
    rw [if_pos rfl, Option.some.injEq]
    constructor
    · rintro rfl
      simp
    intro hi
    rcases Nat.lt_trichotomy i flatKeys.length with hlt | rfl | hgt
    · rw [getElem?_append_left hlt] at hi
      exact absurd (mem_of_getElem? hi) hnew
    · rfl
    rw [getElem?_eq_none (by simp; omega)] at hi
    cases hi
  rw [if_neg hkey, h.get?_iff]
  by_cases hi : i < flatKeys.length
  · rw [getElem?_append_left hi]
  rw [getElem?_eq_none (by omega), getElem?_append_right (by omega)]
  have : [fk][i - flatKeys.length]? ≠ some flatKey' := by
    intro hs
    exact hkey (mem_singleton.mp (mem_of_getElem? hs))
  simp [this]

theorem without (hi : flatKeys[i]? = some fk) : (m.without fk i).Indexed (flatKeys.eraseIdx i) := by
  have hlt := (List.getElem?_eq_some_iff.mp hi).1
  refine ⟨?_, fun flatKey' j => ?_⟩
  · rw [OrderedMap.without, length_eraseIdx_of_lt hlt, length_eraseIdx_of_lt (h.lt_length hi), h.length]
  rw [OrderedMap.without, get?_mapValues, get?_erase, getElem?_eraseIdx]
  by_cases hkey : flatKey' = fk
  · -- The key itself was at `i` only.
    subst hkey
    refine iff_of_false (by simp) fun hj => ?_
    split at hj
    · exact absurd (h.position_unique hj hi) (by omega)
    · exact absurd (h.position_unique hj hi) (by omega)
  rw [if_neg hkey, Option.map_eq_some_iff]
  simp only [h.get?_iff]
  constructor
  · rintro ⟨k, hk, rfl⟩
    have hne : k ≠ i := by
      rintro rfl
      exact hkey (Option.some.inj (hk.symm.trans hi))
    by_cases hki : k < i
    · rwa [if_pos hki, if_pos hki]
    rw [if_neg hki, if_neg (by omega), show k - 1 + 1 = k by omega]
    exact hk
  intro hj
  split at hj
  · rename_i hlt
    exact ⟨j, hj, if_pos hlt⟩
  · exact ⟨j + 1, hj, by rw [if_neg (by omega)]; omega⟩

section

variable (hkey : ser key = some fk)
include hkey

theorem getItem_at (hi : flatKeys[i]? = some fk) (hit : m.items[i]? = some item) : m.getItem ser key = .ok item.2 := by
  simp only [getItem, hkey, (h.get?_iff fk i).mpr hi, hit]

theorem getItem_missing (hnot : fk ∉ flatKeys) : m.getItem ser key = .error .keyError := by
  simp only [getItem, hkey, h.get?_none.mpr hnot]

theorem delItem_at (hi : flatKeys[i]? = some fk) : m.delItem ser key = (.ok (), m.without fk i) := by
  have hpop : m.index.pop fk = some (i, m.index.erase fk) :=
    (pop_eq_some ..).mpr ⟨(h.get?_iff fk i).mpr hi, rfl⟩
  simp only [delItem, hkey, hpop, if_pos (h.lt_length hi), OrderedMap.without]

theorem delItem_missing (hnot : fk ∉ flatKeys) : m.delItem ser key = (.error .keyError, m) := by
  have hpop : m.index.pop fk = none := by
    rw [Dict.pop, h.get?_none.mpr hnot]
    rfl
  simp only [delItem, hkey, hpop]

theorem insert_at (hi : flatKeys[i]? = some fk) (v : ν) :
    m.insert ser key v = (.ok (), { m with items := m.items.set i (key, v) }) := by
  simp only [insert, hkey, (h.get?_iff fk i).mpr hi, if_pos (h.lt_length hi)]

theorem insert_new (hnot : fk ∉ flatKeys) (v : ν) : m.insert ser key v = (.ok (), m.insertUnchecked key fk v) := by
  simp only [insert, hkey, h.get?_none.mpr hnot, OrderedMap.insertUnchecked]

end

omit h in
theorem dropLast {front : List φ} {items : List (κ × ν)} (h : m.Indexed (front ++ [fk]))
    (hit : m.items = items ++ [item]) : Indexed { items, index := m.index.erase fk } front := by
  refine ⟨by simpa [hit] using h.length, fun flatKey' i => ?_⟩
  rw [get?_erase]
  by_cases hkey : flatKey' = fk
  · subst hkey
    refine iff_of_false (by simp) fun hi => ?_
    have hlt := (List.getElem?_eq_some_iff.mp hi).1
    have hl : (front ++ [flatKey'])[front.length]? = some flatKey' := by simp
    rw [← getElem?_append_left hlt] at hi
    exact absurd (h.position_unique hi hl) (Nat.ne_of_lt hlt)
  rw [if_neg hkey, h.get?_iff]
  by_cases hi : i < front.length
  · rw [getElem?_append_left hi]
  · rw [getElem?_append_right (by omega)]
    refine iff_of_false (fun hs => hkey ?_) fun hs => hi (List.getElem?_eq_some_iff.mp hs).1
    exact mem_singleton.mp (mem_of_getElem? hs)

theorem set (i : Nat) (item : κ × ν) : Indexed { m with items := m.items.set i item } flatKeys :=
  ⟨by rw [length_set, h.length], h.get?_iff⟩

end Indexed

end OrderedMap

/-! ## The map it stands for -/

inductive MapOp (κ ν : Type)
  | construct (pairs : List (κ × ν))
  | setItem (key : κ) (value : ν)
  | delItem (key : κ)
  | popitem
  | getItem (key : κ)
  | iter
  | len
  | items

inductive MapResult (κ ν : Type)
  | done
  | value (v : ν)
  | pair (kv : κ × ν)
  | keys (ks : List κ)
  | length (n : Nat)
  | pairs (kvs : List (κ × ν))
  | error (e : MapError)

def MapResult.of {ρ : Type} (f : ρ → MapResult κ ν) : Except MapError ρ → MapResult κ ν
  | .ok r => f r
  | .error e => .error e

section

variable (serializeKey : κ → Option φ)

def OrderedMap.step (m : OrderedMap κ ν φ) : MapOp κ ν → MapResult κ ν × OrderedMap κ ν φ
  | .construct pairs =>
    match ofPairs serializeKey {} pairs with
    | .ok m' => (.done, m')
    | .error e => (.error e, m)
  | .setItem key value =>
    let (r, m) := m.insert serializeKey key value
    (.of (fun _ => .done) r, m)
  | .delItem key =>
    let (r, m) := m.delItem serializeKey key
    (.of (fun _ => .done) r, m)
  | .popitem =>
    let (r, m) := m.popitem serializeKey
    (.of .pair r, m)
  | .getItem key => (.of .value (m.getItem serializeKey key), m)
  | .iter => (.keys m.iter, m)
  | .len => (.length m.items.length, m)
  | .items => (.of .pairs (m.itemsView serializeKey), m)

def setPairs (d : Dict φ (κ × ν)) : List (κ × ν) → Option (Dict φ (κ × ν))
  | [] => some d
  | (key, value) :: rest =>
    match serializeKey key with
    | some flatKey => setPairs (d.set flatKey (key, value)) rest
    | none => none

def dictStep (d : Dict φ (κ × ν)) : MapOp κ ν → MapResult κ ν × Dict φ (κ × ν)
  | .construct pairs =>
    match setPairs serializeKey Dict.empty pairs with
    | some d' => (.done, d')
    | none => (.error .notSerializable, d)
  | .setItem key value =>
    match serializeKey key with
    | some flatKey => (.done, d.set flatKey (key, value))
    | none => (.error .notSerializable, d)
  | .delItem key =>
    match serializeKey key with
    | some flatKey => if flatKey ∈ d.keys then (.done, d.erase flatKey) else (.error .keyError, d)
    | none => (.error .notSerializable, d)
  | .popitem =>
    match d.entries.getLast? with
    | some (flatKey, kv) => (.pair kv, d.erase flatKey)
    | none => (.error .keyError, d)
  | .getItem key =>
    match serializeKey key with
    | some flatKey =>
      match d.get? flatKey with
      | some kv => (.value kv.2, d)
      | none => (.error .keyError, d)
    | none => (.error .notSerializable, d)
  | .iter => (.keys (d.values.map Prod.fst), d)
  | .len => (.length d.values.length, d)
  | .items => (.pairs d.values, d)

end

/-- The items are the pairs, and the index has their positions. -/
structure OrderedMap.Refines (serializeKey : κ → Option φ) (m : OrderedMap κ ν φ) (d : Dict φ (κ × ν)) : Prop where
  items : m.items = d.values
  serialized : ∀ e ∈ d.entries, serializeKey e.2.1 = some e.1
  indexed : m.Indexed d.keys

namespace OrderedMap.Refines

variable {ser : κ → Option φ} {m : OrderedMap κ ν φ} {d : Dict φ (κ × ν)}

theorem empty : Refines ser ({} : OrderedMap κ ν φ) Dict.empty :=
  ⟨rfl, by simp [Dict.empty], indexed_empty⟩

variable {flatKey : φ} {key : κ} {i : Nat}

theorem set (h : Refines ser m d) (hkey : ser key = some flatKey) (v : ν) :
    ∃ m', m.insert ser key v = (.ok (), m') ∧ Refines ser m' (d.set flatKey (key, v)) := by
  have hs : ∀ e ∈ (d.set flatKey (key, v)).entries, ser e.2.1 = some e.1 := by
    intro e he
    rcases mem_put he with rfl | he
    · exact hkey
    · exact h.serialized e he
  by_cases hmem : flatKey ∈ d.keys
  · obtain ⟨i, hi⟩ := mem_iff_getElem?.mp hmem
    refine ⟨_, h.indexed.insert_at hkey hi v, ?_, hs, ?_⟩
    · have hset : (d.set flatKey (key, v)).entries = d.entries.set i (flatKey, key, v) := put_eq_set d.nodup hi _
      rw [Dict.values, hset, map_set, h.items]
      rfl
    have hk : (d.set flatKey (key, v)).keys = d.keys := (put_keys ..).trans (if_pos hmem)
    rw [hk]
    exact h.indexed.set i _
  refine ⟨_, h.indexed.insert_new hkey hmem v, ?_, hs, ?_⟩
  · rw [OrderedMap.insertUnchecked, Dict.values, entries_set_of_not_mem hmem, map_append, h.items]
    rfl
  rw [keys_set_of_not_mem d flatKey _ hmem]
  exact h.indexed.insertUnchecked hmem key v

theorem ofPairs (ps : List (κ × ν)) : ∀ {m : OrderedMap κ ν φ} {d : Dict φ (κ × ν)}, Refines ser m d →
    match setPairs ser d ps with
    | some d' => ∃ m', OrderedMap.ofPairs ser m ps = .ok m' ∧ Refines ser m' d'
    | none => OrderedMap.ofPairs ser m ps = .error .notSerializable := by
  induction ps with
  | nil => exact fun h => ⟨_, rfl, h⟩
  | cons pair rest ih =>
    obtain ⟨key, v⟩ := pair
    intro m d h
    simp only [setPairs, OrderedMap.ofPairs]
    cases hkey : ser key with
    | none => simp only [insert, hkey]
    | some flatKey =>
      obtain ⟨m', hins, h'⟩ := h.set hkey v
      simp only [hins]
      exact ih h'

section

variable (h : Refines ser m d)
include h

theorem erase (hi : d.keys[i]? = some flatKey) : Refines ser (m.without flatKey i) (d.erase flatKey) := by
  have her : (d.erase flatKey).entries = d.entries.eraseIdx i := drop_eq_eraseIdx d.nodup hi
  refine ⟨?_, fun e he => h.serialized e (mem_of_mem_eraseIdx (her ▸ he)), ?_⟩
  · rw [OrderedMap.without, Dict.values, her, ← eraseIdx_map, h.items]
    rfl
  rw [Dict.keys, her, ← eraseIdx_map]
  exact h.indexed.without hi

theorem entry (hi : d.keys[i]? = some flatKey) :
    ∃ kv, m.items[i]? = some kv ∧ d.get? flatKey = some kv ∧ ser kv.1 = some flatKey := by
  rw [Dict.keys, getElem?_map, Option.map_eq_some_iff] at hi
  obtain ⟨⟨flatKey', kv⟩, he, rfl⟩ := hi
  have hmem := mem_of_getElem? he
  refine ⟨kv, ?_, (get?_eq_some ..).mpr hmem, h.serialized _ hmem⟩
  rw [h.items, Dict.values, getElem?_map, he]
  rfl

theorem getItem (hkey : ser key = some flatKey) : m.getItem ser key = match d.get? flatKey with
      | some kv => .ok kv.2
      | none => .error .keyError := by
  by_cases hmem : flatKey ∈ d.keys
  · obtain ⟨i, hi⟩ := mem_iff_getElem?.mp hmem
    obtain ⟨kv, hit, hget, -⟩ := h.entry hi
    rw [h.indexed.getItem_at hkey hi hit, hget]
  · rw [h.indexed.getItem_missing hkey hmem, (get?_eq_none ..).mpr hmem]

theorem itemsView : m.itemsView ser = .ok d.values := by
  rw [← h.items]
  apply itemsView_of_getItem
  intro kv hkv
  rw [h.items] at hkv
  obtain ⟨e, he, rfl⟩ := mem_map.mp hkv
  rw [h.getItem (h.serialized e he), (get?_eq_some d e.1 e.2).mpr he]

theorem popitem : match d.entries.getLast? with
    | some (flatKey, kv) => ∃ m', m.popitem ser = (.ok kv, m') ∧ Refines ser m' (d.erase flatKey)
    | none => m.popitem ser = (.error .keyError, m) := by
  have hit := h.items
  rcases d.entries.eq_nil_or_concat' with hnil | ⟨front, ⟨flatKey, kv⟩, hl⟩
  · rw [hnil]
    have hem : m.items = [] := by rw [hit, Dict.values, hnil, map_nil]
    simp only [getLast?_nil, OrderedMap.popitem, hem]
  have hv : m.items = front.map Prod.snd ++ [kv] := by
    rw [hit, Dict.values, hl, map_append]
    rfl
  have hk : d.keys = front.map Prod.fst ++ [flatKey] := by
    rw [Dict.keys, hl, map_append]
    rfl
  have hkey : ser kv.1 = some flatKey := h.serialized (flatKey, kv) (hl ▸ by simp)
  have hi : d.keys[(front.map Prod.fst).length]? = some flatKey := by
    rw [hk]
    simp
  have hpop : m.index.pop flatKey = some ((front.map Prod.fst).length, m.index.erase flatKey) :=
    (pop_eq_some ..).mpr ⟨(h.indexed.get?_iff ..).mpr hi, rfl⟩
  have her : (d.erase flatKey).entries = front := by
    have hd : (d.erase flatKey).entries = d.entries.eraseIdx (front.map Prod.fst).length :=
      drop_eq_eraseIdx d.nodup hi
    rw [hd, hl, length_map, eraseIdx_append_of_length_le (Nat.le_refl _)]
    simp
  rw [hl, getLast?_concat]
  refine ⟨{ items := front.map Prod.snd, index := m.index.erase flatKey }, ?_, ?_, ?_, ?_⟩
  · simp only [OrderedMap.popitem, hv, getLast?_concat, dropLast_concat, hkey, hpop]
  · rw [Dict.values, her]
  · exact fun e he => h.serialized e (hl ▸ mem_append_left _ (her ▸ he))
  · have hidx := h.indexed
    rw [hk] at hidx
    rw [Dict.keys, her]
    exact hidx.dropLast hv

end

theorem step (m : OrderedMap κ ν φ) (d : Dict φ (κ × ν)) (op : MapOp κ ν) (h : Refines ser m d) :
    (OrderedMap.step ser m op).1 = (dictStep ser d op).1 ∧
      Refines ser (OrderedMap.step ser m op).2 (dictStep ser d op).2 := by
  cases op with
  | construct ps =>
    have hp := @ofPairs κ ν φ _ ser ps {} Dict.empty .empty
    simp only [OrderedMap.step, dictStep]
    cases hset : setPairs ser Dict.empty ps with
    | none =>
      rw [hset] at hp
      rw [hp]
      exact ⟨rfl, h⟩
    | some d' =>
      rw [hset] at hp
      obtain ⟨m', hm', h'⟩ := hp
      rw [hm']
      exact ⟨rfl, h'⟩
  | setItem key v =>
    simp only [OrderedMap.step, dictStep]
    cases hkey : ser key with
    | none =>
      simp only [insert, hkey]
      exact ⟨rfl, h⟩
    | some flatKey =>
      obtain ⟨m', hins, h'⟩ := h.set hkey v
      rw [hins]
      exact ⟨rfl, h'⟩
  | delItem key =>
    simp only [OrderedMap.step, dictStep]
    cases hkey : ser key with
    | none =>
      simp only [OrderedMap.delItem, hkey]
      exact ⟨rfl, h⟩
    | some flatKey =>
      by_cases hmem : flatKey ∈ d.keys
      · obtain ⟨i, hi⟩ := mem_iff_getElem?.mp hmem
        rw [h.indexed.delItem_at hkey hi]
        simp only [if_pos hmem]
        exact ⟨rfl, h.erase hi⟩
      rw [h.indexed.delItem_missing hkey hmem]
      simp only [if_neg hmem]
      exact ⟨rfl, h⟩
  | popitem =>
    have hpop := h.popitem
    simp only [OrderedMap.step, dictStep]
    cases hl : d.entries.getLast? with
    | none =>
      rw [hl] at hpop
      rw [hpop]
      exact ⟨rfl, h⟩
    | some e =>
      rw [hl] at hpop
      obtain ⟨m', hm', h'⟩ := hpop
      rw [hm']
      exact ⟨rfl, h'⟩
  | getItem key =>
    simp only [OrderedMap.step, dictStep]
    cases hkey : ser key with
    | none =>
      simp only [OrderedMap.getItem, hkey]
      exact ⟨rfl, h⟩
    | some flatKey =>
      simp only [h.getItem hkey]
      cases d.get? flatKey with
      | none => exact ⟨rfl, h⟩
      | some kv => exact ⟨rfl, h⟩
  | iter => exact ⟨by simp only [OrderedMap.step, dictStep, iter, h.items], h⟩
  | len => exact ⟨by simp only [OrderedMap.step, dictStep, h.items], h⟩
  | items =>
    simp only [OrderedMap.step, h.itemsView]
    exact ⟨rfl, h⟩

end OrderedMap.Refines

/-- **`OrderedMap` is an insertion-ordered map**, in every run. -/
theorem ordered_map_refines (serializeKey : κ → Option φ) (ops : List (MapOp κ ν)) :
    let run := perform (OrderedMap.step serializeKey) {} ops
    run.1 = (perform (dictStep serializeKey) Dict.empty ops).1 ∧ (∀ kv ∈ run.2.items, (serializeKey kv.1).isSome) ∧
    ∀ flatKey i, run.2.index.get? flatKey = some i ↔
      ∃ kv, run.2.items[i]? = some kv ∧ serializeKey kv.1 = some flatKey := by
  intro run
  obtain ⟨hr, h⟩ : run.1 = (perform (dictStep serializeKey) Dict.empty ops).1 ∧
      OrderedMap.Refines serializeKey run.2 (perform (dictStep serializeKey) Dict.empty ops).2 :=
    perform_simulates OrderedMap.Refines.step ops _ _ .empty
  refine ⟨hr, fun kv hkv => ?_, fun flatKey i => ?_⟩
  · rw [h.items] at hkv
    obtain ⟨e, he, rfl⟩ := mem_map.mp hkv
    rw [h.serialized e he]
    rfl
  rw [h.indexed.get?_iff]
  constructor
  · intro hi
    obtain ⟨kv, hit, -, hkey⟩ := h.entry hi
    exact ⟨kv, hit, hkey⟩
  rintro ⟨kv, hit, hkey⟩
  rw [h.items, Dict.values, getElem?_map, Option.map_eq_some_iff] at hit
  obtain ⟨e, he, rfl⟩ := hit
  rw [h.serialized e (mem_of_getElem? he)] at hkey
  rw [Dict.keys, getElem?_map, he, ← hkey]
  rfl

end CqlDriver.Types
