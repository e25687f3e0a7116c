import CqlDriver.Lib.Loop
import CqlDriver.Lib.Traversal
import CqlDriver.Types.Framing
import CqlDriver.Types.OrderedMap
import CqlDriver.Decoding.Python

/-!
# Lookup in decoded maps

`MapType.deserialize_safe` puts each entry under the bytes of its key as they came, and a lookup
serializes the key that is asked for. Key and value types are any classes.
-/

namespace CqlDriver.Types

open Lib List OrderedMap
open Option (bind_eq_bind bind_some)

variable {κ ν φ : Type}

/-! ## Decoding a map -/

section

variable (p : Nat) (keyType : Bytes → Option κ) (valueType : Bytes → Option ν)

def readMap (byts : Bytes) : Nat → Int → OrderedMap κ ν Bytes → Option (OrderedMap κ ν Bytes)
  | 0, _, themap => some themap
  | n + 1, pos, themap => do
    let (keybytes, pos) ← readItem p byts pos
    let (valbytes, pos) ← readItem p byts pos
    let key ← keyType keybytes
    let val ← valueType valbytes
    readMap byts n pos (themap.insertUnchecked key keybytes val)

def deserializeMap (byts : Bytes) : Option (OrderedMap κ ν Bytes) := do
  let numelements ← unpackLength p (byts.take (lengthWidth p))
  readMap p keyType valueType byts numelements.toNat (lengthWidth p) {}

def entryBody (byts : Bytes) (pos : Int) : Option ((κ × ν) × Int) := do
  let (keybytes, pos) ← readItem p byts pos
  let (valbytes, pos) ← readItem p byts pos
  return ((← keyType keybytes, ← valueType valbytes), pos)

def mapBytes (entries : List (Bytes × Bytes)) : Bytes :=
  lengthBytes p entries.length ++ (entries.flatMap fun e => [e.1, e.2]).flatMap (framed p)

/-- They have room and types, and no two keys are alike. -/
structure EntriesOk (entries : List (Bytes × Bytes)) : Prop where
  count : entries.length < lengthLimit p
  sizes : ∀ e ∈ entries, e.1.length < lengthLimit p ∧ e.2.length < lengthLimit p
  decodes : ∀ e ∈ entries, (keyType e.1).isSome ∧ (valueType e.2).isSome
  distinct : (entries.map Prod.fst).Nodup

def Decodes (e : Bytes × Bytes) (kv : κ × ν) : Prop := keyType e.1 = some kv.1 ∧ valueType e.2 = some kv.2

end

section

variable {p : Nat} {kt : Bytes → Option κ} {vt : Bytes → Option ν}

variable {es : List (Bytes × Bytes)}

theorem EntriesOk.decoded (h : EntriesOk p kt vt es) : ∃ kvs, Forall₂ (Decodes kt vt) es kvs := by
  have hall := h.decodes
  clear h
  induction es with
  | nil => exact ⟨[], .nil⟩
  | cons e es ih =>
    rw [forall_mem_cons] at hall
    obtain ⟨kvs, hkvs⟩ := ih hall.2
    obtain ⟨key, hkey⟩ := Option.isSome_iff_exists.mp hall.1.1
    obtain ⟨v, hv⟩ := Option.isSome_iff_exists.mp hall.1.2
    exact ⟨(key, v) :: kvs, .cons ⟨hkey, hv⟩ hkvs⟩

theorem readMap_eq {kvs : List (κ × ν)} (hkvs : Forall₂ (Decodes kt vt) es kvs)
    (hs : ∀ e ∈ es, e.1.length < lengthLimit p ∧ e.2.length < lengthLimit p) :
    ∀ (pre : Bytes) (m : OrderedMap κ ν Bytes) (flatKeys : List Bytes), m.Indexed flatKeys →
    (flatKeys ++ es.map Prod.fst).Nodup →
    ∃ m', readMap p kt vt (pre ++ (es.flatMap fun e => [e.1, e.2]).flatMap (framed p))
        es.length pre.length m = some m' ∧ m'.items = m.items ++ kvs ∧ m'.Indexed (flatKeys ++ es.map Prod.fst) := by
  induction hkvs with
  | nil =>
    intro pre m flatKeys hm _
    exact ⟨m, rfl, by simp, by simpa using hm⟩
  | @cons e kv es kvs he _ ih =>
    intro pre m flatKeys hm hnd
    rw [forall_mem_cons] at hs
    have hnew : e.1 ∉ flatKeys := by
      intro hmem
      exact (disjoint_of_nodup_append hnd) hmem (by simp)
    rw [map_cons, append_cons] at hnd
    have hn := ih hs.2 (pre ++ framed p e.1 ++ framed p e.2) _ _ (hm.insertUnchecked hnew kv.1 kv.2) hnd
    obtain ⟨m', hr, hi, hidx⟩ := hn
    refine ⟨m', ?_, by simp [hi, insertUnchecked], by simpa using hidx⟩
    rw [append_assoc, append_assoc] at hr
    have hsnd := @readItem_eq p (pre ++ framed p e.1) e.2 ((es.flatMap fun e => [e.1, e.2]).flatMap (framed p)) hs.1.2
    rw [append_assoc] at hsnd
    simp only [flatMap_cons, cons_append, nil_append, length_cons, readMap]
    rw [readItem_eq hs.1.1]
    simp only [bind_eq_bind, bind_some, hsnd, he.1, he.2, hr]

theorem deserializeMap_eq (h : EntriesOk p kt vt es) : ∃ m, deserializeMap p kt vt (mapBytes p es) = some m ∧
      Forall₂ (Decodes kt vt) es m.items ∧ m.Indexed (es.map Prod.fst) := by
  obtain ⟨kvs, hkvs⟩ := h.decoded
  obtain ⟨m, hr, hi, hidx⟩ := readMap_eq hkvs h.sizes _ {} [] indexed_empty h.distinct
  refine ⟨m, ?_, by simpa [hi] using hkvs, hidx⟩
  rw [lengthBytes_length] at hr
  rw [deserializeMap, mapBytes, count_take, unpackLength_eq h.count]
  exact hr

end

theorem readMap_items (p : Nat) (keyType : Bytes → Option κ) (valueType : Bytes → Option ν) (byts : Bytes) (n : Nat) :
    ∀ (pos : Int) (m : OrderedMap κ ν Bytes), (readMap p keyType valueType byts n pos m).map items =
      (collect (entryBody p keyType valueType byts) n pos).map (m.items ++ ·) := by
  induction n with
  | zero =>
    simp [readMap, collect]
  | succ n ih =>
    intro pos m
    rw [readMap, collect, entryBody]
    cases readItem p byts pos with
    | none => rfl
    | some first =>
      simp only [bind_eq_bind, bind_some]
      cases readItem p byts first.2 with
      | none => rfl
      | some second =>
        simp only [bind_some]
        cases keyType first.1 with
        | none => rfl
        | some k =>
          cases valueType second.1 with
          | none => rfl
          | some v =>
            simp only [bind_some, Option.pure_def, ih]
            cases collect (entryBody p keyType valueType byts) n second.2 with
            | none => rfl
            | some kvs => simp [OrderedMap.insertUnchecked]

theorem deserializeMap_items (p : Nat) (keyType : Bytes → Option κ) (valueType : Bytes → Option ν) (byts : Bytes) :
    (deserializeMap p keyType valueType byts).map items = (unpackLength p (byts.take (lengthWidth p))).bind fun n =>
        collect (entryBody p keyType valueType byts) n.toNat (lengthWidth p) := by
  rw [deserializeMap]
  cases unpackLength p (byts.take (lengthWidth p)) with
  | none => rfl
  | some n =>
    have hi := readMap_items p keyType valueType byts n.toNat (lengthWidth p) {}
    simp only [bind_eq_bind, bind_some, hi]
    simp

/-! ## The classes -/

def itemFrom (t : CqlType) (p : Nat) (b : Bytes) : Option Value := fromBinary t (some b) (innerProto p)

theorem readPairs_eq_collect (p : Nat) (key v : Bytes → Option Value) (byts : Bytes) (n : Nat) :
    ∀ pos : Int, readPairs p key v byts n pos = collect (entryBody p key v byts) n pos := by
  induction n with
  | zero => exact fun _ => rfl
  | succ n ih =>
    intro pos
    simp only [readPairs, collect, entryBody, ih, bind_eq_bind, Option.pure_def, Option.bind_assoc, bind_some]

theorem deserialize_map (k t : CqlType) (b : Bytes) (p : Nat) :
    deserialize (.map k t) b p = (deserializeMap p (itemFrom k p) (itemFrom t p) b).map fun m => .map m.items := by
  have hp := fun n => readPairs_eq_collect p (itemFrom k p) (itemFrom t p) b n (lengthWidth p)
  have hi := deserializeMap_items p (itemFrom k p) (itemFrom t p) b
  rw [show (fun m : OrderedMap Value Value Bytes => Value.map m.items) = Value.map ∘ items from rfl,
    ← Option.map_map, hi, deserialize]
  cases unpackLength p (b.take (lengthWidth p)) with
  | none => rfl
  | some count =>
    simp only [bind_eq_bind, bind_some, ← hp]
    unfold itemFrom fromBinary
    cases readPairs p (fun x => fromBinaryWith (emptyBinaryOk k) (deserialize k) (some x) (innerProto p))
      (fun x => fromBinaryWith (emptyBinaryOk t) (deserialize t) (some x) (innerProto p)) b count.toNat (lengthWidth p) <;>
      rfl

theorem readEntries_eq_readMap {p : Nat} {keyType valueType : Decoding.Decoder} {byts : Bytes} {n : Nat} :
    ∀ (pos : Int) (m : OrderedMap Decoding.Value Decoding.Value Bytes),
      Decoding.Python.readEntries p keyType valueType byts n pos ⟨m.items, m.index⟩ =
        (readMap p (fun b => keyType (some b) (innerProto p)) (fun b => valueType (some b) (innerProto p)) byts n pos m).map
          fun m => ⟨m.items, m.index⟩ := by
  induction n with
  | zero => exact fun _ _ => rfl
  | succ n ih =>
    intro pos m
    rw [readMap, Decoding.Python.readEntries]
    cases readItem p byts pos with
    | none => rfl
    | some first =>
      simp only [bind_eq_bind, bind_some]
      cases readItem p byts first.2 with
      | none => rfl
      | some second =>
        simp only [bind_some]
        cases keyType (some first.1) (innerProto p) with
        | none => rfl
        | some k =>
          cases valueType (some second.1) (innerProto p) with
          | none => rfl
          | some v => exact ih second.2 (m.insertUnchecked k first.1 v)

theorem python_deserialize_map (env : Decoding.Env) (k v : Decoding.CqlType) {keyType valueType : Decoding.Decoder}
    {byts : Bytes} {p : Nat} : Decoding.Python.deserializeWith env (.map k v) [keyType, valueType] byts p =
      (deserializeMap p (fun b => keyType (some b) (innerProto p)) (fun b => valueType (some b) (innerProto p)) byts).map
        fun m => .map k p m.items m.index := by
  rw [deserializeMap, Decoding.Python.deserializeWith]
  cases unpackLength p (byts.take (lengthWidth p)) with
  | none => rfl
  | some count =>
    have he : Decoding.Python.readEntries p keyType valueType byts count.toNat (lengthWidth p) {} = _ :=
      readEntries_eq_readMap _ {}
    simp only [bind_eq_bind, bind_some, he]
    cases readMap p (fun b => keyType (some b) (innerProto p)) (fun b => valueType (some b) (innerProto p)) byts
      count.toNat (lengthWidth p) {} <;> rfl

/-! ## Lookup -/

section

variable [DecidableEq φ] (serializeKey : κ → Option φ) (m : OrderedMap κ ν φ)

def OrderedMap.position (key : κ) : Option Nat := (serializeKey key).bind m.index.get?

/-- Each pair of `items()` is looked up and deleted by its key. -/
structure OrderedMap.LooksUp : Prop where
  items : m.itemsView serializeKey = .ok m.items
  position : ∀ (i : Nat) (kv : κ × ν), m.items[i]? = some kv → m.position serializeKey kv.1 = some i
  getItem : ∀ (i : Nat) (kv : κ × ν), m.items[i]? = some kv → m.getItem serializeKey kv.1 = .ok kv.2
  delItem : ∀ (i : Nat) (kv : κ × ν), m.items[i]? = some kv →
    ∃ m', m.delItem serializeKey kv.1 = (.ok (), m') ∧ m'.items = m.items.eraseIdx i ∧
      ∀ (j : Nat) (kv' : κ × ν), m'.items[j]? = some kv' → m'.position serializeKey kv'.1 = some j

end

namespace OrderedMap

variable [DecidableEq φ] {serializeKey : κ → Option φ} {m : OrderedMap κ ν φ} {flatKeys : List φ}

def Serialized (serializeKey : κ → Option φ) (m : OrderedMap κ ν φ) (flatKeys : List φ) : Prop :=
  ∀ (i : Nat) (kv : κ × ν), m.items[i]? = some kv → serializeKey kv.1 = flatKeys[i]?

theorem Serialized.without (h : m.Serialized serializeKey flatKeys) (flatKey : φ) (i : Nat) :
    (m.without flatKey i).Serialized serializeKey (flatKeys.eraseIdx i) := by
  intro j kv hkv
  rw [OrderedMap.without, getElem?_eraseIdx] at hkv
  rw [getElem?_eraseIdx]
  by_cases hji : j < i
  · rw [if_pos hji] at hkv ⊢
    exact h j kv hkv
  rw [if_neg hji] at hkv ⊢
  exact h _ kv hkv

namespace Indexed

variable (h : m.Indexed flatKeys)
include h

variable {i : Nat} {kv : κ × ν}

theorem flatKey_at (hkv : m.items[i]? = some kv) : ∃ flatKey, flatKeys[i]? = some flatKey := by
  have hlt : i < flatKeys.length := h.length ▸ (List.getElem?_eq_some_iff.mp hkv).1
  exact ⟨flatKeys[i], getElem?_eq_getElem hlt⟩

theorem position_of_serialized (hser : m.Serialized serializeKey flatKeys) (hkv : m.items[i]? = some kv) :
    m.position serializeKey kv.1 = some i := by
  obtain ⟨flatKey, hf⟩ := h.flatKey_at hkv
  rw [position, hser i kv hkv, hf, bind_some, h.get?_iff, hf]

theorem looksUp_iff : m.LooksUp serializeKey ↔ m.Serialized serializeKey flatKeys := by
  constructor
  · intro hl i kv hkv
    obtain ⟨flatKey, hser, hfn⟩ := Option.bind_eq_some_iff.mp (hl.position i kv hkv)
    rw [hser, (h.get?_iff flatKey i).mp hfn]
  intro hser
  have hget : ∀ (i : Nat) kv, m.items[i]? = some kv → m.getItem serializeKey kv.1 = .ok kv.2 := by
    intro i kv hkv
    obtain ⟨flatKey, hf⟩ := h.flatKey_at hkv
    exact h.getItem_at ((hser i kv hkv).trans hf) hf hkv
  refine ⟨?_, fun i kv hkv => h.position_of_serialized hser hkv, hget, ?_⟩
  · apply itemsView_of_getItem
    intro kv hkv
    obtain ⟨i, hi⟩ := mem_iff_getElem?.mp hkv
    exact hget i kv hi
  intro i kv hkv
  obtain ⟨flatKey, hf⟩ := h.flatKey_at hkv
  refine ⟨m.without flatKey i, h.delItem_at ((hser i kv hkv).trans hf) hf, rfl, ?_⟩
  intro j kv' hkv'
  exact (h.without hf).position_of_serialized (hser.without flatKey i) hkv'

end Indexed

end OrderedMap

/-- **Lookup in decoded maps** works exactly if keys serialize to the bytes they came in. -/
theorem decoded_map_looks_up_iff (p : Nat) (keyType : Bytes → Option κ) (valueType : Bytes → Option ν)
    (serializeKey : κ → Option Bytes) (entries : List (Bytes × Bytes)) (h : EntriesOk p keyType valueType entries) :
    (∃ m, deserializeMap p keyType valueType (mapBytes p entries) = some m ∧
      List.Forall₂ (Decodes keyType valueType) entries m.items ∧ m.LooksUp serializeKey) ↔
    ∀ e ∈ entries, (keyType e.1).bind serializeKey = some e.1 := by
  obtain ⟨m, hm, hdc, hidx⟩ := deserializeMap_eq h
  have hu : (∃ m, deserializeMap p keyType valueType (mapBytes p entries) = some m ∧
      List.Forall₂ (Decodes keyType valueType) entries m.items ∧ m.LooksUp serializeKey) ↔ m.LooksUp serializeKey := by
    simp [hm, hdc]
  rw [hu, hidx.looksUp_iff]
  constructor
  · intro hser e he
    obtain ⟨i, hi⟩ := mem_iff_getElem?.mp he
    obtain ⟨kv, hkv, hd⟩ := forall₂_at hdc hi
    rw [hd.1, bind_some, hser i kv hkv, getElem?_map, hi]
    rfl
  intro hc i kv hkv
  obtain ⟨e, he, hd⟩ := forall₂_at hdc.flip hkv
  have hkey := hc e (mem_of_getElem? he)
  rw [hd.1, bind_some] at hkey
  rw [hkey, getElem?_map, he]
  rfl

theorem decoded_map_looks_up_full_tuple : ∃ m, deserializeMap 4 (itemFrom (.tuple [.int, .int]) 4) (itemFrom .int 4)
        (mapBytes 4 [([0, 0, 0, 4, 0, 0, 0, 1, 0, 0, 0, 4, 0, 0, 0, 2], [0, 0, 0, 7])]) = some m ∧
      List.Forall₂ (Decodes (itemFrom (.tuple [.int, .int]) 4) (itemFrom .int 4))
        [([0, 0, 0, 4, 0, 0, 0, 1, 0, 0, 0, 4, 0, 0, 0, 2], [0, 0, 0, 7])] m.items ∧
      m.LooksUp fun v => serialize (.tuple [.int, .int]) v 4 :=
  (decoded_map_looks_up_iff 4 _ _ _ _ ⟨by decide, by decide, by decide, by decide⟩).mpr (by decide)

/-- With the key (1,), which came with its first field only, `items()` raises. -/
theorem decoded_map_loses_short_tuple :
    EntriesOk 4 (itemFrom (.tuple [.int, .int]) 4) (itemFrom .int 4) [([0, 0, 0, 4, 0, 0, 0, 1], [0, 0, 0, 7])] ∧
    ¬ ∃ m, deserializeMap 4 (itemFrom (.tuple [.int, .int]) 4) (itemFrom .int 4)
        (mapBytes 4 [([0, 0, 0, 4, 0, 0, 0, 1], [0, 0, 0, 7])]) = some m ∧
      m.LooksUp fun v => serialize (.tuple [.int, .int]) v 4 := by
  refine ⟨⟨by decide, by decide, by decide, by decide⟩, ?_⟩
  rintro ⟨m, hm, hl⟩
  have hrs : ((deserializeMap 4 (itemFrom (.tuple [.int, .int]) 4) (itemFrom .int 4)
      (mapBytes 4 [([0, 0, 0, 4, 0, 0, 0, 1], [0, 0, 0, 7])])).map
        fun m => (m.itemsView fun v => serialize (.tuple [.int, .int]) v 4).toBool) = some false := by decide +kernel
  rw [hm, Option.map_some, hl.items] at hrs
  cases hrs

/-! ## Keys of the classes -/

/-- What these bytes decode to serializes to the same bytes. -/
def Canonical (t : CqlType) (p : Nat) (b : Bytes) : Prop :=
  (fromBinary t (some b) p).bind (fun v => serialize t v p) = some b

def fieldBytes : Option Bytes → Bytes
  | none => signedBytes 4 (-1)
  | some b => framed 3 b

/-- Null, or bytes that their value serializes to. -/
inductive FieldsOk (p : Nat) : List CqlType → List (Option Bytes) → Prop
  | missing (ts : List CqlType) : FieldsOk p ts []
  | null (t : CqlType) {ts : List CqlType} {fields : List (Option Bytes)} :
    FieldsOk p ts fields → FieldsOk p (t :: ts) (none :: fields)
  | item {t : CqlType} {ts : List CqlType} {fields : List (Option Bytes)} {b : Bytes} {v : Value} :
    v ≠ .none → b.length < lengthLimit 3 → fromBinary t (some b) (innerProto p) = some v →
    serialize t v (innerProto p) = some b → FieldsOk p ts fields → FieldsOk p (t :: ts) (some b :: fields)

theorem serializeTuple_missing {ts : List CqlType} {p : Nat} :
    serializeTuple ts (replicate ts.length .none) p = some (replicate ts.length (signedBytes 4 (-1))).flatten := by
  induction ts with
  | nil => rfl
  | cons t ts ih => exact serializeTuple_none ih

variable {fields : List (Option Bytes)} {p : Nat} {ts : List CqlType} {bs : List Bytes}

theorem FieldsOk.written_again (h : FieldsOk p ts fields) : ∃ vs, vs.length = ts.length ∧
      (∀ pre : Bytes, deserializeTuple ts (pre ++ fields.flatMap fieldBytes) pre.length p = some vs) ∧
      serializeTuple ts vs p = some (fields.flatMap fieldBytes ++
        (replicate (ts.length - fields.length) (signedBytes 4 (-1))).flatten) := by
  induction h with
  | missing ts =>
    refine ⟨replicate ts.length .none, length_replicate, fun pre => ?_, serializeTuple_missing⟩
    cases ts with
    | nil => rfl
    | cons t ts => simp [deserializeTuple]
  | null t _ ih =>
    obtain ⟨vs, hlen, hr, hwr⟩ := ih
    refine ⟨.none :: vs, by simp [hlen], deserializeTuple_none hr, ?_⟩
    simpa [fieldBytes] using serializeTuple_none hwr
  | item hv hl hf hser _ ih =>
    obtain ⟨vs, hlen, hr, hwr⟩ := ih
    refine ⟨_ :: vs, by simp [hlen], deserializeTuple_item hl hf hr, ?_⟩
    simpa [fieldBytes] using serializeTuple_item hv hl hser hwr

/-- A tuple is found again if it came with all its fields. -/
theorem tuple_canonical_iff (hts : ts ≠ []) (h : FieldsOk p ts fields) :
    Canonical (.tuple ts) p (fields.flatMap fieldBytes) ↔ ts.length ≤ fields.length := by
  obtain ⟨vs, hlen, hr, hwr⟩ := h.written_again
  cases fields with
  | nil =>
    refine iff_of_false ?_ (by simpa using hts)
    simp [Canonical, fromBinary, fromBinaryWith, emptyBinaryOk, serialize]
  | cons field fields =>
    have hne : (field :: fields).flatMap fieldBytes ≠ [] := by
      cases field <;> simp [fieldBytes, framed, ← length_pos_iff, lengthWidth]
    have hf : fromBinary (.tuple ts) (some ((field :: fields).flatMap fieldBytes)) p = some (.tuple vs) := by
      have hr := hr []
      rw [fromBinary, fromBinaryWith_eq fun hnil => absurd hnil hne, deserialize, if_neg hts]
      simpa using congrArg (Option.map Value.tuple) hr
    have hser : serialize (.tuple ts) (.tuple vs) p = serializeTuple ts vs p := by
      rw [serialize, if_neg]
      rintro (hnil | hm)
      · exact hts hnil
      · omega
    rw [Canonical, hf, bind_some, hser, hwr]
    have hn : signedBytes 4 (-1) ≠ [] := by decide
    rw [← Nat.sub_eq_zero_iff_le]
    cases ts.length - (field :: fields).length with
    | zero => simp
    | succ n => simp [hn]

theorem short_tuple_not_canonical : ¬ Canonical (.tuple [.blob, .blob]) 4 (fieldBytes (some [7])) := by
  have h : FieldsOk 4 [.blob, .blob] [some [7]] :=
    .item (v := .bytes [7]) (by simp) (by decide) rfl rfl (.missing _)
  simpa using (tuple_canonical_iff (by simp) h).not

theorem framed_injective {cs : List Bytes} (hbs : ∀ b ∈ bs, b.length < lengthLimit p)
    (hcs : ∀ c ∈ cs, c.length < lengthLimit p) (hlen : bs.length = cs.length)
    (h : bs.flatMap (framed p) = cs.flatMap (framed p)) : bs = cs := by
  have hr : ∀ {ds : List Bytes}, (∀ d ∈ ds, d.length < lengthLimit p) →
      readItems p (fun d => some (.bytes d)) (ds.flatMap (framed p)) ds.length 0 = some (ds.map .bytes) := by
    intro ds hds
    have hall : Forall₂ (fun d w => d.length < lengthLimit p ∧ (some (.bytes d) : Option Value) = some w) ds
        (ds.map .bytes) := by
      rw [forall₂_map_right_iff, forall₂_same]
      exact fun d hd => ⟨hds d hd, rfl⟩
    simpa using readItems_eq hall []
  have hs := (hr hbs).symm.trans (h ▸ hlen ▸ hr hcs)
  exact map_injective_iff.mpr (fun _ _ => Value.bytes.inj) (Option.some.inj hs)

structure ElementOk (p : Nat) (t : CqlType) (b : Bytes) (v : Value) : Prop where
  size : b.length < lengthLimit p
  notNone : v ≠ .none
  read : fromBinary t (some b) (innerProto p) = some v
  written : serialize t v (innerProto p) = some b

/-- A set is found again if its elements came sorted; none has a set or map in it. -/
theorem set_canonical_iff {t : CqlType} {vs ws : List Value} (_ : hasSetOrMap t = false)
    (hc : bs.length < lengthLimit p) (h : List.Forall₂ (ElementOk p t) bs vs)
    (hset : SortedSet.update pyLt pyEq [] vs = some ws) (hp : ws.Perm vs) :
    Canonical (.set t) p (lengthBytes p bs.length ++ bs.flatMap (framed p)) ↔ ws = vs := by
  -- The bytes that an element is written as.
  let written (v : Value) : Bytes := (serialize t v (innerProto p)).getD []
  have hbs : bs = vs.map written := by
    rw [← forall₂_eq_eq_eq, forall₂_map_right_iff]
    exact h.imp fun b v hb => by simp [written, hb.written]
  have hall : ∀ v ∈ vs, ElementOk p t (written v) v := by
    rw [hbs, forall₂_map_left_iff, forall₂_same] at h
    exact h
  subst hbs
  rw [length_map] at hc ⊢
  have hall' : ∀ w ∈ ws, ElementOk p t (written w) w := fun w hw => hall w (hp.mem_iff.mp hw)
  have hsz : ∀ {us : List Value}, (∀ u ∈ us, ElementOk p t (written u) u) →
      ∀ b ∈ us.map written, b.length < lengthLimit p := by
    intro us hus b hb
    obtain ⟨u, hu, rfl⟩ := mem_map.mp hb
    exact (hus u hu).size
  have hr : fromBinary (.set t) (some (lengthBytes p vs.length ++ (vs.map written).flatMap (framed p))) p =
      some (.set ws) := by
    have hi : List.Forall₂ (fun b w => b.length < lengthLimit p ∧ fromBinary t (some b) (innerProto p) = some w)
        (vs.map written) vs := by
      rw [forall₂_map_left_iff, forall₂_same]
      exact fun v hv => ⟨(hall v hv).size, (hall v hv).read⟩
    have hl := readItems_eq hi (lengthBytes p vs.length)
    rw [lengthBytes_length] at hl
    unfold fromBinary at hl
    rw [fromBinary, fromBinaryWith_eq fun hnil => absurd hnil (count_ne_nil _ _ _), deserialize, count_take,
      unpackLength_eq hc]
    simp [hl, hset]
  have hwr : serialize (.set t) (.set ws) p =
      some (lengthBytes p vs.length ++ (ws.map written).flatMap (framed p)) := by
    have hi : ws.map (fun w => toBinaryWith (serialize t) w (innerProto p)) = (ws.map written).map some := by
      rw [map_map]
      refine map_congr_left fun w hw => ?_
      rw [toBinaryWith_eq (hall' w hw).notNone, (hall' w hw).written]
      rfl
    rw [serialize, hi, hp.length_eq, packLength_eq hc, serializeItems_eq (hsz hall')]
    rfl
  rw [Canonical, hr, bind_some, hwr, Option.some.injEq, append_cancel_left_eq]
  constructor
  · intro hs
    have hmap := framed_injective (hsz hall') (hsz hall) (by simp [hp.length_eq]) hs
    -- What was written reads back.
    have hbc : ∀ {us : List Value}, (∀ u ∈ us, ElementOk p t (written u) u) →
        (us.map written).map (fun b => fromBinary t (some b) (innerProto p)) = us.map some := by
      intro us hus
      rw [map_map]
      exact map_congr_left fun u hu => (hus u hu).read
    have hvl := (hbc hall').symm.trans (hmap ▸ hbc hall)
    exact map_injective_iff.mpr (Option.some_injective _) hvl
  rintro rfl
  rfl

theorem descending_set_not_canonical :
    ¬ Canonical (.set .blob) 4 (lengthBytes 4 2 ++ [[2], [1]].flatMap (framed 4)) := by
  have h : List.Forall₂ (ElementOk 4 .blob) [[2], [1]] [.bytes [2], .bytes [1]] :=
    .cons ⟨by decide, by simp, rfl, rfl⟩ (.cons ⟨by decide, by simp, rfl, rfl⟩ .nil)
  exact (set_canonical_iff rfl (by decide) h rfl (.swap ..)).not.mpr (by simp)

end CqlDriver.Types
