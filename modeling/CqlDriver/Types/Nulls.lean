import CqlDriver.Types.MapLookup

/-! # Null elements -/

namespace CqlDriver.Types

open Lib List

variable {κ ν α η : Type}

/-! ## Elements -/

abbrev NullLength := { n : Int // -2 ^ 31 ≤ n ∧ n < 0 }

inductive Element
  | null (length : NullLength)
  | item (b : Bytes)

namespace Element

def bytes : Element → Bytes
  | .null length => signedBytes 4 length
  | .item b => signedBytes 4 b.length ++ b

def content : Element → Option Bytes
  | .null _ => none
  | .item b => some b

def ofContent : Option Bytes → Element
  | none => .null ⟨-1, by decide⟩
  | some b => .item b

theorem content_ofContent (b : Option Bytes) : (ofContent b).content = b := by
  cases b <;> rfl

end Element

def contentSize (b : Option Bytes) : Nat := 4 + (b.getD []).length

theorem Element.bytes_length (e : Element) : e.bytes.length = contentSize e.content := by
  cases e <;> simp [bytes, content, contentSize]

section

variable {p : Nat} (hp : 3 ≤ p)
include hp

theorem lengthWidth_eq : lengthWidth p = 4 := if_pos hp

theorem lengthLimit_eq : lengthLimit p = 2 ^ 31 := if_pos hp

theorem bytes_item {b : Bytes} : (Element.item b).bytes = framed p b := by
  rw [Element.bytes, framed, lengthBytes, if_pos hp]

theorem readItem_null {length : NullLength} {pre post : Bytes} : ∃ b, (post = [] → b = []) ∧
      readItem p (pre ++ ((Element.null length).bytes ++ post)) pre.length = some (b, (pre.length : Int) + 4 + length) := by
  have hpc : packSigned 4 length = some (signedBytes 4 length) := by
    have := length.2
    rw [packSigned, if_pos (by omega)]
  have hs := slice_middle pre (signedBytes 4 length) post
  rw [signedBytes_length] at hs
  simp only [Nat.cast_ofNat] at hs
  simp only [readItem, Element.bytes, lengthWidth_eq hp, unpackLength, if_pos (show p ≥ 3 from hp), Nat.cast_ofNat, hs,
    unpackSigned_packSigned hpc]
  refine ⟨_, ?_, rfl⟩
  rintro rfl
  have hend : (pre.length : Int) + 4 = (pre ++ (signedBytes 4 length ++ [])).length := by simp
  rw [hend, slice_at_end]

theorem readItem_before {byts : Bytes} (h : 4 ≤ byts.length) : readItem p byts (-1) = none := by
  have hs : slice byts (-1) 3 = [] := by
    apply slice_of_le
    simp only [slicePlace, Int.reduceLT, if_true, if_false]
    omega
  simp [readItem, lengthWidth_eq hp, unpackLength, if_pos (show p ≥ 3 from hp), hs, unpackSigned]

end

/-! ## Loops over elements -/

/-- What stands before each element: nothing, or the key. -/
structure ElementLoop (p : Nat) (η α : Type) where
  body : Bytes → Int → Option (α × Int)
  head : η → Bytes
  HeadOk : η → Prop
  make : η → Bytes → Option α
  makeNull : η → Option α
  body_eq : ∀ x, HeadOk x → ∀ pre rest : Bytes, body (pre ++ (head x ++ rest)) pre.length =
    (readItem p (pre ++ (head x ++ rest)) (pre ++ head x).length).bind fun r => (make x r.1).map fun a => (a, r.2)
  body_before : ∀ byts : Bytes, 4 ≤ byts.length → body byts (-1) = none

namespace ElementLoop

variable {p : Nat} (loop : ElementLoop p η α)

def decode (byts : Bytes) : Option (List α) := do
  let numelements ← unpackLength p (byts.take (lengthWidth p))
  collect (loop.body byts) numelements.toNat (lengthWidth p)

def recordBytes (r : η × Element) : Bytes := loop.head r.1 ++ r.2.bytes

def bytes (rs : List (η × Element)) : Bytes := signedBytes 4 rs.length ++ rs.flatMap loop.recordBytes

def expected : η × Option Bytes → Option α
  | (x, some b) => loop.make x b
  | (x, none) => loop.makeNull x

def size (c : η × Option Bytes) : Nat := (loop.head c.1).length + contentSize c.2

structure ContentsOk (cs : List (η × Option Bytes)) : Prop where
  size : 4 + (cs.map loop.size).sum < 2 ^ 31
  heads : ∀ c ∈ cs, loop.HeadOk c.1
  decodes : ∀ c ∈ cs, (loop.expected c).isSome

def items (rs : List (η × Bytes)) : List (η × Element) := rs.map fun r => (r.1, .item r.2)

def contents (rs : List (η × Element)) : List (η × Option Bytes) := rs.map fun r => (r.1, r.2.content)

variable {loop}

theorem split_contents (cs : List (η × Option Bytes)) :
    ∃ fr, cs = contents (items fr) ∨ ∃ x rest, cs = contents (items fr) ++ (x, none) :: rest := by
  induction cs with
  | nil => exact ⟨[], .inl rfl⟩
  | cons c cs ih =>
    obtain ⟨x, _ | b⟩ := c
    · exact ⟨[], .inr ⟨x, cs, rfl⟩⟩
    obtain ⟨fr, rfl | ⟨y, rest, rfl⟩⟩ := ih
    · exact ⟨(x, b) :: fr, .inl rfl⟩
    · exact ⟨(x, b) :: fr, .inr ⟨y, rest, rfl⟩⟩

variable {rs : List (η × Element)}

theorem eq_items {front : List (η × Bytes)} (h : contents rs = contents (items front)) : rs = items front := by
  induction rs generalizing front with
  | nil =>
    cases front with
    | nil => rfl
    | cons r front => cases h
  | cons r rs ih =>
    cases front with
    | nil => cases h
    | cons r' front =>
      obtain ⟨hf, hr⟩ := cons.inj h
      obtain ⟨x, _ | b⟩ := r
      · cases hf
      cases hf
      rw [ih hr]
      rfl

theorem eq_items_null {fr : List (η × Bytes)} {x : η} (h : contents rs = contents (items fr) ++ [(x, none)]) :
    ∃ length, rs = items fr ++ [(x, .null length)] := by
  obtain ⟨rs₁, rs₂, rfl, h₁, h₂⟩ := map_eq_append_iff.mp h
  obtain ⟨r, rfl, hr⟩ := map_eq_singleton_iff.mp h₂
  obtain ⟨y, length | b⟩ := r
  · cases hr
    exact ⟨length, by rw [eq_items h₁]⟩
  · cases hr

theorem size_bytes {rs : List (η × Element)} : (loop.bytes rs).length = 4 + ((contents rs).map loop.size).sum := by
  have hr : (fun r : η × Element => (loop.recordBytes r).length) = fun r => loop.size (r.1, r.2.content) := by
    funext r
    rw [recordBytes, length_append, Element.bytes_length, ElementLoop.size]
  rw [bytes, length_append, signedBytes_length, length_flatMap, contents, map_map, hr]
  rfl

theorem length_le_size {cs : List (η × Option Bytes)} : cs.length ≤ (cs.map loop.size).sum := by
  induction cs with
  | nil => simp
  | cons c cs ih =>
    have : 4 ≤ loop.size c := by
      unfold ElementLoop.size contentSize
      omega
    rw [map_cons, sum_cons, length_cons]
    omega

section

variable (hp : 3 ≤ p)
include hp

variable {x : η} {rest : List (η × Option Bytes)}

theorem body_item (hx : loop.HeadOk x) {b : Bytes} (hb : b.length < 2 ^ 31) (pre post : Bytes) :
    loop.body (pre ++ (loop.recordBytes (x, .item b) ++ post)) pre.length =
      (loop.make x b).map fun a => (a, ((pre ++ loop.recordBytes (x, .item b)).length : Int)) := by
  have hr := @readItem_eq p (pre ++ loop.head x) b post (lengthLimit_eq hp ▸ hb)
  have hbd := loop.body_eq x hx pre (framed p b ++ post)
  rw [append_assoc] at hr
  rw [recordBytes, bytes_item hp, append_assoc, hbd, hr, Option.bind_some, append_assoc]

theorem walk_items {rs : List (η × Bytes)} {as : List α}
    (h : Forall₂ (fun r a => loop.HeadOk r.1 ∧ r.2.length < 2 ^ 31 ∧ loop.make r.1 r.2 = some a) rs as)
    (pre post : Bytes) : Walk (loop.body (pre ++ ((items rs).flatMap loop.recordBytes ++ post))) (pre.length : Int) as
      ((pre ++ (items rs).flatMap loop.recordBytes).length : Int) := by
  induction h generalizing pre with
  | nil => simpa [items] using Walk.nil _
  | @cons r a rs as hr _ ih =>
    have hn := ih (pre ++ loop.recordBytes (r.1, .item r.2))
    have hf := body_item hp hr.1 hr.2.1 pre ((items rs).flatMap loop.recordBytes ++ post)
    rw [hr.2.2, Option.map_some] at hf
    rw [items, map_cons, flatMap_cons]
    simp only [append_assoc] at hn hf ⊢
    exact .cons hf hn

theorem decode_bytes (rs : List (η × Element)) (hc : rs.length < 2 ^ 31) :
    loop.decode (loop.bytes rs) = collect (loop.body (loop.bytes rs)) rs.length 4 := by
  have hlen : signedBytes 4 rs.length = lengthBytes p rs.length := by rw [lengthBytes, if_pos hp]
  rw [decode, bytes, hlen, count_take, unpackLength_eq (lengthLimit_eq hp ▸ hc), lengthWidth_eq hp]
  rfl

variable {fr : List (η × Bytes)}

omit hp in
theorem ContentsOk.front (h : loop.ContentsOk (contents (items fr) ++ rest)) :
    ∃ as, Forall₂ (fun r a => loop.HeadOk r.1 ∧ r.2.length < 2 ^ 31 ∧ loop.make r.1 r.2 = some a) fr as ∧
      (contents (items fr)).mapM loop.expected = some as := by
  obtain ⟨hs, hh, hd⟩ := h
  induction fr with
  | nil => exact ⟨[], .nil, rfl⟩
  | cons r fr ih =>
    simp only [items, contents, map_cons, cons_append, forall_mem_cons, sum_cons] at hs hh hd
    obtain ⟨as, has, hexp⟩ := ih (by simp only [items, contents]; omega) hh.2 hd.2
    obtain ⟨a, ha⟩ := Option.isSome_iff_exists.mp hd.1
    have hlen : r.2.length < 2 ^ 31 := by
      simp only [ElementLoop.size, contentSize, Element.content, Option.getD_some] at hs
      omega
    refine ⟨a :: as, .cons ⟨hh.1, hlen, ha⟩ has, ?_⟩
    have hf : loop.expected (r.1, some r.2) = some a := ha
    have hc : contents (items (r :: fr)) = (r.1, some r.2) :: contents (items fr) := rfl
    rw [hc, mapM_cons, hf, hexp]
    rfl

omit hp in
theorem ContentsOk.count {rs : List (η × Element)} (h : loop.ContentsOk (contents rs)) : rs.length < 2 ^ 31 := by
  have hs := h.size
  have hle : (contents rs).length ≤ ((contents rs).map loop.size).sum := length_le_size
  rw [contents, length_map] at hle
  rw [contents] at hs
  omega

def before (loop : ElementLoop p η α) (front : List (η × Bytes)) (tail : List (η × Element)) : Bytes :=
  signedBytes 4 (items front ++ tail).length ++ (items front).flatMap loop.recordBytes

omit hp in
theorem bytes_eq_before {tail : List (η × Element)} :
    loop.bytes (items fr ++ tail) = loop.before fr tail ++ tail.flatMap loop.recordBytes := by
  simp [bytes, before]

theorem decode_tail {fr : List (η × Bytes)} {tail : List (η × Element)}
    (h : loop.ContentsOk (contents (items fr) ++ contents tail)) :
    ∃ as, (contents (items fr)).mapM loop.expected = some as ∧ loop.decode (loop.bytes (items fr ++ tail)) =
        (collect (loop.body (loop.bytes (items fr ++ tail))) tail.length (loop.before fr tail).length).map (as ++ ·) := by
  have hc : (items fr ++ tail).length < 2 ^ 31 := by
    rw [contents, contents, ← map_append] at h
    exact ContentsOk.count h
  obtain ⟨as, has, hexp⟩ := h.front
  refine ⟨as, hexp, ?_⟩
  have hw := walk_items hp has (signedBytes 4 (items fr ++ tail).length) (tail.flatMap loop.recordBytes)
  rw [signedBytes_length, ← append_assoc] at hw
  have hlen : (items fr ++ tail).length = as.length + tail.length := by
    rw [length_append, items, length_map, has.length_eq]
  rw [decode_bytes hp _ hc, hlen, bytes_eq_before]
  exact hw.collect_add tail.length

theorem body_null (hx : loop.HeadOk x) (length : NullLength) {pre : Bytes} (post : Bytes) :
    ∃ b, (post = [] → b = []) ∧ loop.body (pre ++ (loop.recordBytes (x, .null length) ++ post)) pre.length =
      (loop.make x b).map fun a => (a, ((pre ++ loop.head x).length : Int) + 4 + length) := by
  obtain ⟨b, hb, hr⟩ := readItem_null hp
  have hbd := loop.body_eq x hx pre ((Element.null length).bytes ++ post)
  rw [append_assoc] at hr
  exact ⟨b, hb, by rw [recordBytes, append_assoc, hbd, hr, Option.bind_some]⟩

theorem decode_items (h : loop.ContentsOk (contents (items fr))) :
    loop.decode (loop.bytes (items fr)) = (contents (items fr)).mapM loop.expected := by
  have ht : loop.ContentsOk (contents (items fr) ++ contents []) := by simpa [contents] using h
  obtain ⟨as, hexp, hdec⟩ := decode_tail hp ht
  rw [append_nil] at hdec
  rw [hdec, hexp]
  simp [collect]

theorem decode_last (h : loop.ContentsOk (contents (items fr) ++ [(x, none)])) {length : NullLength} :
    ∃ as, (contents (items fr)).mapM loop.expected = some as ∧
      loop.decode (loop.bytes (items fr ++ [(x, .null length)])) = (loop.make x []).map fun a => as ++ [a] := by
  obtain ⟨as, hexp, hdec⟩ := @decode_tail _ _ _ loop hp fr [(x, .null length)] h
  refine ⟨as, hexp, ?_⟩
  have hh : loop.HeadOk x := h.heads (x, none) (by simp)
  obtain ⟨b, hb, hbd⟩ := body_null hp hh length []
  obtain rfl := hb rfl
  rw [hdec, bytes_eq_before, flatMap_cons, flatMap_nil, length_singleton, collect, hbd]
  cases loop.make x [] <;> rfl

theorem decode_null (hr : rest ≠ []) (h : loop.ContentsOk (contents (items fr) ++ (x, none) :: rest)) :
    ∃ rs, contents rs = contents (items fr) ++ (x, none) :: rest ∧ loop.decode (loop.bytes rs) = none := by
  let others := rest.map fun c => (c.1, Element.ofContent c.2)
  have ho : contents others = rest := by
    simp [others, contents, Function.comp_def, Element.content_ofContent]
  -- The first length leads one before the start.
  let place := 4 + ((contents (items fr)).map loop.size).sum + (loop.head x).length + 4
  have hpl : place < 2 ^ 31 := by
    have hs := h.size
    rw [map_append, sum_append, map_cons, sum_cons] at hs
    have hx : loop.size (x, none) = (loop.head x).length + 4 := by simp [ElementLoop.size, contentSize]
    omega
  let back : NullLength := ⟨-(place + 1 : Int), by omega⟩
  have ht : contents ((x, Element.null back) :: others) = (x, none) :: rest := by
    rw [← ho]
    rfl
  refine ⟨items fr ++ (x, .null back) :: others, by rw [contents, map_append, ← contents, ← contents, ht], ?_⟩
  obtain ⟨as, -, hdec⟩ := decode_tail hp (show loop.ContentsOk (contents (items fr) ++ contents _) from ht ▸ h)
  have hh : loop.HeadOk x := h.heads (x, none) (by simp)
  obtain ⟨b, -, hb⟩ := body_null hp hh back (others.flatMap loop.recordBytes)
  have hn : ((loop.before fr ((x, .null back) :: others) ++ loop.head x).length : Int) + 4 + back = -1 := by
    have hbef : (loop.before fr ((x, .null back) :: others)).length =
        4 + ((contents (items fr)).map loop.size).sum := by
      rw [← size_bytes]
      simp [before, bytes]
    rw [length_append, hbef]
    simp only [back]
    omega
  have hf : loop.body (loop.bytes (items fr ++ (x, .null back) :: others)) (-1) = none := by
    apply loop.body_before
    rw [size_bytes]
    omega
  have hc : collect (loop.body (loop.bytes (items fr ++ (x, .null back) :: others))) others.length (-1) = none := by
    obtain ⟨other, others', hcn⟩ := exists_cons_of_ne_nil hr
    rw [show others.length = others'.length + 1 by simp [others, hcn], collect, hf]
    rfl
  rw [bytes_eq_before, flatMap_cons] at hdec hc
  rw [bytes_eq_before, flatMap_cons, hdec, length_cons, collect, hb]
  cases loop.make x b with
  | none => rfl
  | some a =>
    simp only [Option.map_some, Option.bind_eq_bind, Option.bind_some, hn, hc]
    rfl

theorem decode_last_iff (h : loop.ContentsOk (contents (items fr) ++ [(x, none)])) :
    (∀ rs, contents rs = contents (items fr) ++ [(x, none)] →
      loop.decode (loop.bytes rs) = (contents (items fr) ++ [(x, none)]).mapM loop.expected) ↔
      loop.make x [] = loop.makeNull x := by
  have hexp : ∀ {as}, (contents (items fr)).mapM loop.expected = some as →
      (contents (items fr) ++ [(x, none)]).mapM loop.expected = (loop.makeNull x).map fun a => as ++ [a] := by
    intro as has
    have hl : loop.expected (x, none) = loop.makeNull x := rfl
    simp only [mapM_append, has, mapM_cons, hl]
    cases loop.makeNull x <;> rfl
  constructor
  · intro hall
    obtain ⟨as, has, hdec⟩ := decode_last hp h
    have hs := hall (items fr ++ [(x, .null ⟨-1, by decide⟩)]) (by simp [contents, Element.content])
    rw [hdec, hexp has] at hs
    have hi : Function.Injective fun a => as ++ [a] := fun a b hab => by simpa using hab
    exact Option.map_injective hi hs
  intro he rs hrs
  obtain ⟨length, rfl⟩ := eq_items_null hrs
  obtain ⟨as, has, hdec⟩ := decode_last hp h
  rw [hdec, hexp has, he]

omit hp in
theorem null_notMem_items {x : η} : (x, none) ∉ contents (items fr) := by
  simp [contents, items, Element.content]

/-- Right exactly if a null comes last and reads from no bytes. -/
theorem decode_iff {cs : List (η × Option Bytes)} (h : loop.ContentsOk cs) :
    (∀ rs, contents rs = cs → loop.decode (loop.bytes rs) = cs.mapM loop.expected) ↔
      ∀ (i : Nat) (x : η), cs[i]? = some (x, none) → i + 1 = cs.length ∧ loop.make x [] = loop.makeNull x := by
  obtain ⟨front, rfl | ⟨x, rest, rfl⟩⟩ := split_contents cs
  · refine iff_of_true (fun rs hrs => ?_) fun i x hi => ?_
    · rw [eq_items hrs, decode_items hp h]
    · exact absurd (mem_of_getElem? hi) null_notMem_items
  have hnl : (contents (items front) ++ (x, none) :: rest)[(contents (items front)).length]? = some (x, none) := by simp
  by_cases hr : rest = []
  · subst hr
    rw [decode_last_iff hp h]
    refine ⟨fun he i y hi => ?_, fun hall => (hall _ x hnl).2⟩
    by_cases hlt : i < (contents (items front)).length
    · rw [getElem?_append_left hlt] at hi
      exact absurd (mem_of_getElem? hi) null_notMem_items
    have hb := (List.getElem?_eq_some_iff.mp hi).1
    rw [length_append, length_singleton] at hb ⊢
    obtain rfl : i = (contents (items front)).length := by omega
    cases hnl.symm.trans hi
    exact ⟨rfl, he⟩
  refine iff_of_false (fun hall => ?_) fun hall => ?_
  · obtain ⟨rs, hrs, hn⟩ := decode_null hp hr h
    have hs := mapM_isSome.mpr h.decodes
    rw [← hall rs hrs, hn] at hs
    cases hs
  · have hl := (hall _ x hnl).1
    rw [length_append, length_cons] at hl
    exact hr (length_eq_zero_iff.mp (by omega))

end

end ElementLoop

/-! ## Lists and maps -/

section

variable (p : Nat)

def elementBody (subtype : Bytes → Option ν) (byts : Bytes) (pos : Int) : Option (ν × Int) := do
  let (item, pos) ← readItem p byts pos
  return (← subtype item, pos)

def deserializeList (subtype : Bytes → Option ν) (byts : Bytes) : Option (List ν) := do
  let numelements ← unpackLength p (byts.take (lengthWidth p))
  collect (elementBody p subtype byts) numelements.toNat (lengthWidth p)

end

theorem readItems_eq_collect (p : Nat) (item : Bytes → Option Value) (byts : Bytes) (n : Nat) :
    ∀ pos : Int, readItems p item byts n pos = collect (elementBody p item byts) n pos := by
  induction n with
  | zero => exact fun _ => rfl
  | succ n ih =>
    intro pos
    simp only [readItems, collect, elementBody, ih, Option.bind_eq_bind, Option.pure_def, Option.bind_assoc, Option.bind_some]

theorem deserialize_list (t : CqlType) {b : Bytes} {p : Nat} :
    deserialize (.list t) b p = (deserializeList p (itemFrom t p) b).map .list := by
  rw [deserialize, deserializeList]
  cases unpackLength p (b.take (lengthWidth p)) with
  | none => rfl
  | some count =>
    have hi := readItems_eq_collect p (itemFrom t p) b count.toNat (lengthWidth p)
    unfold itemFrom fromBinary at hi ⊢
    simp only [Option.bind_eq_bind, Option.bind_some, hi]
    cases collect _ count.toNat (lengthWidth p : Int) <;> rfl

variable {byts : Bytes} {sub : Decoding.Decoder}

theorem python_readItems_eq_collect {p : Nat} {n : Nat} : ∀ pos : Int, Decoding.Python.readItems p sub byts n pos =
      collect (elementBody p (fun b => sub (some b) (innerProto p)) byts) n pos := by
  induction n with
  | zero => exact fun _ => rfl
  | succ n ih =>
    intro pos
    simp only [Decoding.Python.readItems, collect, elementBody, ih, Option.bind_eq_bind, Option.pure_def,
      Option.bind_assoc, Option.bind_some]

theorem python_deserialize_list (env : Decoding.Env) (t : Decoding.CqlType) {p : Nat} :
    Decoding.Python.deserializeWith env (.list t) [sub] byts p =
      (deserializeList p (fun b => sub (some b) (innerProto p)) byts).map .list := by
  rw [deserializeList, Decoding.Python.deserializeWith]
  cases unpackLength p (byts.take (lengthWidth p)) with
  | none => rfl
  | some count =>
    simp only [Option.bind_eq_bind, Option.bind_some, python_readItems_eq_collect]
    cases collect _ count.toNat (lengthWidth p : Int) <;> rfl

def listBytes (es : List Element) : Bytes := signedBytes 4 es.length ++ es.flatMap Element.bytes

def nullMapBytes (es : List (Bytes × Element)) : Bytes :=
  signedBytes 4 es.length ++ es.flatMap fun e => (Element.item e.1).bytes ++ e.2.bytes

def orNone (pyNone : ν) (subtype : Bytes → Option ν) : Option Bytes → Option ν
  | none => some pyNone
  | some b => subtype b

structure ListOk (subtype : Bytes → Option ν) (elements : List (Option Bytes)) : Prop where
  size : 4 + (elements.map contentSize).sum < 2 ^ 31
  decodes : ∀ b, some b ∈ elements → (subtype b).isSome

structure MapOk (keyType : Bytes → Option κ) (valueType : Bytes → Option ν) (entries : List (Bytes × Option Bytes)) :
    Prop where
  size : 4 + (entries.map fun e => contentSize (some e.1) + contentSize e.2).sum < 2 ^ 31
  keys : ∀ e ∈ entries, (keyType e.1).isSome
  decodes : ∀ e ∈ entries, ∀ b, e.2 = some b → (valueType b).isSome

section

variable {p : Nat} (hp : 3 ≤ p)

def listLoop (subtype : Bytes → Option ν) (pyNone : ν) : ElementLoop p Unit ν where
  body := elementBody p subtype
  head _ := []
  HeadOk _ := True
  make _ := subtype
  makeNull _ := some pyNone
  body_eq _ _ pre rest := by
    rw [elementBody, nil_append, append_nil]
    cases readItem p (pre ++ rest) pre.length with
    | none => rfl
    | some r => cases h : subtype r.1 <;> simp [h]
  body_before byts h := by
    rw [elementBody, readItem_before hp h]
    rfl

def mapLoop (keyType : Bytes → Option κ) (valueType : Bytes → Option ν) (pyNone : ν) : ElementLoop p Bytes (κ × ν) where
  body := entryBody p keyType valueType
  head kb := (Element.item kb).bytes
  HeadOk kb := kb.length < 2 ^ 31
  make kb vb := (keyType kb).bind fun key => (valueType vb).map fun value => (key, value)
  makeNull kb := (keyType kb).map fun key => (key, pyNone)
  body_eq kb hkb pre rest := by
    rw [bytes_item hp, entryBody, readItem_eq (lengthLimit_eq hp ▸ hkb)]
    simp only [Option.bind_eq_bind, Option.bind_some]
    cases readItem p (pre ++ (framed p kb ++ rest)) (pre ++ framed p kb).length with
    | none => rfl
    | some r =>
      cases keyType kb with
      | none => simp
      | some key => cases h₂ : valueType r.1 <;> simp [h₂]
  body_before byts h := by
    rw [entryBody, readItem_before hp h]
    rfl

include hp

theorem list_nulls_iff {sub : Bytes → Option ν} {pyNone : ν} {xs : List (Option Bytes)} (h : ListOk sub xs) :
    (∀ es : List Element, es.map Element.content = xs →
      deserializeList p sub (listBytes es) = xs.mapM (orNone pyNone sub)) ↔
    ∀ i : Nat, xs[i]? = some none → i + 1 = xs.length ∧ sub [] = some pyNone := by
  let loop := listLoop hp sub pyNone
  have hexp : ∀ b, loop.expected ((), b) = orNone pyNone sub b := by
    intro b
    cases b <;> rfl
  have hok : loop.ContentsOk (xs.map fun e => ((), e)) := by
    refine ⟨?_, fun _ _ => trivial, fun c hc => ?_⟩
    · simpa [ElementLoop.size, Function.comp_def, loop, listLoop] using h.size
    obtain ⟨e, he, rfl⟩ := mem_map.mp hc
    rw [hexp]
    cases e with
    | none => rfl
    | some b => exact h.decodes b he
  have hiff := ElementLoop.decode_iff hp hok
  have hb : ∀ es : List Element, loop.bytes (es.map fun e => ((), e)) = listBytes es := by
    intro es
    simp [ElementLoop.bytes, listBytes, flatMap_map, ElementLoop.recordBytes, loop, listLoop]
  have hcn : ∀ es : List Element,
      ElementLoop.contents (es.map fun e => ((), e)) = (es.map Element.content).map fun e => ((), e) := by
    simp [ElementLoop.contents]
  have hm : (xs.map fun e => ((), e)).mapM loop.expected = xs.mapM (orNone pyNone sub) := by
    rw [mapM_map]
    exact mapM_congr fun e _ => hexp e
  rw [hm] at hiff
  refine Iff.trans ⟨fun hall rs hrs => ?_, fun hall es hes => ?_⟩ (hiff.trans ⟨fun hall i hi => ?_, fun hall i x hi => ?_⟩)
  · have hu : rs = (rs.map Prod.snd).map fun e => ((), e) := by simp [Function.comp_def]
    rw [hu, hcn] at hrs
    rw [hu, hb]
    exact hall _ (map_injective_iff.mpr (Prod.mk_right_injective ()) hrs)
  · rw [← hb]
    exact hall _ (by rw [hcn, hes])
  · have hl := hall i () (by simp [hi])
    rwa [length_map] at hl
  rw [length_map]
  exact hall i (by simpa using hi)

theorem map_nulls_iff {kt : Bytes → Option κ} {vt : Bytes → Option ν} {pyNone : ν}
    {entries : List (Bytes × Option Bytes)} (h : MapOk kt vt entries) :
    (∀ es : List (Bytes × Element), (es.map fun e => (e.1, e.2.content)) = entries →
      (deserializeMap p kt vt (nullMapBytes es)).map OrderedMap.items =
        entries.mapM fun e => (kt e.1).bind fun key => (orNone pyNone vt e.2).map fun v => (key, v)) ↔
    ∀ (i : Nat) (kb : Bytes), entries[i]? = some (kb, none) → i + 1 = entries.length ∧ vt [] = some pyNone := by
  let loop := mapLoop hp kt vt pyNone
  have hexp : loop.expected = fun e => (kt e.1).bind fun key =>
      (orNone pyNone vt e.2).map fun v => (key, v) := by
    funext ⟨kb, b⟩
    cases b with
    | none => cases h : kt kb <;> simp [ElementLoop.expected, loop, mapLoop, orNone, h]
    | some b => rfl
  have hok : loop.ContentsOk entries := by
    have hs : (entries.map loop.size) = entries.map fun e => contentSize (some e.1) + contentSize e.2 := by
      refine map_congr_left fun e _ => ?_
      simp [ElementLoop.size, loop, mapLoop, Element.bytes_length, Element.content]
    refine ⟨hs ▸ h.size, fun e he => ?_, fun e he => ?_⟩
    · have hle := single_le_sum (fun _ _ => Nat.zero_le _) _ (mem_map_of_mem (f := loop.size) he)
      have ht := h.size
      rw [← hs] at ht
      have hkey : e.1.length ≤ loop.size e := by
        simp [ElementLoop.size, loop, mapLoop, Element.bytes]
        omega
      show e.1.length < 2 ^ 31
      omega
    obtain ⟨key, hkey⟩ := Option.isSome_iff_exists.mp (h.keys e he)
    rw [hexp]
    cases hb : e.2 with
    | none => simp [hkey, hb, orNone]
    | some b => simpa [hkey, hb, orNone] using h.decodes e he b hb
  have hiff := ElementLoop.decode_iff hp hok
  rw [hexp] at hiff
  have hdec : ∀ es, loop.decode (loop.bytes es) = (deserializeMap p kt vt (nullMapBytes es)).map OrderedMap.items :=
    fun es => (deserializeMap_items p kt vt (nullMapBytes es)).symm
  simp only [hdec] at hiff
  refine hiff.trans (forall_congr' fun i => forall_congr' fun kb => imp_congr_right fun hi => and_congr_right fun _ => ?_)
  obtain ⟨key, hkey⟩ := Option.isSome_iff_exists.mp (h.keys _ (mem_of_getElem? hi))
  cases hem : vt [] with
  | none | some v => simp [loop, mapLoop, hkey, hem]

end

/-- **Null elements** are decoded exactly if only the last is null and may be. -/
theorem null_elements_iff (p : Nat) (hp : 3 ≤ p) :
    (∀ (subtype : Bytes → Option ν) (pyNone : ν) (elements : List (Option Bytes)), ListOk subtype elements →
      ((∀ es : List Element, es.map Element.content = elements →
        deserializeList p subtype (listBytes es) = elements.mapM (orNone pyNone subtype)) ↔
      ∀ i : Nat, elements[i]? = some none → i + 1 = elements.length ∧ subtype [] = some pyNone)) ∧
    ∀ (keyType : Bytes → Option κ) (valueType : Bytes → Option ν) (pyNone : ν) (entries : List (Bytes × Option Bytes)),
      MapOk keyType valueType entries →
      ((∀ es : List (Bytes × Element), (es.map fun e => (e.1, e.2.content)) = entries →
        (deserializeMap p keyType valueType (nullMapBytes es)).map OrderedMap.items =
          entries.mapM fun e => (keyType e.1).bind fun key => (orNone pyNone valueType e.2).map fun value => (key, value)) ↔
      ∀ (i : Nat) (kb : Bytes), entries[i]? = some (kb, none) → i + 1 = entries.length ∧ valueType [] = some pyNone) := by
  exact ⟨fun subtype pyNone elements h => list_nulls_iff hp h,
    fun keyType valueType pyNone entries h => map_nulls_iff hp h⟩

theorem null_elements_at_end : (∀ es : List Element, es.map Element.content = [some [0, 0, 0, 5], none] →
      deserializeList 4 (itemFrom .int 4) (listBytes es) = [some [0, 0, 0, 5], none].mapM (orNone .none (itemFrom .int 4))) ∧
    ∀ es : List (Bytes × Element), (es.map fun e => (e.1, e.2.content)) = [([0, 0, 0, 1], none)] →
      (deserializeMap 4 (itemFrom .int 4) (itemFrom .int 4) (nullMapBytes es)).map OrderedMap.items =
        [([0, 0, 0, 1], none)].mapM fun e => (itemFrom .int 4 e.1).bind fun key =>
          (orNone .none (itemFrom .int 4) e.2).map fun value => (key, value) := by
  constructor
  · refine ((@null_elements_iff Value Value 4 (by decide)).1 _ .none [some [0, 0, 0, 5], none] ⟨by decide, ?_⟩).mpr ?_
    · simp only [mem_cons, Option.some.injEq, reduceCtorEq, not_mem_nil, or_false, forall_eq]
      decide
    intro i hi
    match i with
    | 0 => cases hi
    | 1 => exact ⟨rfl, rfl⟩
    | i + 2 => cases hi
  refine ((@null_elements_iff Value Value 4 (by decide)).2 _ _ .none [([0, 0, 0, 1], none)]
    ⟨by decide, by decide, by simp⟩).mpr ?_
  intro i kb hi
  match i with
  | 0 => exact ⟨rfl, rfl⟩
  | i + 1 => cases hi

/-- With a null in front of 5, the 5 is lost. -/
theorem null_element_in_front : ListOk (itemFrom .int 4) [none, some [0, 0, 0, 5]] ∧
    deserializeList 4 (itemFrom .int 4) (listBytes [.null ⟨-1, by decide⟩, .item [0, 0, 0, 5]]) = some [.none, .none] ∧
    itemFrom .int 4 [0, 0, 0, 5] = some (.int 5) := by
  refine ⟨⟨by decide, ?_⟩, ?_, by simp [itemFrom, fromBinary, fromBinaryWith, deserialize, unpackSigned, signedValue, beDecode]⟩
  · simp only [mem_cons, Option.some.injEq, reduceCtorEq, not_mem_nil, or_false, false_or, forall_eq]
    decide
  have hd : ((deserializeList 4 (itemFrom .int 4) (listBytes [.null ⟨-1, by decide⟩, .item [0, 0, 0, 5]])).map
      fun vs => pyEq (.list vs) (.list [.none, .none])) = some true := by decide +kernel
  obtain ⟨vs, hvs, hs⟩ := Option.map_eq_some_iff.mp hd
  cases eq_of_pyEq _ _ hs
  exact hvs

end CqlDriver.Types
