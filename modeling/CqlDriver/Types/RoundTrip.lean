import CqlDriver.Types.Framing

/-!
# What is written is read back
-/

namespace CqlDriver.Types

open Lib List

/-! ## Scalars -/

/-- Only texts and blobs can be written as no bytes at all. -/
def RoundTrips (t : CqlType) (p : Nat) (v : Value) : Prop :=
  ∃ b w, serialize t v p = some b ∧ (b = [] → emptyBinaryOk t = true) ∧ deserialize t b p = some w ∧ ReadsBack t v w

variable {n : Int} {width p limit : Nat} {t k : CqlType} {v : Value} {vs : List Value} {kvs : List (Value × Value)}
  {ts : List CqlType}

theorem packSigned_roundTrip (hw : width ≠ 0) (h : InRange width n) :
    ∃ b, packSigned width n = some b ∧ b ≠ [] ∧ unpackSigned width b = some n := by
  have hp : packSigned width n = some (signedBytes width n) := if_pos h
  refine ⟨_, hp, ?_, unpackSigned_packSigned hp⟩
  apply ne_nil_of_length_pos
  rw [signedBytes_length]
  omega

theorem fixed_roundTrips (hw : width ≠ 0) (h : InRange width n) (hser : serialize t (.int n) p = packSigned width n)
    (hdes : ∀ b, deserialize t b p = (unpackSigned width b).map .int) (hb : ReadsBack t (.int n) (.int n)) :
    RoundTrips t p (.int n) := by
  obtain ⟨b, hp, hne, hunp⟩ := packSigned_roundTrip hw h
  exact ⟨b, .int n, hser.trans hp, fun hnil => absurd hnil hne, by rw [hdes, hunp, Option.map_some], hb⟩

theorem boolean_roundTrips (b : Bool) (p : Nat) : RoundTrips .boolean p (.bool b) := by
  have hr : InRange 1 (if b then 1 else 0) := by
    unfold InRange
    split <;> omega
  obtain ⟨bytes, hp, hne, hunp⟩ := packSigned_roundTrip (by decide) hr
  refine ⟨bytes, .bool b, hp, fun hnil => absurd hnil hne, ?_, by simp [ReadsBack]⟩
  rw [deserialize, hunp]
  cases b <;> rfl

theorem ascii_roundTrips {s : List Char} (p : Nat) (h : ∀ c ∈ s, c.toNat < 128) : RoundTrips .ascii p (.str s) := by
  have hcr : ∀ c ∈ s, (UInt8.ofNat c.toNat).toNat = c.toNat := by
    intro c hc
    have := h c hc
    rw [UInt8.toNat_ofNat']
    omega
  refine ⟨s.map fun c => UInt8.ofNat c.toNat, .str s, ?_, fun _ => rfl, ?_, by simp [ReadsBack]⟩
  · rw [serialize, if_pos (by simpa using h)]
  have hs : (s.map fun c => UInt8.ofNat c.toNat).all (· < 128) := by
    simp only [all_map, all_eq_true, Function.comp_apply, decide_eq_true_eq]
    intro c hc
    rw [UInt8.lt_iff_toNat_lt, hcr c hc]
    exact h c hc
  have hb : (s.map fun c => UInt8.ofNat c.toNat).map (fun x => Char.ofNat x.toNat) = s := by
    rw [map_map]
    refine (map_congr_left fun c hc => ?_).trans (map_id s)
    simp [hcr c hc]
  rw [deserialize, if_pos hs, hb]

theorem text_roundTrips (s : List Char) (p : Nat) : RoundTrips .text p (.str s) := by
  refine ⟨utf8Encode s, .str s, rfl, fun _ => rfl, ?_, by simp [ReadsBack]⟩
  rw [deserialize, utf8Decode_utf8Encode]
  rfl

theorem uuid_roundTrips (n : BitVec 128) (p : Nat) : RoundTrips .uuid p (.uuid n) := by
  refine ⟨beEncode 16 n.toNat, .uuid n, rfl, ?_, ?_, by simp [ReadsBack]⟩
  · intro hnil
    have := congrArg length hnil
    simp at this
  have hlt : n.toNat < 256 ^ 16 := n.isLt
  rw [deserialize, beDecode_beEncode, Nat.mod_eq_of_lt hlt]
  simp

theorem varint_roundTrips (n : Int) (p : Nat) : RoundTrips .varint p (.int n) := by
  refine ⟨varintPack n, .int n, rfl, ?_, ?_, by simp [ReadsBack]⟩
  · intro hnil
    have hb := varintUnpack_varintPack n
    rw [hnil] at hb
    simp [varintUnpack] at hb
  · simp [deserialize, varintUnpack_varintPack]

/-! ## Items of collections -/

theorem binary_of_roundTrips (hv : v ≠ .none) (h : RoundTrips t p v) :
    ∃ b w, toBinary t v p = some b ∧ fromBinary t (some b) p = some w ∧ ReadsBack t v w := by
  obtain ⟨b, w, hser, hnil, hdes, hb⟩ := h
  refine ⟨b, w, ?_, ?_, hb⟩
  · rw [toBinary, toBinaryWith_eq hv, hser]
  · rw [fromBinary, fromBinaryWith_eq hnil, hdes]

def ItemOk (t : CqlType) (p limit : Nat) (v : Value) (b : Bytes) (w : Value) : Prop :=
  toBinary t v p = some b ∧ b.length < limit ∧ fromBinary t (some b) p = some w ∧ ReadsBack t v w

theorem itemOk_of_fits {full : Bool} (hv : Fits full t p v ∧ SizeOk t p limit v) (h : RoundTrips t p v) :
    ∃ b w, ItemOk t p limit v b w := by
  have hne : v ≠ .none := by
    rintro rfl
    exact not_fits_none full p t hv.1
  obtain ⟨b, w, hto, hf, hb⟩ := binary_of_roundTrips hne h
  exact ⟨b, w, hto, hv.2 b hto, hf, hb⟩

theorem items_roundTrip (h : ∀ v ∈ vs, ∃ b w, ItemOk t p limit v b w) :
    ∃ bs ws, vs.map (fun v => toBinary t v p) = bs.map some ∧ (∀ b ∈ bs, b.length < limit) ∧
      Forall₂ (fun b w => b.length < limit ∧ fromBinary t (some b) p = some w) bs ws ∧
      Forall₂ (ReadsBack t) vs ws := by
  induction vs with
  | nil => exact ⟨[], [], rfl, by simp, .nil, .nil⟩
  | cons v vs ih =>
    rw [forall_mem_cons] at h
    obtain ⟨b, w, hto, hlen, hf, hb⟩ := h.1
    obtain ⟨bs, ws, htos, hl, hfr, hbc⟩ := ih h.2
    refine ⟨b :: bs, w :: ws, ?_, ?_, .cons ⟨hlen, hf⟩ hfr, .cons hb hbc⟩
    · rw [map_cons, map_cons, hto, htos]
    rw [forall_mem_cons]
    exact ⟨hlen, hl⟩

theorem pairs_roundTrip (h : ∀ kv ∈ kvs, (∃ b w, ItemOk k p limit kv.1 b w) ∧ ∃ b w, ItemOk t p limit kv.2 b w) :
    ∃ bs : List (Bytes × Bytes), ∃ kws : List (Value × Value),
      kvs.flatMap (fun kv => [toBinary k kv.1 p, toBinary t kv.2 p]) = (bs.flatMap fun b => [b.1, b.2]).map some ∧
      (∀ b ∈ bs.flatMap fun b => [b.1, b.2], b.length < limit) ∧
      Forall₂ (fun b w => (b.1.length < limit ∧ fromBinary k (some b.1) p = some w.1) ∧
        b.2.length < limit ∧ fromBinary t (some b.2) p = some w.2) bs kws ∧
      Forall₂ (fun kv kw => ReadsBack k kv.1 kw.1 ∧ ReadsBack t kv.2 kw.2) kvs kws := by
  induction kvs with
  | nil => exact ⟨[], [], rfl, by simp, .nil, .nil⟩
  | cons kv kvs ih =>
    rw [forall_mem_cons] at h
    obtain ⟨⟨kb, kw, hkto, hkl, hkf, hk⟩, vb, vw, hvto, hvl, hvf, hv⟩ := h.1
    obtain ⟨bs, kws, htos, hl, hf, hb⟩ := ih h.2
    refine ⟨(kb, vb) :: bs, (kw, vw) :: kws, ?_, ?_, .cons ⟨⟨hkl, hkf⟩, hvl, hvf⟩ hf, .cons ⟨hk, hv⟩ hb⟩
    · simp only [flatMap_cons, map_append, map_cons, map_nil, hkto, hvto, htos]
    simp only [flatMap_cons, forall_mem_append, forall_mem_cons]
    exact ⟨⟨hkl, hvl, by simp⟩, hl⟩

theorem collection_roundTrip (h : ∀ v ∈ vs, ∃ b w, ItemOk t (innerProto p) (lengthLimit p) v b w) :
    ∃ xs ws, serializeItems p (vs.map fun v => toBinary t v (innerProto p)) = some xs ∧
      readItems p (fun x => fromBinary t (some x) (innerProto p)) (lengthBytes p vs.length ++ xs) vs.length
        (lengthWidth p) = some ws ∧ Forall₂ (ReadsBack t) vs ws := by
  obtain ⟨bs, ws, hto, hl, hf, hb⟩ := items_roundTrip h
  have hr := readItems_eq hf (lengthBytes p vs.length)
  rw [lengthBytes_length, ← hb.length_eq] at hr
  exact ⟨_, ws, by rw [hto, serializeItems_eq hl], hr, hb⟩

theorem list_roundTrips (hlen : vs.length < lengthLimit p)
    (h : ∀ v ∈ vs, ∃ b w, ItemOk t (innerProto p) (lengthLimit p) v b w) : RoundTrips (.list t) p (.list vs) := by
  obtain ⟨xs, ws, hser, hr, hb⟩ := collection_roundTrip h
  refine ⟨lengthBytes p vs.length ++ xs, .list ws, ?_, fun hnil => absurd hnil (count_ne_nil _ _ _), ?_, ?_⟩
  · unfold toBinary at hser
    simp [serialize, packLength_eq hlen, hser]
  · unfold fromBinary at hr
    simp [deserialize, unpackLength_eq hlen, hr]
  · simpa only [ReadsBack] using hb

theorem set_roundTrips (hlen : vs.length < lengthLimit p) (hn : vs.Nodup) (hset : hasSetOrMap t = false)
    (hf : ∀ v ∈ vs, Fits true t (innerProto p) v)
    (h : ∀ v ∈ vs, ∃ b w, ItemOk t (innerProto p) (lengthLimit p) v b w) : RoundTrips (.set t) p (.set vs) := by
  obtain ⟨xs, ws, hser, hr, hbc⟩ := collection_roundTrip h
  have hs : ws = vs := forall₂_eq (fun v hv w => eq_of_readsBack t _ v w hset (hf v hv)) hbc
  subst hs
  obtain ⟨sorted, hupd, hp⟩ := @update_perm _ pyLt _ eq_of_pyEq ws []
    (fun a ha b hb => pyLt_isSome t _ a b hset (hf a ha) (hf b hb)) hn
  refine ⟨lengthBytes p ws.length ++ xs, .set sorted, ?_, fun hnil => absurd hnil (count_ne_nil _ _ _), ?_, ?_⟩
  · unfold toBinary at hser
    simp [serialize, packLength_eq hlen, hser]
  · unfold fromBinary at hr
    simp [deserialize, unpackLength_eq hlen, hr, hupd]
  · simpa only [ReadsBack, nil_append] using hp

theorem map_roundTrips (hlen : kvs.length < lengthLimit p) (h : ∀ kv ∈ kvs, (∃ b w, ItemOk k (innerProto p)
      (lengthLimit p) kv.1 b w) ∧ ∃ b w, ItemOk t (innerProto p) (lengthLimit p) kv.2 b w) :
    RoundTrips (.map k t) p (.map kvs) := by
  obtain ⟨bs, kws, hto, hl, hf, hb⟩ := pairs_roundTrip h
  have hr := readPairs_eq (fun x => fromBinary k _ _) (fun x => fromBinary t _ _) hf (lengthBytes p kvs.length)
  rw [lengthBytes_length, ← hb.length_eq] at hr
  refine ⟨lengthBytes p kvs.length ++ (bs.flatMap fun b => [b.1, b.2]).flatMap (framed p), .map kws, ?_,
    fun hnil => absurd hnil (count_ne_nil _ _ _), ?_, ?_⟩
  · unfold toBinary at hto
    simp [serialize, packLength_eq hlen, hto, serializeItems_eq hl]
  · unfold fromBinary at hr
    simp [deserialize, unpackLength_eq hlen, hr]
  · simpa only [ReadsBack] using hb

/-! ## Components of tuples -/

def TupleTrips (ts : List CqlType) (p : Nat) (vs : List Value) : Prop :=
  ∃ b ws, serializeTuple ts vs p = some b ∧ (vs ≠ [] → ts ≠ [] → b ≠ []) ∧
    (∀ pre : Bytes, deserializeTuple ts (pre ++ b) pre.length p = some ws) ∧ ReadsBackAll ts vs ws

theorem tuple_missing (ts : List CqlType) (p : Nat) : TupleTrips ts p [] := by
  cases ts with
  | nil => exact ⟨[], [], rfl, by simp, fun _ => rfl, by simp [ReadsBackAll]⟩
  | cons t ts =>
    refine ⟨[], replicate (ts.length + 1) .none, rfl, by simp, ?_, by simp [ReadsBackAll]⟩
    simp [deserializeTuple]

theorem tuple_none (h : TupleTrips ts p vs) : TupleTrips (t :: ts) p (.none :: vs) := by
  obtain ⟨b, ws, hser, -, hdes, hb⟩ := h
  refine ⟨signedBytes 4 (-1) ++ b, .none :: ws, serializeTuple_none hser, ?_, deserializeTuple_none hdes, ?_⟩
  · intro _ _ hnil
    have := congrArg length hnil
    simp at this
  · simpa [ReadsBackAll] using hb

theorem tuple_item (hv : v ≠ .none) (hit : ∃ b w, ItemOk t (innerProto p) (2 ^ 31) v b w) (h : TupleTrips ts p vs) :
    TupleTrips (t :: ts) p (v :: vs) := by
  obtain ⟨b, ws, hser, -, hdes, hb⟩ := h
  obtain ⟨ib, w, hto, hil, hf, hi⟩ := hit
  have hl : ib.length < lengthLimit 3 := by
    exact hil
  rw [toBinary, toBinaryWith_eq hv] at hto
  refine ⟨framed 3 ib ++ b, w :: ws, serializeTuple_item hv hl hto hser, ?_, deserializeTuple_item hl hf hdes, ?_⟩
  · intro _ _ hnil
    have := congrArg length hnil
    simp [framed, lengthWidth] at this
  · exact ⟨.inr ⟨hv, hi⟩, hb⟩

/-! ## Every type -/

theorem emptyBinaryOk_of_isCompound (h : isCompound t) : emptyBinaryOk t = false := by
  cases t <;> first | rfl | cases h

mutual

theorem roundTrips_of_fits {full : Bool} : ∀ (t : CqlType) (p : Nat) (v : Value), TypeOk t → Fits full t p v →
    RoundTrips t p v
  | .ascii, p, v, _, hv => by
    cases v <;> simp only [Fits] at hv
    exact ascii_roundTrips p hv
  | .text, p, v, _, hv => by
    cases v <;> simp only [Fits] at hv
    exact text_roundTrips _ p
  | .blob, p, v, _, hv => by
    cases v <;> simp only [Fits] at hv
    exact ⟨_, _, rfl, fun _ => rfl, rfl, by simp [ReadsBack]⟩
  | .boolean, p, v, _, hv => by
    cases v with
    | bool b => exact boolean_roundTrips b p
    | _ => simp only [Fits] at hv
  | .tinyint, p, v, _, hv | .smallint, p, v, _, hv | .int, p, v, _, hv | .bigint, p, v, _, hv => by
    cases v <;> simp only [Fits] at hv
    exact fixed_roundTrips (by decide) hv rfl (fun _ => rfl) (by simp [ReadsBack])
  | .varint, p, v, _, hv => by
    cases v <;> simp only [Fits] at hv
    exact varint_roundTrips _ p
  | .uuid, p, v, _, hv => by
    cases v <;> simp only [Fits] at hv
    exact uuid_roundTrips _ p
  | .list t, p, v, ht, hv => by
    cases v <;> simp only [Fits] at hv
    simp only [TypeOk] at ht
    exact list_roundTrips hv.1 fun v hmem =>
      itemOk_of_fits (hv.2 v hmem) (roundTrips_of_fits t _ v ht (hv.2 v hmem).1)
  | .set t, p, v, ht, hv => by
    cases v <;> simp only [Fits] at hv
    simp only [TypeOk] at ht
    exact set_roundTrips hv.2.1 hv.1 ht.2 (fun v hmem => (hv.2.2 v hmem).1) fun v hmem =>
      itemOk_of_fits (hv.2.2 v hmem) (roundTrips_of_fits t _ v ht.1 (hv.2.2 v hmem).1)
  | .map k t, p, v, ht, hv => by
    cases v <;> simp only [Fits] at hv
    simp only [TypeOk] at ht
    exact map_roundTrips hv.1 fun kv hmem =>
      ⟨itemOk_of_fits (hv.2 kv hmem).1 (roundTrips_of_fits k _ kv.1 ht.1 (hv.2 kv hmem).1.1),
        itemOk_of_fits (hv.2 kv hmem).2 (roundTrips_of_fits t _ kv.2 ht.2 (hv.2 kv hmem).2.1)⟩
  | .tuple ts, p, v, ht, hv => by
    cases v <;> simp only [Fits] at hv
    simp only [TypeOk] at ht
    obtain ⟨b, ws, hser, hne, hdes, hbc⟩ := tupleTrips_of_fits ts p _ ht.2 hv.2.1 hv.2.2.2
    refine ⟨b, .tuple ws, ?_, fun hnil => absurd hnil (hne hv.1 ht.1), ?_, ?_⟩
    · rw [serialize, if_neg (by simp [ht.1, hv.2.1]), hser]
    · have hall := hdes []
      simp only [nil_append, length_nil, Nat.cast_zero] at hall
      rw [deserialize, if_neg ht.1, hall, Option.map_some]
    · simpa only [ReadsBack] using hbc
  | .udt ts, p, v, ht, hv => by
    cases v <;> simp only [Fits] at hv
    simp only [TypeOk] at ht
    obtain ⟨b, ws, hser, hne, hdes, hbc⟩ := tupleTrips_of_fits ts p _ ht.2 hv.1.le hv.2
    refine ⟨b, .tuple ws, ?_, fun hnil => absurd hnil (hne ?_ ht.1), ?_, ?_⟩
    · rw [serialize, if_neg (by simp [ht.1, hv.1]), hser]
    · rintro rfl
      exact ht.1 (eq_nil_of_length_eq_zero hv.1.symm)
    · have hall := hdes []
      simp only [nil_append, length_nil, Nat.cast_zero] at hall
      rw [deserialize, if_neg ht.1, hall, Option.map_some]
    · simpa only [ReadsBack] using hbc
  | .frozen t, p, v, ht, hv | .reversed t, p, v, ht, hv => by
    simp only [TypeOk, Fits] at ht hv
    obtain ⟨b, w, hser, hnil, hdes, hbc⟩ := roundTrips_of_fits t p v ht.2 hv
    have hne : v ≠ .none := by
      rintro rfl
      exact not_fits_none full p t hv
    refine ⟨b, w, ?_, ?_, ?_, ?_⟩
    · rw [serialize, toBinaryWith_eq hne, hser]
    · intro hb
      rw [emptyBinaryOk_of_isCompound ht.1] at hnil
      cases hnil hb
    · rw [deserialize, fromBinaryWith_eq hnil, hdes]
    · simpa only [ReadsBack] using hbc

theorem tupleTrips_of_fits {full : Bool} : ∀ (ts : List CqlType) (p : Nat) (vs : List Value), TypesOk ts →
    vs.length ≤ ts.length → FitsAll full ts p vs → TupleTrips ts p vs
  | ts, p, [], _, _, _ => tuple_missing ts p
  | t :: ts, p, v :: vs, hts, hlen, hvs => by
    simp only [TypesOk, FitsAll] at hts hvs
    have hr := tupleTrips_of_fits ts p vs hts.2 (by simpa using hlen) hvs.2
    rcases hvs.1 with ⟨rfl, -⟩ | hv
    · exact tuple_none hr
    · have hne : v ≠ .none := by
        rintro rfl
        exact not_fits_none full _ t hv.1
      exact tuple_item hne (itemOk_of_fits hv (roundTrips_of_fits t _ v hts.1 hv.1)) hr

end

/-- **Round trip.** A fitting value is written and reads back. -/
theorem values_read_back (t : CqlType) (p : Nat) (v : Value) (ht : TypeOk t) (hv : Fits false t p v) :
    ∃ b w, toBinary t v p = some b ∧ fromBinary t (some b) p = some w ∧ ReadsBack t v w := by
  have hne : v ≠ .none := by
    rintro rfl
    exact not_fits_none false p t hv
  exact binary_of_roundTrips hne (roundTrips_of_fits t p v ht hv)

theorem values_read_back_short :
    ∃ b w, toBinary (.map .text (.tuple [.set .int, .blob])) (.map [(.str ['k'], .tuple [.set [.int 2, .int 1]])]) 2 =
        some b ∧ fromBinary (.map .text (.tuple [.set .int, .blob])) (some b) 2 = some w ∧
      ReadsBack (.map .text (.tuple [.set .int, .blob])) (.map [(.str ['k'], .tuple [.set [.int 2, .int 1]])]) w := by
  apply values_read_back
  · simp [TypeOk, TypesOk, hasSetOrMap]
  simp only [Fits, FitsAll, forall_mem_cons, InRange]
  refine ⟨by decide, ⟨⟨trivial, sizeOk_of_eq rfl (by decide)⟩,
    ⟨by simp, by simp, by simp, .inr ⟨⟨by simp, by decide, ⟨by decide, sizeOk_of_eq rfl (by decide)⟩,
      ⟨by decide, sizeOk_of_eq rfl (by decide)⟩, by simp⟩, sizeOk_of_eq rfl (by decide)⟩, trivial⟩,
      sizeOk_of_eq rfl (by decide)⟩, by simp⟩

/-- Short tuples are filled up with `None` and cannot be compared. -/
theorem short_tuples_in_set_unreadable :
    (∀ v ∈ [Value.tuple [.int 1], .tuple [.int 1, .int 2]], Fits false (.tuple [.int, .int]) 4 v) ∧
    ∃ b, toBinary (.set (.tuple [.int, .int])) (.set [.tuple [.int 1], .tuple [.int 1, .int 2]]) 4 = some b ∧
      fromBinary (.set (.tuple [.int, .int])) (some b) 4 = none := by
  refine ⟨?_, _, rfl, by decide⟩
  simp only [forall_mem_cons, Fits, FitsAll, InRange]
  refine ⟨⟨by simp, by decide, by simp, .inr ⟨by decide, sizeOk_of_eq rfl (by decide)⟩, trivial⟩,
    ⟨by simp, by decide, by simp, .inr ⟨by decide, sizeOk_of_eq rfl (by decide)⟩,
      .inr ⟨by decide, sizeOk_of_eq rfl (by decide)⟩, trivial⟩, by simp⟩

end CqlDriver.Types
