import CqlDriver.Decoding.Samples

/-! # Decoded sets -/

namespace CqlDriver.Decoding

open Lib CqlDriver.Types List Python

/-- Different elements become a set with each of them in it. -/
def DecodesSets (env : Env) (t : CqlType) : Prop :=
  ∀ p ≥ 3, ∀ b bs vs, takeCounted p (takeItems p) b = some bs →
    (bs.mapM fun x => fromBinary env t (some x) p) = some vs → (∀ v ∈ vs, t.IsValue v) →
    vs.Pairwise (Different env.eq) →
    ∃ s, fromBinary env (.set t) (some b) p = some (.set s) ∧ s.Perm vs ∧
      ∀ v ∈ vs, SortedSet.contains env.lt env.eq s v = some true

variable {env : Env} {inet : InetText} {t : CqlType} {n : Nat}

variable {b : Bytes}

theorem fromBinary_chain {p : Nat} (hp : 3 ≤ p) {bs : List Bytes} {vs ws : List Value}
    (hb : takeCounted p (takeItems p) b = some bs)
    (hvs : (bs.mapM fun x => fromBinary env t (some x) p) = some vs) (hpr : vs.Perm ws) (hws : Chain env.lt env.eq ws) :
    fromBinary env (.set t) (some b) p = some (.set ws) ∧
      ∀ v ∈ vs, SortedSet.contains env.lt env.eq ws v = some true := by
  have hi : innerProto p = p := Nat.max_eq_right hp
  obtain ⟨hupd, hf⟩ := hws.update hpr
  rw [fromBinary_set env hb, hi, hvs, Option.bind_some, hupd]
  exact ⟨rfl, hf⟩

theorem decodesSets_of_ordered (ht : t.Ordered) (hn : t.listDepth < n) : DecodesSets (env.comparing inet n) t := by
  intro p hp b bs vs hb hvs hv hd
  have hk := keyed_of_ordered inet ht hn
  obtain ⟨ws, hpr, hws⟩ := hk.exists_chain hv hd
  obtain ⟨hdec, hf⟩ := fromBinary_chain hp hb hvs hpr hws
  exact ⟨ws, hdec, hpr.symm, hf⟩

theorem not_decodesSets {b₁ b₂ : Bytes} {v₁ v₂ : Value} (h₁ : Encodes (env.comparing inet n) t b₁ v₁)
    (h₂ : Encodes (env.comparing inet n) t b₂ v₂) (hb₁ : b₁.length < 2 ^ 31) (hb₂ : b₂.length < 2 ^ 31)
    (hap : Apart inet v₁ v₂) : ¬ DecodesSets (env.comparing inet n) t := by
  intro hall
  have hi : takeCounted 3 (takeItems 3) (countedBytes [b₁, b₂]) = some [b₁, b₂] :=
    takeCounted_items (by simp) (by simpa using ⟨hb₁, hb₂⟩)
  have hv : ([b₁, b₂].mapM fun x => fromBinary (env.comparing inet n) t (some x) 3) = some [v₁, v₂] := by
    simp [h₁.decodes, h₂.decodes]
  obtain ⟨s, -, hp, hf⟩ := hall 3 le_rfl _ _ _ hi hv (by simp [h₁.isValue, h₂.isValue])
    (pairwise_pair.mpr hap.different)
  rcases below_of_found hap.different.1 hap.different.2 hp hf with hb | ha
  · exact hap.not_below n hb
  · exact hap.not_above n ha

/-- Sets of a type work exactly when it is ordered; others for chains. -/
theorem decoded_sets_iff (env : Env) (inet : InetText) {t : CqlType} (ht : t.Plain) (hdepth : 8 * t.listDepth + 72 < 2 ^ 31)
    {n : Nat} (hn : t.listDepth < n) :
    (DecodesSets (env.comparing inet n) t ↔ t.Ordered) ∧
      ∀ p ≥ 3, ∀ b bs vs ws, takeCounted p (takeItems p) b = some bs →
        (bs.mapM fun x => fromBinary (env.comparing inet n) t (some x) p) = some vs → vs.Perm ws →
        Chain (valueLt inet n) (valueEq inet) ws →
        fromBinary (env.comparing inet n) (.set t) (some b) p = some (.set ws) ∧
          ∀ v ∈ vs, SortedSet.contains (valueLt inet n) (valueEq inet) ws v = some true := by
  refine ⟨⟨fun hall => ?_, fun hord => decodesSets_of_ordered hord hn⟩, ?_⟩
  · by_contra hord
    obtain ⟨b₁, v₁, b₂, v₂, h₁, h₂, hb₁, hb₂, ha⟩ := exists_apart inet t ht hord hdepth
    exact not_decodesSets h₁ h₂ (by omega) (by omega) ha hall
  intro p hp b bs vs ws hb hvs hpr hws
  exact fromBinary_chain hp hb hvs hpr hws

/-! ## Examples -/

def byteText : InetText where
  text b := b.map fun x => Char.ofNat x.toNat
  injective a b _ _ h := by
    refine map_injective_iff.mpr (fun x y hxy => ?_) h
    have hvalid : ∀ k < 256, (Char.ofNat k).toNat = k := by decide +kernel
    have hnat := congrArg Char.toNat hxy
    rw [hvalid _ x.toNat_lt, hvalid _ y.toNat_lt] at hnat
    exact UInt8.toNat_inj.mp hnat

noncomputable def threeDeep : Env where
  lt := valueLt byteText 3
  eq := valueEq byteText
  supportEmptyValues _ := false
  littleEndian := true
  rounding := Rounding.down

theorem decoded_sets_of_lists :
    DecodesSets (threeDeep.comparing byteText 3) (.list (.scalar .int32)) ∧ (CqlType.list (.scalar .int32)).Ordered :=
  ⟨(decoded_sets_iff threeDeep byteText (t := .list (.scalar .int32)) trivial (by decide) (by decide)).1.mpr
    ⟨nofun, nofun⟩, nofun, nofun⟩

def intTuple : CqlType := .frozen (.tuple [.scalar .int32, .scalar .int32])

def nullTuples : List Bytes :=
  [[0, 0, 0, 4, 0, 0, 0, 1, 255, 255, 255, 255], [0, 0, 0, 4, 0, 0, 0, 1, 0, 0, 0, 4, 0, 0, 0, 2]]

theorem fromBinary_int (env : Env) {k : ℤ} (hb : unpackSigned 4 b = some k) {p : Nat} :
    fromBinary env (.scalar .int32) (some b) p = some (.int k) := by
  have hne : b ≠ [] := by
    rintro rfl
    cases hb
  rw [fromBinary_some env hne, deserializeWith, deserializeScalar, hb]
  rfl

theorem fromBinary_intTuple {env : Env} {f g : Option Bytes} {x y : Value} (hb : b ≠ [])
    (hfs : takeFields 2 b = some [f, g]) (hx : fromBinary env (.scalar .int32) f 4 = some x)
    (hy : fromBinary env (.scalar .int32) g 4 = some y) :
    fromBinary env intTuple (some b) 4 = some (.tuple [x, y]) := by
  have ht := fromBinary_tuple (p := 4) env hb (cons_ne_nil (.scalar .int32) [.scalar .int32]) hfs
  rw [intTuple, fromBinary_frozen env hb, ht]
  simp only [zip_cons_cons, mapM_cons, show innerProto 4 = 4 from rfl, hx, hy]
  rfl

theorem fromBinary_nullTuples (env : Env) : (nullTuples.mapM fun x => fromBinary env intTuple (some x) 4) =
      some [.tuple [.int 1, .none], .tuple [.int 1, .int 2]] := by
  have hone : unpackSigned 4 [0, 0, 0, 1] = some 1 := by decide +kernel
  have htwo : unpackSigned 4 [0, 0, 0, 2] = some 2 := by decide +kernel
  have hf := fromBinary_intTuple (by decide)
    (show takeFields 2 [0, 0, 0, 4, 0, 0, 0, 1, 255, 255, 255, 255] = some [some [0, 0, 0, 1], none] by decide +kernel)
    (fromBinary_int env hone) (fromBinary_none env _)
  have hsnd := fromBinary_intTuple (by decide)
    (show takeFields 2 [0, 0, 0, 4, 0, 0, 0, 1, 0, 0, 0, 4, 0, 0, 0, 2] = some [some [0, 0, 0, 1], some [0, 0, 0, 2]] by
      decide +kernel)
    (fromBinary_int env hone) (fromBinary_int env htwo)
  rw [nullTuples, mapM_cons, mapM_cons, hf, hsnd]
  rfl

theorem set_of_tuples_raises : takeCounted 4 (takeItems 4) (countedBytes nullTuples) = some nullTuples ∧
      (nullTuples.mapM fun x => fromBinary (threeDeep.comparing byteText 3) intTuple (some x) 4) =
        some [.tuple [.int 1, .none], .tuple [.int 1, .int 2]] ∧
      Different (valueEq byteText) (.tuple [.int 1, .none]) (.tuple [.int 1, .int 2]) ∧
      fromBinary (threeDeep.comparing byteText 3) (.set intTuple) (some (countedBytes nullTuples)) 4 = none := by
  have hi : takeCounted 4 (takeItems 4) (countedBytes nullTuples) = some nullTuples := by decide +kernel
  refine ⟨hi, fromBinary_nullTuples _, ⟨rfl, rfl⟩, ?_⟩
  rw [fromBinary_set _ hi, show innerProto 4 = 4 from rfl, fromBinary_nullTuples]
  rfl

end CqlDriver.Decoding
