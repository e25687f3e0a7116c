import CqlDriver.Decoding.Assembly

/-! # Scalars -/

namespace CqlDriver.Decoding

open Lib CqlDriver.Types Reading Option Cython

variable (env : Env) {p : Nat} {b : Bytes}

variable {n : ℤ} {w : Nat} {v : Value} {t : CqlType}

theorem unpackInt_of_unpackSigned (h : unpackSigned w b = some n) : unpackInt env w b = n := by
  unfold unpackSigned at h
  split_ifs at h with hlen
  cases h
  rw [unpackInt_eq env hlen.ge, List.take_of_length_le hlen.le]

theorem unpackUint_of_unpackUnsigned (h : unpackUnsigned w b = some n) : unpackUint env w b = n := by
  unfold unpackUnsigned at h
  split_ifs at h with hlen
  cases h
  rw [unpackUint_eq env hlen.ge, List.take_of_length_le hlen.le]

theorem int32_neg (hlo : -2 ^ 31 < n) (hhi : n < 2 ^ 31) : int32 (-n) = -n := by
  exact Int.bmod_eq_of_le (by norm_num; omega) (by norm_num; omega)

theorem cython_decimal (h : Python.deserializeScalar env .decimal b = some v) (hs : signedValue (b.take 4) ≠ -2 ^ 31) :
    deserializeWith env .decimal (.scalar .decimal) [] b p = some (v, b) := by
  simp only [Python.deserializeScalar, bind_eq_bind, bind_eq_some_iff, pure_def, some.injEq] at h
  obtain ⟨scale, hunp, unscaled, hv, rfl⟩ := h
  have hlen : (b.take 4).length = 4 := by
    unfold unpackSigned at hunp
    split_ifs at hunp with hlen
    exact hlen
  have hf : 4 ≤ b.length := by
    rw [List.length_take] at hlen
    omega
  rw [unpackSigned_take hf] at hunp
  cases hunp
  obtain ⟨hlo, hhi⟩ := signedValue_bounds _
  rw [hlen] at hlo hhi
  have hsl := @sliceBuffer_eq b 4 (b.length - 4) (by omega)
  rw [List.take_of_length_le (by rw [List.length_drop]), Nat.cast_sub hf] at hsl
  push_cast at hsl
  simp only [deserializeWith, bind_eq_bind, pure_def, hsl, bind_some, hv, unpackInt_eq env hf]
  rw [int32_neg (by omega) (by omega)]

theorem cython_scalar (s : Scalar) (h : Python.deserializeScalar env s b = some v)
    (hs : s = .decimal → signedValue (b.take 4) ≠ -2 ^ 31) :
    deserializeWith env s.ownClass (.scalar s) [] b p = some (v, b) := by
  cases s with
  | decimal => exact cython_decimal env h (hs rfl)
  | bytes => exact congrArg (fun v => some (v, b)) (some.inj h)
  | timestamp | timeUUID => exact congrArg (Option.map fun v => (v, b)) h
  | uuid | ascii | inetAddress =>
    simp only [Python.deserializeScalar, ite_none_right_eq_some, some.injEq] at h
    obtain ⟨hc, rfl⟩ := h
    simp only [Scalar.ownClass, deserializeWith]
    rw [if_pos hc]
  | boolean | byte | short | int32 | long | counterColumn =>
    obtain ⟨n, hn, rfl⟩ := map_eq_some_iff.mp h
    simp only [Scalar.ownClass, deserializeWith, unpackInt_of_unpackSigned env hn]
  | float | double | simpleDate =>
    obtain ⟨n, hn, rfl⟩ := map_eq_some_iff.mp h
    simp only [Scalar.ownClass, deserializeWith, unpackUint_of_unpackUnsigned env hn]
  | integer | utf8 | varchar =>
    obtain ⟨n, hn, rfl⟩ := map_eq_some_iff.mp h
    simp only [Scalar.ownClass, deserializeWith, hn, map_some]
  | time =>
    simp only [Python.deserializeScalar, bind_eq_bind, bind_eq_some_iff] at h
    obtain ⟨n, hn, hv⟩ := h
    simp only [Scalar.ownClass, deserializeWith, unpackInt_of_unpackSigned env hn]
    split_ifs at hv with hday
    cases hv
    rw [if_neg hday]
  | date =>
    simp only [Python.deserializeScalar, bind_eq_bind, bind_eq_some_iff, pure_def, some.injEq] at h
    obtain ⟨n, hn, d, hd, rfl⟩ := h
    simp only [deserializeWith, unpackInt_of_unpackSigned env hn]
    rw [datetimeFromTimestamp_eq env.rounding (abs_le_of_datetime env.rounding (isSome_iff_exists.mpr ⟨d, hd⟩)), hd]
    rfl

theorem findDeserializer_type {d : Deserializer} (h : findDeserializer t = some d) :
    ∃ ds, d = .mk (findClass t) t ds := by
  cases hcls : (findClass t).isParameterized with
  | false =>
    rw [findDeserializer_scalar hcls, some.injEq] at h
    exact ⟨[], h.symm⟩
  | true =>
    obtain ⟨ds, -, -, rfl⟩ := (findDeserializer_parameterized hcls).mp h
    exact ⟨ds, rfl⟩

theorem cython_nil (hcon : Constructible t) (he : t.emptyBinaryOk = false) :
    cython env ⟨t, p, []⟩ = some (if env.supportEmptyValues t then .empty else .none, []) := by
  obtain ⟨d, hd⟩ := isSome_iff_exists.mp ((findDeserializer_isSome t).mpr hcon)
  obtain ⟨ds, rfl⟩ := findDeserializer_type hd
  unfold cython
  rw [hd, bind_some, Cython.fromBuffer, Cython.fromBinaryWith, if_pos ⟨rfl, he⟩]

theorem isParameterized_scalar (s : Scalar) : s.ownClass.isParameterized = false := by
  cases s <;> rfl

theorem cython_scalar_eq (s : Scalar) (hb : ¬ (b = [] ∧ (CqlType.scalar s).emptyBinaryOk = false)) :
    cython env ⟨.scalar s, p, b⟩ = Cython.deserializeWith env s.ownClass (.scalar s) [] b p := by
  have hcls : Cython.findClass (.scalar s) = s.ownClass := findClass_eq _ fun u ts h => nomatch h
  have hf := @findDeserializer_scalar _ (hcls ▸ isParameterized_scalar s)
  unfold cython
  rw [hf, bind_some, Cython.fromBuffer, Cython.fromBuffers, Cython.fromBinaryWith, if_neg hb, hcls]

theorem emptyBinaryOk_scalar (h : t.emptyBinaryOk) : ∃ s, t = .scalar s := by
  cases t with
  | scalar s => exact ⟨s, rfl⟩
  | list t | set t | map k v | tuple ts | user u ts | composite ts | reversed t | frozen t => cases h

theorem cython_leaf {r : Reading} (hl : r.IsLeaf) (hcon : Constructible r.type) (hv : r.python env = some v)
    (hs : r.type = .scalar .decimal → r.bytes ≠ [] → signedValue (r.bytes.take 4) ≠ -2 ^ 31) :
    r.cython env = some (v, r.bytes) := by
  obtain ⟨t, p, b⟩ := r
  unfold python at hv
  by_cases hnil : b = [] ∧ t.emptyBinaryOk = false
  · obtain ⟨rfl, he⟩ := hnil
    rw [Python.fromBinary_nil env he, some.injEq] at hv
    rw [cython_nil env hcon he, hv]
  obtain ⟨s, rfl⟩ : ∃ s, t = .scalar s := by
    rcases hl with hb | hsc
    · exact emptyBinaryOk_scalar (by simpa using fun h => hnil ⟨hb, h⟩)
    · exact hsc
  rw [Python.fromBinary_eq, Python.fromBinaryWith, if_neg hnil] at hv
  rw [cython_scalar_eq env s hnil]
  refine cython_scalar env s hv ?_
  rintro rfl
  exact hs rfl fun hb => hnil ⟨hb, rfl⟩

end CqlDriver.Decoding
