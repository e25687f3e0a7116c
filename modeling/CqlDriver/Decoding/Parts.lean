import CqlDriver.Decoding.Cython
import CqlDriver.Lib.Traversal

/-!
# The parts of an encoding

An encoding is taken apart where every length is inside the buffer and none is negative, except that
of a missing field.
-/

namespace CqlDriver.Decoding

open Lib CqlDriver.Types List Option Cython Python

/-! ## Taking an encoding apart -/

def lengthValue (p : Nat) (l : Bytes) : ℤ := if p ≥ 3 then signedValue l else beDecode l

def takeItem (p : Nat) (rest : Bytes) : Option (Bytes × Bytes) :=
  let n := lengthValue p (rest.take (lengthWidth p))
  if lengthWidth p ≤ rest.length ∧ 0 ≤ n ∧ lengthWidth p + n ≤ rest.length then
    some ((rest.drop (lengthWidth p)).take n.toNat, rest.drop (lengthWidth p + n.toNat))
  else none

def takeItems (p : Nat) : Nat → Bytes → Option (List Bytes)
  | 0, _ => some []
  | n + 1, rest => do
    let (item, rest) ← takeItem p rest
    return item :: (← takeItems p n rest)

def takeEntries (p : Nat) : Nat → Bytes → Option (List (Bytes × Bytes))
  | 0, _ => some []
  | n + 1, rest => do
    let (key, rest) ← takeItem p rest
    let (val, rest) ← takeItem p rest
    return (key, val) :: (← takeEntries p n rest)

def takeCounted {β : Type} (p : Nat) (takeAll : Nat → Bytes → Option β) (b : Bytes) : Option β :=
  let n := lengthValue p (b.take (lengthWidth p))
  if lengthWidth p ≤ b.length ∧ 0 ≤ n then takeAll n.toNat (b.drop (lengthWidth p)) else none

/-- Bytes may follow, and fields may be missing. -/
def takeFields : Nat → Bytes → Option (List (Option Bytes))
  | 0, _ => some []
  | n + 1, rest =>
    let len := signedValue (rest.take 4)
    if rest = [] then some (List.replicate (n + 1) none)
    else if rest.length < 4 then none
    else if len < 0 then (takeFields n (rest.drop 4)).map (none :: ·)
    else if rest.length < 4 + len then none
    else (takeFields n (rest.drop (4 + len.toNat))).map (some ((rest.drop 4).take len.toNat) :: ·)

/-- The components of a composite, each with one byte at its end. -/
def takeComponents : Nat → Bytes → Option (List Bytes)
  | 0, rest => if rest = [] then some [] else none
  | n + 1, rest =>
    let len := beDecode (rest.take 2)
    if rest = [] then some []
    else if rest.length < 2 + len + 1 then none
    else (takeComponents n (rest.drop (2 + len + 1))).map ((rest.drop 2).take len :: ·)

/-! ## Positions -/

theorem slice_eq_take {b : Bytes} {pos n : Nat} (h : pos + n ≤ b.length) : slice b pos (pos + n) = (b.drop pos).take n := by
  have hpos : slicePlace b.length pos = pos := by
    rw [slicePlace, if_neg (by omega)]
    omega
  have hend : slicePlace b.length (pos + n) = pos + n := by
    rw [slicePlace, if_neg (by omega)]
    omega
  rw [slice, hpos, hend, Nat.add_sub_cancel_left]

theorem sliceBuffer_eq {b : Bytes} {pos n : Nat} (h : pos + n ≤ b.length) :
    sliceBuffer b pos n = some ((b.drop pos).take n) := by
  unfold sliceBuffer
  rw [if_neg (by omega), if_neg (by omega), if_neg (by omega), Int.toNat_natCast, Int.toNat_natCast]

theorem int32_eq {n : ℤ} (h : 0 ≤ n ∧ n < 2 ^ 31) : int32 n = n := by
  exact Int.bmod_eq_of_le (by norm_num; omega) (by norm_num; omega)

variable {n w p pos : Nat} {b item rest : Bytes} {β : Type} {takeAll : Nat → Bytes → Option β} {xs : β}

theorem int32_natCast (h : n < 2 ^ 31) : int32 n = n :=
  int32_eq ⟨Int.natCast_nonneg n, by exact_mod_cast h⟩

theorem int16_eq {n : ℤ} (h : 0 ≤ n ∧ n < 2 ^ 15) : int16 n = n := by
  exact Int.bmod_eq_of_le (by norm_num; omega) (by norm_num; omega)

theorem nativeBytes_copyNum {env : Env} (src : Bytes) : nativeBytes env (copyNum env src) = src := by
  unfold nativeBytes copyNum
  split
  · exact reverse_reverse src
  · rfl

theorem unpackInt_eq (env : Env) (h : w ≤ b.length) : unpackInt env w b = signedValue (b.take w) := by
  rw [unpackInt, if_neg (by omega), nativeBytes_copyNum]

theorem unpackUint_eq (env : Env) (h : w ≤ b.length) : unpackUint env w b = beDecode (b.take w) := by
  rw [unpackUint, if_neg (by omega), nativeBytes_copyNum]

theorem unpackLength_take (h : lengthWidth p ≤ b.length) :
    unpackLength p (b.take (lengthWidth p)) = some (lengthValue p (b.take (lengthWidth p))) := by
  unfold unpackLength lengthValue
  have hlen : (b.take (lengthWidth p)).length = lengthWidth p := by
    rw [length_take]
    omega
  split
  · rename_i hp
    rw [unpackSigned, if_pos (hlen.trans (by rw [lengthWidth, if_pos hp]))]
  rename_i hp
  rw [unpackUnsigned, if_pos (hlen.trans (by rw [lengthWidth, if_neg hp]))]

theorem unpackLen_eq (env : Env) {p : Nat} {b : Bytes} {pos : Nat} (h : pos + lengthWidth p ≤ b.length) :
    unpackLen env p b pos = some (lengthValue p ((b.drop pos).take (lengthWidth p))) := by
  unfold unpackLen lengthValue
  rw [sliceBuffer_eq h]
  have hlen : ((b.drop pos).take (lengthWidth p)).length = lengthWidth p := by
    rw [length_take, length_drop]
    omega
  simp only [bind_eq_bind, bind_some, Option.pure_def]
  split
  · rename_i hp
    have hw : lengthWidth p = 4 := if_pos hp
    rw [unpackInt_eq env (by omega), take_of_length_le (by omega)]
  rename_i hp
  have hw : lengthWidth p = 2 := if_neg hp
  rw [unpackUint_eq env (by omega), take_of_length_le (by omega)]

theorem takeItem_eq_some (hpos : pos ≤ b.length) (h : takeItem p (b.drop pos) = some (item, rest)) :
    ∃ len : Nat, lengthValue p ((b.drop pos).take (lengthWidth p)) = len ∧ pos + lengthWidth p + len ≤ b.length ∧
      item = (b.drop (pos + lengthWidth p)).take len ∧ rest = b.drop (pos + lengthWidth p + len) := by
  unfold takeItem at h
  dsimp only at h
  split at h
  · rename_i hin
    obtain ⟨hw, hn, hend⟩ := hin
    obtain ⟨len, hlen⟩ := Int.eq_ofNat_of_zero_le hn
    rw [length_drop] at hend
    rw [hlen, drop_drop, drop_drop, ← Nat.add_assoc] at h
    cases h
    exact ⟨len, hlen, by omega, rfl, rfl⟩
  · cases h

theorem readItem_of_takeItem (hpos : pos ≤ b.length) (h : takeItem p (b.drop pos) = some (item, rest)) :
    ∃ next : Nat, next ≤ b.length ∧ rest = b.drop next ∧ readItem p b pos = some (item, (next : ℤ)) := by
  obtain ⟨len, hlen, hend, rfl, rfl⟩ := takeItem_eq_some hpos h
  refine ⟨_, hend, rfl, ?_⟩
  have hi := slice_eq_take hend
  push_cast at hi
  unfold readItem
  rw [slice_eq_take (by omega), unpackLength_take (by rw [length_drop]; omega), hlen]
  simp only [bind_eq_bind, bind_some, hi]
  rfl

theorem subelem_eq {env : Env} {buf elemBuf : Bytes} {off elemlen : ℤ} (hlen : unpackLen env p buf off = some elemlen)
    (he : sliceBuffer buf (int32 (off + lengthWidth p)) elemlen = some elemBuf) : subelem env p buf off =
      some (elemBuf, int32 (int32 (off + lengthWidth p) + elemlen)) := by
  unfold subelem
  simp [hlen, he]

theorem subelem_of_takeItem (env : Env) (hs : b.length < 2 ^ 31) (hpos : pos ≤ b.length)
    (h : takeItem p (b.drop pos) = some (item, rest)) :
    ∃ next : Nat, next ≤ b.length ∧ rest = b.drop next ∧ subelem env p b pos = some (item, (next : ℤ)) := by
  obtain ⟨len, hlen, hend, rfl, rfl⟩ := takeItem_eq_some hpos h
  refine ⟨_, hend, rfl, ?_⟩
  have hst : pos + lengthWidth p ≤ b.length := by omega
  have ho : int32 (pos + lengthWidth p) = (pos + lengthWidth p : Nat) := by
    exact int32_natCast (hst.trans_lt hs)
  have hn : int32 ((pos + lengthWidth p : Nat) + len) = (pos + lengthWidth p + len : Nat) := by
    exact int32_natCast (hend.trans_lt hs)
  have hr := unpackLen_eq env hst
  rw [hlen] at hr
  have he := sliceBuffer_eq hend
  rw [← ho] at he
  rw [subelem_eq hr he, ho, hn]

theorem takeCounted_eq_some (h : takeCounted p takeAll b = some xs) :
    ∃ n : Nat, lengthValue p (b.take (lengthWidth p)) = n ∧ lengthWidth p ≤ b.length ∧
      takeAll n (b.drop (lengthWidth p)) = some xs := by
  unfold takeCounted at h
  dsimp only at h
  split_ifs at h with hin
  obtain ⟨n, hn⟩ := Int.eq_ofNat_of_zero_le hin.2
  rw [hn] at h
  exact ⟨n, hn, hin.1, h⟩

theorem ne_nil_of_takeCounted (h : takeCounted p takeAll b = some xs) : b ≠ [] := by
  obtain ⟨-, -, hw, -⟩ := takeCounted_eq_some h
  rintro rfl
  unfold lengthWidth at hw
  split at hw <;> cases hw

/-! ## The loops -/

theorem takeItems_succ {xs : List Bytes} (h : takeItems p (n + 1) rest = some xs) :
    ∃ x rest' xs', takeItem p rest = some (x, rest') ∧ takeItems p n rest' = some xs' ∧ xs = x :: xs' := by
  simp only [takeItems, bind_eq_bind, bind_eq_some_iff, Option.pure_def, some.injEq] at h
  obtain ⟨⟨x, rest'⟩, hi, xs', hr, rfl⟩ := h
  exact ⟨x, rest', xs', hi, hr, rfl⟩

theorem python_readItems (sub : Decoder) (n : Nat) : ∀ {pos : Nat} {xs : List Bytes},
    pos ≤ b.length → takeItems p n (b.drop pos) = some xs →
      readItems p sub b n pos = xs.mapM fun x => sub (some x) (innerProto p) := by
  induction n with
  | zero =>
    intro pos xs _ h
    cases h
    rfl
  | succ n ih =>
    intro pos xs hpos h
    obtain ⟨x, rest, xs, hi, hrs, rfl⟩ := takeItems_succ h
    obtain ⟨next, hn, rfl, hr⟩ := readItem_of_takeItem hpos hi
    simp [Python.readItems, hr, ih hn hrs]

theorem cython_readItems (env : Env) (des : BufDecoder) (hs : b.length < 2 ^ 31) (n : Nat) :
    ∀ {pos : Nat} {xs : List Bytes}, pos ≤ b.length → takeItems p n (b.drop pos) = some xs →
      readItems env p des b n pos = xs.mapM fun x => (des x (innerProto p)).map Prod.fst := by
  induction n with
  | zero =>
    intro pos xs _ h
    cases h
    rfl
  | succ n ih =>
    intro pos xs hpos h
    obtain ⟨x, rest, xs, hi, hrs, rfl⟩ := takeItems_succ h
    obtain ⟨next, hn, rfl, hr⟩ := subelem_of_takeItem env hs hpos hi
    simp only [Cython.readItems, hr, bind_eq_bind, bind_some, ih hn hrs, mapM_cons]
    cases des x (innerProto p) <;> rfl

def Entries.insertAll (m : Entries) (l : List (Value × Bytes × Value)) : Entries :=
  l.foldl (fun m e => m.insertUnchecked e.1 e.2.1 e.2.2) m

theorem takeEntries_succ {es : List (Bytes × Bytes)} (h : takeEntries p (n + 1) rest = some es) :
    ∃ key val rest₁ rest₂ es', takeItem p rest = some (key, rest₁) ∧ takeItem p rest₁ = some (val, rest₂) ∧
      takeEntries p n rest₂ = some es' ∧ es = (key, val) :: es' := by
  simp only [takeEntries, bind_eq_bind, bind_eq_some_iff, Option.pure_def, some.injEq] at h
  obtain ⟨⟨key, rest₁⟩, hkey, ⟨val, rest₂⟩, hval, es', hr, rfl⟩ := h
  exact ⟨key, val, rest₁, rest₂, es', hkey, hval, hr, rfl⟩

def Python.entry (p : Nat) (keyType valueType : Decoder) (e : Bytes × Bytes) : Option (Value × Bytes × Value) :=
  (keyType (some e.1) (innerProto p)).bind fun key =>
    (valueType (some e.2) (innerProto p)).map fun val => (key, e.1, val)

def Cython.entry (p : Nat) (keyDeserializer valDeserializer : BufDecoder) (e : Bytes × Bytes) :
    Option (Value × Bytes × Value) :=
  (keyDeserializer e.1 (innerProto p)).bind fun key =>
    (valDeserializer e.2 (innerProto p)).map fun val => (key.1, key.2, val.1)

theorem python_readEntries (kt vt : Decoder) (n : Nat) :
    ∀ {pos : Nat} {es : List (Bytes × Bytes)} (m : Entries), pos ≤ b.length → takeEntries p n (b.drop pos) = some es →
      readEntries p kt vt b n pos m = (es.mapM (entry p kt vt)).map m.insertAll := by
  induction n with
  | zero =>
    intro pos es m _ h
    cases h
    rfl
  | succ n ih =>
    intro pos es m hpos h
    obtain ⟨key, val, rest₁, rest₂, es, hkey, hval, hr, rfl⟩ := takeEntries_succ h
    obtain ⟨next₁, hn₁, rfl, hr₁⟩ := readItem_of_takeItem hpos hkey
    obtain ⟨next₂, hn₂, rfl, hr₂⟩ := readItem_of_takeItem hn₁ hval
    simp only [Python.readEntries, hr₁, hr₂, bind_eq_bind, bind_some, ih _ hn₂ hr, mapM_cons, Python.entry]
    cases kt (some key) (innerProto p) with
    | none => rfl
    | some k =>
      cases vt (some val) (innerProto p) with
      | none => rfl
      | some v => cases es.mapM (Python.entry p kt vt) <;> rfl

theorem cython_readEntries (env : Env) (kd vd : BufDecoder) (hs : b.length < 2 ^ 31) (n : Nat) :
    ∀ {pos : Nat} {es : List (Bytes × Bytes)} (m : Entries), pos ≤ b.length → takeEntries p n (b.drop pos) = some es →
      readEntries env p kd vd b n pos m = (es.mapM (entry p kd vd)).map m.insertAll := by
  induction n with
  | zero =>
    intro pos es m _ h
    cases h
    rfl
  | succ n ih =>
    intro pos es m hpos h
    obtain ⟨key, val, rest₁, rest₂, es, hkey, hval, hr, rfl⟩ := takeEntries_succ h
    obtain ⟨next₁, hn₁, rfl, hr₁⟩ := subelem_of_takeItem env hs hpos hkey
    obtain ⟨next₂, hn₂, rfl, hr₂⟩ := subelem_of_takeItem env hs hn₁ hval
    simp only [Cython.readEntries, hr₁, hr₂, bind_eq_bind, bind_some, ih _ hn₂ hr, mapM_cons, Cython.entry]
    cases kd key (innerProto p) with
    | none => rfl
    | some k =>
      cases vd val (innerProto p) with
      | none => rfl
      | some v => cases es.mapM (Cython.entry p kd vd) <;> rfl

theorem length_takeFields (n : Nat) : ∀ {rest : Bytes} {fs : List (Option Bytes)},
    takeFields n rest = some fs → fs.length = n := by
  induction n with
  | zero =>
    intro rest fs h
    cases h
    rfl
  | succ n ih =>
    intro rest fs h
    simp only [takeFields] at h
    split_ifs at h
    · cases h
      exact length_replicate
    · obtain ⟨fs', hr, rfl⟩ := map_eq_some_iff.mp h
      exact congrArg (· + 1) (ih hr)
    obtain ⟨fs', hr, rfl⟩ := map_eq_some_iff.mp h
    exact congrArg (· + 1) (ih hr)

def padded (n : Nat) (values : List Value) : List Value := values ++ List.replicate (n - values.length) .none

theorem padded_cons {n : Nat} (v : Value) (values : List Value) : padded (n + 1) (v :: values) = v :: padded n values := by
  unfold padded
  rw [length_cons, Nat.add_sub_add_right]
  rfl

theorem map_padded_cons {n : Nat} (v : Option Value) (values : Option (List Value)) :
    (v.bind fun v => values.bind fun vs => some (v :: vs)).map (padded (n + 1)) =
      v.bind fun v => (values.map (padded n)).bind fun vs => some (v :: vs) := by
  cases v with
  | none => rfl
  | some v =>
    cases values with
    | none => rfl
    | some values => exact congrArg some (padded_cons v values)

def Python.field (p : Nat) (f : Decoder × Option Bytes) : Option Value := f.1 f.2 (innerProto p)

theorem mapM_field_none (n : Nat) {subs : List Decoder} (hn : subs.length = n)
    (hnl : ∀ d ∈ subs, ∀ p, d none p = some .none) :
    (subs.zip (List.replicate n none)).mapM (field p) = some (List.replicate n .none) := by
  subst hn
  induction subs with
  | nil => rfl
  | cons d subs ih =>
    rw [forall_mem_cons] at hnl
    have hd : field p (d, none) = some .none := hnl.1 _
    rw [length_cons, replicate_succ, zip_cons_cons, mapM_cons, hd, ih hnl.2]
    rfl

theorem takeFields_succ {fs : List (Option Bytes)} (hlt : pos < b.length)
    (h : takeFields (n + 1) (b.drop pos) = some fs) : pos + 4 ≤ b.length ∧ ∃ fs',
      (signedValue ((b.drop pos).take 4) < 0 ∧ takeFields n (b.drop (pos + 4)) = some fs' ∧ fs = none :: fs' ∨
        ∃ len : Nat, signedValue ((b.drop pos).take 4) = len ∧ pos + 4 + len ≤ b.length ∧
          takeFields n (b.drop (pos + 4 + len)) = some fs' ∧ fs = some ((b.drop (pos + 4)).take len) :: fs') := by
  have hne : b.drop pos ≠ [] := by
    rw [ne_eq, drop_eq_nil_iff]
    omega
  rw [takeFields] at h
  rw [if_neg hne, length_drop] at h
  split_ifs at h with hs hneg hl
  · obtain ⟨fs', hr, rfl⟩ := map_eq_some_iff.mp h
    rw [drop_drop] at hr
    exact ⟨by omega, fs', .inl ⟨hneg, hr, rfl⟩⟩
  obtain ⟨len, hlen⟩ := Int.eq_ofNat_of_zero_le (not_lt.mp hneg)
  rw [hlen] at h
  obtain ⟨fs', hr, rfl⟩ := map_eq_some_iff.mp h
  rw [drop_drop, ← Nat.add_assoc] at hr
  refine ⟨by omega, fs', .inr ⟨len, hlen, by omega, hr, ?_⟩⟩
  rw [drop_drop, Int.toNat_natCast]

theorem unpackSigned_take (h : w ≤ b.length) : unpackSigned w (b.take w) = some (signedValue (b.take w)) := by
  rw [unpackSigned, if_pos (by rw [length_take]; omega)]

theorem python_readFields {p : Nat} {b : Bytes} (subs : List Decoder) (hnl : ∀ d ∈ subs, ∀ p, d none p = some .none) :
    ∀ {pos : Nat} {fs : List (Option Bytes)}, pos ≤ b.length → takeFields subs.length (b.drop pos) = some fs →
      (readFields b p subs pos).map (padded subs.length) = (subs.zip fs).mapM (field p) := by
  induction subs with
  | nil => exact fun _ _ => rfl
  | cons sub rest ih =>
    intro pos fs hpos h
    rw [Python.readFields]
    rcases hpos.eq_or_lt with hend | hlt
    · rw [length_cons, takeFields, if_pos (drop_eq_nil_iff.mpr hend.ge)] at h
      obtain rfl := Option.some.inj h
      rw [if_pos (by exact_mod_cast hend), mapM_field_none (rest.length + 1) rfl hnl]
      rfl
    rw [forall_mem_cons] at hnl
    obtain ⟨hw, fs', hf⟩ := takeFields_succ hlt h
    have hlen : unpackSigned 4 (slice b pos (pos + 4)) = some (signedValue ((b.drop pos).take 4)) := by
      have hs := slice_eq_take hw
      push_cast at hs
      rw [hs, unpackSigned_take (by rw [length_drop]; omega)]
    rw [if_neg (by omega), hlen]
    simp only [Option.bind_eq_bind, Option.bind_some, Option.pure_def]
    rcases hf with ⟨hneg, hr, rfl⟩ | ⟨len, hv, hst, hr, rfl⟩
    · have hn := ih hnl.2 (by omega) hr
      push_cast at hn
      rw [if_neg (not_le.mpr hneg), if_neg (not_le.mpr hneg), length_cons, map_padded_cons, hn,
        zip_cons_cons, mapM_cons]
      rfl
    have hn := ih hnl.2 hst hr
    have hi := slice_eq_take hst
    push_cast at hn hi
    rw [hv, if_pos (Int.natCast_nonneg len), if_pos (Int.natCast_nonneg len), length_cons, map_padded_cons,
      hi, hn, zip_cons_cons, mapM_cons]
    rfl

def Cython.field (p : Nat) (f : BufDecoder × Option Bytes) : Option Value :=
  match f.2 with
  | none => some .none
  | some x => (f.1 x (innerProto p)).map Prod.fst

theorem takeFields_nil (n : Nat) : takeFields n [] = some (replicate n none) := by
  cases n with
  | zero => rfl
  | succ n => rw [takeFields, if_pos rfl]

theorem cython_readFields (env : Env) {p : Nat} {b : Bytes} (ds : List BufDecoder) :
    ∀ {pos : Nat} {fs : List (Option Bytes)}, pos ≤ b.length → takeFields ds.length (b.drop pos) = some fs →
      Cython.readFields env b p ds pos = (ds.zip fs).mapM (Cython.field p) := by
  induction ds with
  | nil => exact fun _ _ => rfl
  | cons des rest ih =>
    intro pos fs hpos h
    rw [Cython.readFields]
    rcases hpos.eq_or_lt with hend | hlt
    · have hnil : b.drop pos = [] := drop_eq_nil_iff.mpr hend.ge
      rw [hnil, takeFields_nil] at h
      cases h
      have hn := @ih pos _ hpos (by rw [hnil, takeFields_nil])
      rw [if_neg (by omega), hn, length_cons, replicate_succ, zip_cons_cons, mapM_cons]
      rfl
    obtain ⟨hw, fs', hf⟩ := takeFields_succ hlt h
    have hs := sliceBuffer_eq hw
    push_cast at hs
    have hlen : unpackInt env 4 ((b.drop pos).take 4) = signedValue ((b.drop pos).take 4) := by
      rw [unpackInt_eq env (by rw [length_take, length_drop]; omega), take_take, min_self]
    rw [if_pos (by omega), hs]
    simp only [bind_eq_bind, bind_some, hlen]
    rcases hf with ⟨hneg, hr, rfl⟩ | ⟨len, hv, hst, hr, rfl⟩
    · have hn := ih (by omega) hr
      push_cast at hn
      rw [if_neg (not_le.mpr hneg), hn, zip_cons_cons, mapM_cons]
      rfl
    have hn := ih hst hr
    have hi := sliceBuffer_eq hst
    push_cast at hn hi
    rw [hv, hi, hn, zip_cons_cons]
    cases hv : des ((b.drop (pos + 4)).take len) (innerProto p) with
    | none | some r => simp [Cython.field, hv]

/-! ## Components -/

def Python.component (p : Nat) (c : Decoder × Bytes) : Option Value := c.1 (some c.2) p

def Cython.component (p : Nat) (c : BufDecoder × Bytes) : Option Value := (c.1 c.2 p).map Prod.fst

theorem takeComponents_succ {cs : List Bytes} (hne : b ≠ []) (h : takeComponents (n + 1) b = some cs) :
    ∃ cs', 2 + beDecode (b.take 2) + 1 ≤ b.length ∧ takeComponents n (b.drop (2 + beDecode (b.take 2) + 1)) = some cs' ∧
      cs = (b.drop 2).take (beDecode (b.take 2)) :: cs' := by
  rw [takeComponents, if_neg hne] at h
  split_ifs at h with hs
  obtain ⟨cs', hr, rfl⟩ := map_eq_some_iff.mp h
  exact ⟨cs', by omega, hr, rfl⟩

theorem python_readComponents {p : Nat} (subs : List Decoder) : ∀ {b : Bytes} {cs : List Bytes},
    takeComponents subs.length b = some cs →
      Python.readComponents p subs b = (subs.zip cs).mapM (Python.component p) := by
  induction subs with
  | nil => exact fun _ => rfl
  | cons sub rest ih =>
    intro b cs h
    rw [Python.readComponents]
    by_cases hnil : b = []
    · rw [length_cons, takeComponents, if_pos hnil] at h
      cases h
      rw [if_pos hnil]
      rfl
    obtain ⟨cs', hin, hr, rfl⟩ := takeComponents_succ hnil h
    have hlen : unpackUnsigned 2 (b.take 2) = some (beDecode (b.take 2) : ℤ) := by
      rw [unpackUnsigned, if_pos (by rw [length_take]; omega)]
    have hi := @slice_eq_take b 2 (beDecode (b.take 2)) (by omega)
    have hd : ((2 : ℤ) + beDecode (b.take 2) + 1).toNat = 2 + beDecode (b.take 2) + 1 := by omega
    push_cast at hi
    rw [if_neg hnil, hlen]
    simp only [bind_eq_bind, bind_some, hi, hd, ih hr]
    rw [zip_cons_cons, mapM_cons]
    rfl

theorem int16_neg {n : ℤ} (h : 2 ^ 15 ≤ n ∧ n < 2 ^ 16) : int16 n < 0 := by
  unfold int16
  rw [Int.bmod_def]
  omega

theorem cython_readComponents (env : Env) (ds : List BufDecoder) :
    ∀ {b : Bytes} {cs : List Bytes}, takeComponents ds.length b = some cs → readComponents env p ds b =
        if ∀ c ∈ cs, c.length < 2 ^ 15 then ((ds.zip cs).mapM (Cython.component p)).map (·, []) else none := by
  induction ds with
  | nil =>
    intro b cs h
    rw [length_nil, takeComponents] at h
    split_ifs at h with hnil
    cases h
    rw [hnil]
    rfl
  | cons des rest ih =>
    intro b cs h
    rw [Cython.readComponents]
    by_cases hnil : b = []
    · rw [length_cons, takeComponents, if_pos hnil] at h
      cases h
      rw [if_pos hnil, hnil]
      rfl
    obtain ⟨cs', hin, hr, rfl⟩ := takeComponents_succ hnil h
    have hv : unpackUint env 2 b = (beDecode (b.take 2) : ℤ) := unpackUint_eq env (by omega)
    have hlt : beDecode (b.take 2) < 256 ^ 2 := by
      refine (beDecode_lt _).trans_le (Nat.pow_le_pow_right (by norm_num) ?_)
      rw [length_take]
      omega
    rw [if_neg hnil, hv]
    generalize beDecode (b.take 2) = n at *
    have hlen : ((b.drop 2).take n).length = n := by
      rw [length_take, length_drop]
      omega
    simp only [forall_mem_cons, hlen]
    by_cases hsm : n < 2 ^ 15
    · have hint : int16 n = n := int16_eq ⟨Int.natCast_nonneg n, by exact_mod_cast hsm⟩
      have hi := @sliceBuffer_eq b 2 n (by omega)
      have hn : sliceBuffer b (2 + n + 1) (b.length - (2 + n + 1)) = some (b.drop (2 + n + 1)) := by
        have hs := @sliceBuffer_eq b (2 + n + 1) (b.length - (2 + n + 1)) (by omega)
        rw [Nat.cast_sub hin, take_of_length_le (by rw [length_drop])] at hs
        exact hs
      push_cast at hi
      rw [hint, hi, bind_eq_bind, hn, zip_cons_cons, mapM_cons]
      simp only [hsm, true_and, bind_some, ih hr]
      have hc : component p (des, (b.drop 2).take n) = (des ((b.drop 2).take n) p).map Prod.fst := rfl
      rw [hc]
      cases des ((b.drop 2).take n) p with
      | none => exact (ite_self none).symm
      | some r =>
        split
        · cases (rest.zip cs').mapM (Cython.component p) <;> rfl
        · rfl
    have hneg : int16 n < 0 := int16_neg ⟨by exact_mod_cast not_lt.mp hsm, by exact_mod_cast hlt⟩
    rw [if_neg (fun hall => hsm hall.1)]
    unfold sliceBuffer
    rw [if_pos hneg]
    rfl

end CqlDriver.Decoding
