import CqlDriver.Statements.Bound

/-! # What is bound and where it is routed -/

namespace CqlDriver.Statements

open Lib List

variable {α : Type}

namespace PreparedStatement

variable (prepared : PreparedStatement α)

def bindAt (i : Nat) : Arg α → Column α → Option BoundValue
  | .none, _ => some .none
  | .unset, _ => if 4 ≤ prepared.protocolVersion ∧ i ∉ prepared.routingKeyIndexes then some .unset else none
  | .value a, col =>
    match col.serialize a prepared.protocolVersion with
    | .ok b => some (.bytes b)
    | .error _ => none

theorem appendUnsetValue_ok {values vs : List BoundValue} :
    prepared.appendUnsetValue values = .ok vs ↔ values.length ∉ prepared.routingKeyIndexes ∧ vs = values ++ [.unset] := by
  unfold appendUnsetValue isRoutingKeyIndex
  by_cases h : values.length ∈ prepared.routingKeyIndexes
  · cases prepared.columnMetadata[values.length]? <;> simp [h]
  · simp [h, eq_comm]

variable {col : Column α}

theorem bindValue_ok (values : List BoundValue) {vs : List BoundValue} (arg : Arg α) :
    prepared.bindValue values (arg, col) = .ok vs ↔
      ∃ v, prepared.bindAt values.length arg col = some v ∧ vs = values ++ [v] := by
  cases arg with
  | none => simp [bindValue, bindAt, eq_comm]
  | unset =>
    rw [bindValue, bindAt]
    by_cases hver : 4 ≤ prepared.protocolVersion
    · rw [if_pos hver, appendUnsetValue_ok]
      by_cases hrt : values.length ∈ prepared.routingKeyIndexes <;> simp [hver]
    · simp [hver]
  | value a =>
    rw [bindValue, bindAt]
    cases col.serialize a prepared.protocolVersion with
    | error e => cases e <;> simp
    | ok b => simp [eq_comm]

theorem foldlM_bindValue_ok (l : List (Arg α × Column α)) {acc vs : List BoundValue} :
    l.foldlM prepared.bindValue acc = .ok vs ↔
      ∃ tail, (l.zipIdx acc.length).mapM (fun p => prepared.bindAt p.2 p.1.1 p.1.2) = some tail ∧ vs = acc ++ tail := by
  induction l generalizing acc with
  | nil => simp [pure, Except.pure, eq_comm]
  | cons p l ih =>
    obtain ⟨arg, col⟩ := p
    rw [foldlM_cons, zipIdx_cons, mapM_cons]
    cases hs : prepared.bindValue acc (arg, col) with
    | error e =>
      cases hat : prepared.bindAt acc.length arg col with
      | none => simp [bind, Except.bind]
      | some v =>
        rw [(prepared.bindValue_ok acc arg).mpr ⟨v, hat, rfl⟩] at hs
        cases hs
    | ok values =>
      obtain ⟨v, hat, rfl⟩ := (prepared.bindValue_ok acc arg).mp hs
      change foldlM _ (acc ++ [v]) l = _ ↔ _
      rw [ih, hat, length_append, length_singleton]
      constructor
      · rintro ⟨tail, ht, rfl⟩
        exact ⟨v :: tail, by simp [ht], by simp⟩
      rintro ⟨tail, ht, rfl⟩
      simp only [Option.bind_eq_bind, Option.bind_some, Option.bind_eq_some_iff] at ht
      obtain ⟨tail, ht, ⟨⟩⟩ := ht
      exact ⟨tail, ht, by simp⟩

/-- From version 4 on, what is missing is unset. -/
def supplied (args : List (Arg α)) : List (Arg α) :=
  if 4 ≤ prepared.protocolVersion then args ++ List.replicate (prepared.columnMetadata.length - args.length) .unset
  else args

theorem foldlM_unset (hver : 4 ≤ prepared.protocolVersion) {cols : List (Column α)} (n : List Nat)
    (h : n.length = cols.length) (acc : List BoundValue) :
    n.foldlM (fun values _ => prepared.appendUnsetValue values) acc =
      ((replicate cols.length .unset).zip cols).foldlM prepared.bindValue acc := by
  induction cols generalizing n acc with
  | nil =>
    obtain rfl := length_eq_zero_iff.mp h
    rfl
  | cons col cols ih =>
    obtain ⟨i, n, rfl⟩ := exists_cons_of_length_eq_add_one h
    have hu : prepared.bindValue acc (.unset, col) = prepared.appendUnsetValue acc := if_pos hver
    rw [length_cons, replicate_succ, zip_cons_cons, foldlM_cons, foldlM_cons, hu]
    cases prepared.appendUnsetValue acc with
    | error e => rfl
    | ok values => exact ih n (by simpa using h) values

theorem foldlM_padded (hver : 4 ≤ prepared.protocolVersion) {args : List (Arg α)} (cols : List (Column α))
    (h : args.length ≤ cols.length) (acc : List BoundValue) :
    ((args.zip cols).foldlM prepared.bindValue acc >>= fun values =>
      (range (acc.length + cols.length - values.length)).foldlM
        (fun values _ => prepared.appendUnsetValue values) values) =
      ((args ++ replicate (cols.length - args.length) Arg.unset).zip cols).foldlM prepared.bindValue acc := by
  induction args generalizing cols acc with
  | nil => exact prepared.foldlM_unset hver _ (by simp) acc
  | cons arg args ih =>
    obtain ⟨col, cols, rfl⟩ := exists_cons_of_length_pos (show 0 < cols.length by rw [length_cons] at h; omega)
    simp only [length_cons, Nat.add_le_add_iff_right, Nat.add_sub_add_right, cons_append, zip_cons_cons,
      foldlM_cons] at h ⊢
    cases hs : prepared.bindValue acc (arg, col) with
    | error e => rfl
    | ok values =>
      obtain ⟨v, -, rfl⟩ := (prepared.bindValue_ok acc arg).mp hs
      have hih := ih cols h (acc ++ [v])
      rw [length_append, length_singleton, Nat.add_assoc, Nat.add_comm 1] at hih
      exact hih

theorem bindValues_ok {args : List (Arg α)} (h : args.length ≤ prepared.columnMetadata.length) {vs : List BoundValue} :
    prepared.bindValues args = .ok vs ↔ (((prepared.supplied args).zip prepared.columnMetadata).zipIdx).mapM
        (fun p => prepared.bindAt p.2 p.1.1 p.1.2) = some vs := by
  have hl : prepared.bindValues args =
      ((prepared.supplied args).zip prepared.columnMetadata).foldlM prepared.bindValue [] := by
    unfold bindValues supplied
    by_cases hver : 4 ≤ prepared.protocolVersion
    · have hpad := prepared.foldlM_padded hver _ h []
      rw [length_nil, Nat.zero_add] at hpad
      simpa only [if_pos hver] using hpad
    · simp only [if_neg hver, bind_pure]
  rw [hl, foldlM_bindValue_ok]
  simp

variable {prepared} {args : List (Arg α)} {vs : List BoundValue}

section

variable (h : args.length ≤ prepared.columnMetadata.length)
include h

theorem length_supplied : (prepared.supplied args).length ≤ prepared.columnMetadata.length := by
  unfold supplied
  split
  · simp
    omega
  · exact h

theorem bindValues_at (hok : prepared.bindValues args = .ok vs) :
    vs.length = (prepared.supplied args).length ∧ ∀ i arg col, (prepared.supplied args)[i]? = some arg →
      prepared.columnMetadata[i]? = some col → ∃ v, vs[i]? = some v ∧ prepared.bindAt i arg col = some v := by
  rw [bindValues_ok prepared h, mapM_eq_some] at hok
  constructor
  · have hlen := hok.length_eq
    rw [length_zipIdx, length_zip] at hlen
    have := length_supplied h
    omega
  intro i arg col harg hcol
  have hzip : ((prepared.supplied args).zip prepared.columnMetadata)[i]? = some (arg, col) :=
    getElem?_zip_eq_some.mpr ⟨harg, hcol⟩
  have hidx : (((prepared.supplied args).zip prepared.columnMetadata).zipIdx)[i]? = some ((arg, col), i) := by
    rw [getElem?_zipIdx, hzip]
    simp
  exact forall₂_at hok hidx

theorem exists_bindValues :
    (∃ vs, prepared.bindValues args = .ok vs) ↔ ∀ i arg col, (prepared.supplied args)[i]? = some arg →
      prepared.columnMetadata[i]? = some col → (prepared.bindAt i arg col).isSome := by
  simp only [bindValues_ok prepared h]
  rw [← Option.isSome_iff_exists, mapM_isSome]
  constructor
  · intro hall i arg col harg hcol
    exact hall ((arg, col), i) (mem_zipIdx_iff_getElem?.mpr (getElem?_zip_eq_some.mpr ⟨harg, hcol⟩))
  rintro hall ⟨⟨arg, col⟩, i⟩ hmem
  obtain ⟨harg, hcol⟩ := getElem?_zip_eq_some.mp (mem_zipIdx_iff_getElem?.mp hmem)
  exact hall i arg col harg hcol

end

theorem bound_ok {values : Values α} : prepared.bound values = .ok vs ↔
    ∃ args, prepared.arguments values = .ok args ∧ args.length ≤ prepared.columnMetadata.length ∧
      ¬ (prepared.protocolVersion < 4 ∧ prepared.routingKeyIndexes ≠ [] ∧
        args.length < prepared.routingKeyIndexes.length) ∧ prepared.bindValues args = .ok vs := by
  unfold bound
  cases prepared.arguments values with
  | error e => simp
  | ok args =>
    by_cases hm : prepared.columnMetadata.length < args.length
    · simp [hm]
    by_cases hfew : prepared.protocolVersion < 4 ∧ prepared.routingKeyIndexes ≠ [] ∧
        args.length < prepared.routingKeyIndexes.length
    · simp only [if_neg hm, if_pos hfew]
      constructor
      · exact nofun
      rintro ⟨_, ⟨⟩, -, h, -⟩
      exact absurd hfew h
    simp only [if_neg hm, if_neg hfew]
    cases hv : prepared.bindValues args with
    | error e =>
      constructor
      · exact nofun
      rintro ⟨_, ⟨⟩, -, -, h⟩
      rw [hv] at h
      cases h
    | ok values =>
      constructor
      · rintro ⟨⟩
        exact ⟨args, rfl, by omega, hfew, hv⟩
      rintro ⟨_, ⟨⟩, -, -, h⟩
      rw [hv] at h
      cases h
      rfl

theorem getElem?_supplied (args : List (Arg α)) (hver : 4 ≤ prepared.protocolVersion) {i : Nat}
    (hi : i < prepared.columnMetadata.length) : (prepared.supplied args)[i]? = some (args[i]?.getD .unset) := by
  rw [supplied, if_pos hver, getElem?_append]
  split
  · rename_i h
    rw [getElem?_eq_getElem h]
    rfl
  rw [getElem?_replicate, if_pos (by omega), getElem?_eq_none (by omega)]
  rfl

variable (hver : 4 ≤ prepared.protocolVersion)
include hver

theorem bindAt_isSome {i : Nat} {arg : Arg α} :
    (prepared.bindAt i arg col).isSome ↔ (∀ a, arg = .value a → ∃ b, col.serialize a prepared.protocolVersion = .ok b) ∧
        (i ∈ prepared.routingKeyIndexes → arg ≠ .unset) := by
  cases arg with
  | none => simp [bindAt]
  | unset => by_cases h : i ∈ prepared.routingKeyIndexes <;> simp [bindAt, hver, h]
  | value a => cases h : col.serialize a prepared.protocolVersion <;> simp [bindAt, h]

theorem arguments_dict (es : List (String × Arg α)) :
    prepared.arguments (.dict es) = .ok (prepared.columnMetadata.map fun col => (es.lookup col.name).getD .unset) := by
  have hcol : prepared.argument es = fun col => pure ((es.lookup col.name).getD .unset) := by
    funext col
    rw [argument]
    cases es.lookup col.name with
    | none => exact if_pos hver
    | some x => rfl
  rw [arguments, hcol, mapM_pure]
  rfl

end PreparedStatement

variable {s : BoundStatement α} {values : Values α} {v : BoundValue}

theorem BoundStatement.bind_eq_none : (s.bind values).2 = none ↔ ∃ vs, s.preparedStatement.bound values = .ok vs := by
  unfold BoundStatement.bind
  split <;> simp_all

theorem BoundStatement.bind_of_ok {vs : List BoundValue} (h : s.preparedStatement.bound values = .ok vs) :
    s.bind values = ({ s with values := vs }, none) := by
  rw [BoundStatement.bind, h]

theorem BoundStatement.routingKey_snd : s.routingKey.2 = if s.preparedStatement.routingKeyIndexes = [] then .ok .none
      else if s.cachedKey ≠ .none then .ok s.cachedKey else s.preparedStatement.buildKey s.values := by
  unfold BoundStatement.routingKey
  split
  · rfl
  split
  · rfl
  · cases s.preparedStatement.buildKey s.values <;> rfl

/-- What is bound for a column. -/
def BoundAs (version : Nat) (col : Column α) : Option (Arg α) → BoundValue → Prop
  | some .none, v => v = .none
  | some (.value a), v => ∃ b, col.serialize a version = .ok b ∧ v = .bytes b
  | some .unset, v | none, v => v = .unset

theorem boundAs_of_bindAt {prepared : PreparedStatement α} {i : Nat} {arg : Option (Arg α)} {col : Column α}
    (h : prepared.bindAt i (arg.getD .unset) col = some v) : BoundAs prepared.protocolVersion col arg v := by
  have hu (h : prepared.bindAt i .unset col = some v) : v = .unset := by
    rw [PreparedStatement.bindAt] at h
    split at h
    · exact (Option.some.inj h).symm
    · cases h
  match arg, h with
  | none, h | some .unset, h => exact hu h
  | some .none, h => exact (Option.some.inj h).symm
  | some (.value a), h =>
    rw [Option.getD_some, PreparedStatement.bindAt] at h
    cases hser : col.serialize a prepared.protocolVersion with
    | error e =>
      rw [hser] at h
      cases h
    | ok b =>
      rw [hser] at h
      exact ⟨b, hser, (Option.some.inj h).symm⟩

/-- **Binding from version 4 on.** -/
theorem bind_unset (s : BoundStatement α) (hversion : 4 ≤ s.preparedStatement.protocolVersion) (values : List (Arg α)) :
    ((s.bind (.sequence values)).2 = none ↔ values.length ≤ s.preparedStatement.columnMetadata.length ∧
      (∀ (i : Nat) (a : α) (col : Column α), values[i]? = some (.value a) →
        s.preparedStatement.columnMetadata[i]? = some col →
        ∃ b, col.serialize a s.preparedStatement.protocolVersion = .ok b) ∧
      ∀ i ∈ s.preparedStatement.routingKeyIndexes, i < s.preparedStatement.columnMetadata.length →
        ∃ arg, values[i]? = some arg ∧ arg ≠ .unset) ∧ ((s.bind (.sequence values)).2 = none →
      (s.bind (.sequence values)).1.values.length = s.preparedStatement.columnMetadata.length ∧
      ∀ (i : Nat) (col : Column α), s.preparedStatement.columnMetadata[i]? = some col →
        ∃ v, (s.bind (.sequence values)).1.values[i]? = some v ∧
          BoundAs s.preparedStatement.protocolVersion col values[i]? v) ∧
    ∀ entries : List (String × Arg α), s.bind (.dict entries) =
      s.bind (.sequence (s.preparedStatement.columnMetadata.map fun col => (entries.lookup col.name).getD .unset)) := by
  have hbn (vs : List BoundValue) : s.preparedStatement.bound (.sequence values) = .ok vs ↔
      values.length ≤ s.preparedStatement.columnMetadata.length ∧ s.preparedStatement.bindValues values = .ok vs := by
    rw [PreparedStatement.bound_ok]
    constructor
    · rintro ⟨args, ⟨⟩, hlen, -, hok⟩
      exact ⟨hlen, hok⟩
    rintro ⟨hlen, hok⟩
    exact ⟨values, rfl, hlen, by omega, hok⟩
  refine ⟨?_, ?_, ?_⟩
  · simp only [BoundStatement.bind_eq_none, hbn, exists_and_left]
    refine and_congr_right fun hlen => ?_
    rw [PreparedStatement.exists_bindValues hlen]
    constructor
    · intro hall
      refine ⟨?_, ?_⟩
      · intro i a col hvl hcol
        have harg := PreparedStatement.getElem?_supplied values hversion (List.getElem?_eq_some_iff.mp hcol).1
        rw [hvl] at harg
        exact ((PreparedStatement.bindAt_isSome hversion).mp (hall i _ col harg hcol)).1 a rfl
      intro i hmem hi
      have harg := PreparedStatement.getElem?_supplied values hversion hi
      have hset := ((PreparedStatement.bindAt_isSome hversion).mp (hall i _ _ harg (getElem?_eq_getElem hi))).2 hmem
      cases hvl : values[i]? with
      | none => exact absurd (by rw [hvl]; rfl) hset
      | some arg =>
        rw [hvl] at hset
        exact ⟨arg, rfl, hset⟩
    rintro ⟨hsr, hrt⟩ i arg col harg hcol
    have hi := (List.getElem?_eq_some_iff.mp hcol).1
    rw [PreparedStatement.getElem?_supplied values hversion hi, Option.some.injEq] at harg
    refine (PreparedStatement.bindAt_isSome hversion).mpr ⟨?_, ?_⟩
    · rintro a rfl
      cases hvl : values[i]? with
      | none =>
        rw [hvl] at harg
        exact absurd harg nofun
      | some arg =>
        rw [hvl] at harg
        exact hsr i a col (by rw [hvl, ← harg]; rfl) hcol
    intro hmem hu
    obtain ⟨arg', harg', hne⟩ := hrt i hmem hi
    rw [harg'] at harg
    exact hne (harg.trans hu)
  · intro hn
    obtain ⟨vs, hvs⟩ := BoundStatement.bind_eq_none.mp hn
    rw [BoundStatement.bind_of_ok hvs]
    obtain ⟨hlen, hok⟩ := (hbn vs).mp hvs
    obtain ⟨hl, hat⟩ := PreparedStatement.bindValues_at hlen hok
    refine ⟨?_, ?_⟩
    · rw [hl, PreparedStatement.supplied, if_pos hversion, length_append, length_replicate]
      omega
    intro i col hcol
    have hi := (List.getElem?_eq_some_iff.mp hcol).1
    obtain ⟨v, hv, hb⟩ := hat i _ col (PreparedStatement.getElem?_supplied values hversion hi) hcol
    exact ⟨v, hv, boundAs_of_bindAt hb⟩
  intro entries
  have hs : s.preparedStatement.bound (.dict entries) = s.preparedStatement.bound
      (.sequence (s.preparedStatement.columnMetadata.map fun col => (entries.lookup col.name).getD .unset)) := by
    rw [PreparedStatement.bound, PreparedStatement.arguments_dict hversion]
    rfl
  rw [BoundStatement.bind, BoundStatement.bind, hs]

def blobs (names : List String) (routingKeyIndexes : List Nat) (protocolVersion : Nat) : PreparedStatement Bytes where
  columnMetadata := names.map fun name => ⟨name, "ks", fun b _ => .ok b⟩
  queryId := []
  routingKeyIndexes := routingKeyIndexes
  protocolVersion := protocolVersion
  customPayload := none

theorem bind_unset_blobs : 4 ≤ (BoundStatement.new (blobs ["k", "v"] [0] 4) none).preparedStatement.protocolVersion ∧
    (BoundStatement.new (blobs ["k", "v"] [0] 4) none).bind (.dict [("k", .value [7])]) =
      (BoundStatement.new (blobs ["k", "v"] [0] 4) none).bind (.sequence [.value [7], .unset]) :=
  ⟨by decide, (bind_unset _ (by decide) []).2.2 _⟩

/-! ## Reading the key of what was bound -/

theorem valueAt_ok {values : List BoundValue} {i : Nat} : valueAt values i = .ok v ↔ values[i]? = some v := by
  unfold valueAt
  cases values[i]? <;> simp

theorem exists_keyPartsPacked (pts : List (Except KeyError BoundValue)) :
    (∃ key, keyPartsPacked pts = .ok key) ↔ ∀ part ∈ pts, ∃ b, part = .ok (.bytes b) ∧ b.length < 65536 := by
  induction pts with
  | nil => simp [keyPartsPacked, pure, Except.pure, Except.map]
  | cons part pts ih =>
    rw [keyPartsPacked_cons, forall_mem_cons, ← ih]
    match part with
    | .error e | .ok .none | .ok .unset =>
      constructor
      · rintro ⟨key, h⟩
        cases h
      rintro ⟨⟨b, h, -⟩, -⟩
      cases h
    | .ok (.bytes p) =>
      rw [ok_bind, keyPart_bytes]
      by_cases hp : p.length < 65536
      · rw [if_pos hp]
        constructor
        · rintro ⟨key, h⟩
          refine ⟨⟨p, rfl, hp⟩, ?_⟩
          cases hkey : keyPartsPacked pts with
          | error e =>
            rw [hkey] at h
            cases h
          | ok key => exact ⟨key, rfl⟩
        rintro ⟨-, key, hkey⟩
        exact ⟨_, by rw [hkey]; rfl⟩
      rw [if_neg hp]
      constructor
      · rintro ⟨key, h⟩
        cases h
      rintro ⟨⟨b, ⟨⟩, hb⟩, -⟩
      exact absurd hb hp

namespace PreparedStatement

variable {prep : PreparedStatement α} {args : List (Arg α)} {vs : List BoundValue} {i : Nat}

theorem supplied_eq_value {a : α} : (prep.supplied args)[i]? = some (.value a) ↔ args[i]? = some (.value a) := by
  unfold supplied
  split
  · rw [getElem?_append]
    split
    · rfl
    rw [getElem?_replicate, getElem?_eq_none (by omega)]
    split <;> simp
  · rfl

variable {arg : Arg α} {b : Bytes} {col : Column α}

theorem bindAt_eq_bytes : prep.bindAt i arg col = some (.bytes b) ↔
    ∃ a, arg = .value a ∧ col.serialize a prep.protocolVersion = .ok b := by
  cases arg with
  | none => simp [bindAt]
  | unset =>
    rw [bindAt]
    split <;> simp
  | value a => cases h : col.serialize a prep.protocolVersion <;> simp [bindAt, h]

theorem bytes_at (h : args.length ≤ prep.columnMetadata.length) (hok : prep.bindValues args = .ok vs) :
    vs[i]? = some (.bytes b) ↔ ∃ a col, args[i]? = some (.value a) ∧ prep.columnMetadata[i]? = some col ∧
      col.serialize a prep.protocolVersion = .ok b := by
  obtain ⟨hlen, hat⟩ := bindValues_at h hok
  constructor
  · intro hv
    have hi : i < (prep.supplied args).length := hlen ▸ (List.getElem?_eq_some_iff.mp hv).1
    have hcol := getElem?_eq_getElem (lt_of_lt_of_le hi (length_supplied h))
    obtain ⟨v, hv', hb⟩ := hat i _ _ (getElem?_eq_getElem hi) hcol
    cases hv.symm.trans hv'
    obtain ⟨a, harg, hser⟩ := bindAt_eq_bytes.mp hb
    exact ⟨a, _, supplied_eq_value.mp (by rw [getElem?_eq_getElem hi, harg]), hcol, hser⟩
  rintro ⟨a, col, harg, hcol, hser⟩
  obtain ⟨v, hv, hb⟩ := hat i _ col (supplied_eq_value.mpr harg) hcol
  rw [bindAt_eq_bytes.mpr ⟨a, rfl, hser⟩] at hb
  rw [hv, hb]

theorem not_mem_of_bindAt_unset (h : prep.bindAt i arg col = some .unset) : i ∉ prep.routingKeyIndexes := by
  cases arg with
  | none => cases h
  | unset =>
    rw [bindAt] at h
    split at h
    · rename_i hu
      exact hu.2
    · cases h
  | value a =>
    rw [bindAt] at h
    split at h <;> cases h

theorem routed_at (h : args.length ≤ prep.columnMetadata.length) (hok : prep.bindValues args = .ok vs)
    (hi : i ∈ prep.routingKeyIndexes) : (∃ v, v ≠ .unset ∧ vs[i]? = some v) ↔ i < args.length := by
  obtain ⟨hlen, hat⟩ := bindValues_at h hok
  constructor
  · rintro ⟨v, -, hv⟩
    have hlt : i < (prep.supplied args).length := hlen ▸ (List.getElem?_eq_some_iff.mp hv).1
    by_contra hge
    by_cases hver : 4 ≤ prep.protocolVersion
    · -- Nothing was supplied, so it would be unset, which an index of the routing key must not be.
      have hcol := lt_of_lt_of_le hlt (length_supplied h)
      have harg := getElem?_supplied args hver hcol
      have hm : args[i]? = none := getElem?_eq_none (by omega)
      rw [hm] at harg
      obtain ⟨v', hv', hb⟩ := hat i _ _ harg (getElem?_eq_getElem hcol)
      rw [Option.getD_none, bindAt, if_neg fun hu => hu.2 hi] at hb
      cases hb
    rw [supplied, if_neg hver] at hlt
    exact hge hlt
  intro hlt
  have harg : (prep.supplied args)[i]? = some (args[i]) := by
    unfold supplied
    split
    · rw [getElem?_append_left hlt, getElem?_eq_getElem hlt]
    · exact getElem?_eq_getElem hlt
  obtain ⟨v, hv, hb⟩ := hat i _ _ harg (getElem?_eq_getElem (lt_of_lt_of_le hlt h))
  refine ⟨v, ?_, hv⟩
  rintro rfl
  exact not_mem_of_bindAt_unset hb hi

end PreparedStatement

/-- **Usable keys**: given, with its index supplied, or with fitting values. -/
theorem routingKey_usable_iff (prepared : PreparedStatement α) (explicit : Option Bytes) (values : Values α)
    (hbind : ((BoundStatement.new prepared explicit).bind values).2 = none) :
    (∃ key, key ≠ .unset ∧ ((BoundStatement.new prepared explicit).bind values).1.routingKey.2 = .ok key) ↔
      explicit.isSome ∨ ∃ args, prepared.arguments values = .ok args ∧
        ((∃ i, prepared.routingKeyIndexes = [i] ∧ i < args.length) ∨
          ∀ i ∈ prepared.routingKeyIndexes, ∃ a col b, args[i]? = some (.value a) ∧
            prepared.columnMetadata[i]? = some col ∧ col.serialize a prepared.protocolVersion = .ok b ∧
            b.length < 65536) := by
  obtain ⟨vs, hvs⟩ := BoundStatement.bind_eq_none.mp hbind
  have hvs' : prepared.bound values = .ok vs := hvs
  obtain ⟨args, ha, hlen, -, hok⟩ := PreparedStatement.bound_ok.mp hvs'
  rw [BoundStatement.bind_of_ok hvs, BoundStatement.routingKey_snd, ha]
  simp only [Except.ok.injEq, exists_eq_left']
  cases explicit with
  | some key =>
    by_cases hn : prepared.routingKeyIndexes = [] <;> simp [BoundStatement.new, hn]
  | none =>
    simp only [BoundStatement.new, Option.elim_none, ne_eq, not_true_eq_false, if_false, Option.isSome_none,
      Bool.false_eq_true, false_or]
    rw [PreparedStatement.buildKey]
    match hidx : prepared.routingKeyIndexes with
    | [] => simp
    | [i] =>
      have hat := PreparedStatement.routed_at hlen hok (by rw [hidx]; exact mem_singleton_self i)
      simp only [cons_ne_nil, if_false, valueAt_ok, List.cons.injEq, and_true, exists_eq_left', mem_singleton,
        forall_eq, hat]
      constructor
      · exact .inl
      rintro (h | ⟨a, col, b, harg, -⟩)
      · exact h
      · exact (List.getElem?_eq_some_iff.mp harg).1
    | i :: j :: rest =>
      have hl : ¬ ∃ k, i :: j :: rest = [k] ∧ k < args.length := by simp
      rw [or_iff_right hl]
      have hp := exists_keyPartsPacked ((i :: j :: rest).map (valueAt vs))
      simp only [forall_mem_map, valueAt_ok, PreparedStatement.bytes_at hlen hok] at hp
      constructor
      · rintro ⟨key, -, hkey⟩
        cases hpk : keyPartsPacked ((i :: j :: rest).map (valueAt vs)) with
        | error e =>
          simp only [hpk] at hkey
          exact absurd hkey nofun
        | ok packed =>
          intro k hk
          obtain ⟨b, ⟨a, col, harg, hcol, hser⟩, hb⟩ := hp.mp ⟨packed, hpk⟩ k hk
          exact ⟨a, col, b, harg, hcol, hser, hb⟩
      intro hall
      obtain ⟨packed, hpk⟩ := hp.mpr fun k hk => by
        obtain ⟨a, col, b, harg, hcol, hser, hb⟩ := hall k hk
        exact ⟨b, ⟨a, col, harg, hcol, hser⟩, hb⟩
      exact ⟨.bytes packed, nofun, by simp only [hpk]; rfl⟩

theorem routingKey_usable_blobs :
    ((BoundStatement.new (blobs ["a", "b"] [1] 3) none).bind (.sequence [.none, .none])).2 = none ∧
    ∃ key, key ≠ .unset ∧
      ((BoundStatement.new (blobs ["a", "b"] [1] 3) none).bind (.sequence [.none, .none])).1.routingKey.2 = .ok key :=
  ⟨rfl, (routingKey_usable_iff _ none _ rfl).mpr (.inr ⟨_, rfl, .inl ⟨1, rfl, by decide⟩⟩)⟩

/-- A null in a key, or a value left out before version 4. -/
theorem routingKey_raises :
    (((BoundStatement.new (blobs ["a", "b"] [0, 1] 4) none).bind (.sequence [.value [7], .none])).2 = none ∧
      ((BoundStatement.new (blobs ["a", "b"] [0, 1] 4) none).bind (.sequence [.value [7], .none])).1.routingKey.2 =
        .error .typeError) ∧
    ((BoundStatement.new (blobs ["a", "b"] [1] 3) none).bind (.sequence [.value [7]])).2 = none ∧
      ((BoundStatement.new (blobs ["a", "b"] [1] 3) none).bind (.sequence [.value [7]])).1.routingKey.2 =
        .error .indexError := by
  refine ⟨⟨rfl, by decide +kernel⟩, rfl, rfl⟩

/-! ## Binding again -/

inductive Op (α : Type)
  | bind (values : Values α)
  | read

namespace BoundStatement

def step (s : BoundStatement α) : Op α → BoundStatement α
  | .bind values => (s.bind values).1
  | .read => s.routingKey.1

def run (s : BoundStatement α) (ops : List (Op α)) : BoundStatement α := ops.foldl step s

section

variable (s : BoundStatement α)

theorem run_append (ops ops' : List (Op α)) : s.run (ops ++ ops') = (s.run ops).run ops' :=
  foldl_append

theorem step_preparedStatement (op : Op α) : (s.step op).preparedStatement = s.preparedStatement := by
  cases op with
  | bind values =>
    rw [step, bind]
    split <;> rfl
  | read =>
    rw [step, routingKey]
    split_ifs
    · rfl
    · rfl
    · split <;> rfl

theorem run_preparedStatement {ops : List (Op α)} : (s.run ops).preparedStatement = s.preparedStatement := by
  induction ops generalizing s with
  | nil => rfl
  | cons op ops ih => exact (ih _).trans (s.step_preparedStatement op)

theorem routingKey_read : s.routingKey.1.routingKey.2 = s.routingKey.2 := by
  by_cases hi : s.preparedStatement.routingKeyIndexes = []
  · simp [routingKey, hi]
  by_cases hcch : s.cachedKey = .none
  · cases hkey : s.preparedStatement.buildKey s.values with
    | error e => simp [routingKey, hi, hcch, hkey]
    | ok key =>
      by_cases hn : key = .none
      · simp [routingKey, hi, hcch, hkey]
      · simp [routingKey, hi, hcch, hkey]
  · simp [routingKey, hi, hcch]

theorem routingKey_run_reads {n : Nat} : (s.run (replicate n .read)).routingKey.2 = s.routingKey.2 := by
  induction n generalizing s with
  | zero => rfl
  | succ n ih => exact (ih s.routingKey.1).trans s.routingKey_read

end

/-- The keys that reads of `routing_key` return, `None` apart. -/
def reads (s : BoundStatement α) : List (Op α) → List BoundValue
  | [] => []
  | .bind values :: ops => (s.step (.bind values)).reads ops
  | .read :: ops =>
    (match s.routingKey.2 with
      | .ok key => if key = .none then [] else [key]
      | .error _ => []) ++ (s.step .read).reads ops

/-- What is cached is the first key that was read. -/
theorem cachedKey_run {ops : List (Op α)} {s : BoundStatement α} (hi : s.preparedStatement.routingKeyIndexes ≠ []) :
    (s.run ops).cachedKey = if s.cachedKey = .none then (s.reads ops).head?.getD .none else s.cachedKey := by
  induction ops generalizing s with
  | nil =>
    by_cases hcch : s.cachedKey = .none
    · rw [if_pos hcch]
      exact hcch
    · rw [if_neg hcch]
      rfl
  | cons op ops ih =>
    refine (ih (by rwa [s.step_preparedStatement op])).trans ?_
    cases op with
    | bind values =>
      have hc : (s.step (.bind values)).cachedKey = s.cachedKey := by
        rw [step, bind]
        split <;> rfl
      rw [hc, reads]
    | read =>
      rw [reads, step]
      by_cases hcch : s.cachedKey = .none
      · cases hkey : s.preparedStatement.buildKey s.values with
        | error e => simp [routingKey, hi, hcch, hkey]
        | ok key => by_cases hn : key = .none <;> simp [routingKey, hi, hcch, hkey, hn]
      · simp [routingKey, hi, hcch]

theorem ne_none_of_mem_reads {ops : List (Op α)} {s : BoundStatement α} {key : BoundValue} (h : key ∈ s.reads ops) :
    key ≠ .none := by
  induction ops generalizing s with
  | nil => cases h
  | cons op ops ih =>
    cases op with
    | bind values => exact ih h
    | read =>
      rcases mem_append.mp h with h | h
      · split at h
        · split at h
          · cases h
          · rename_i hn
            exact mem_singleton.mp h ▸ hn
        · cases h
      · exact ih h

theorem routingKey_rebound {s : BoundStatement α} (hi : s.preparedStatement.routingKeyIndexes ≠ [])
    {values : Values α} {vs : List BoundValue} (hok : s.preparedStatement.bound values = .ok vs) (n : Nat) :
    (s.run (.bind values :: replicate n .read)).routingKey.2 = s.preparedStatement.buildKey vs ↔
      s.cachedKey = .none ∨ s.preparedStatement.buildKey vs = .ok s.cachedKey := by
  have hrun : s.run (.bind values :: replicate n .read) =
      ({ s with values := vs } : BoundStatement α).run (replicate n .read) := by
    rw [run, foldl_cons, step, bind_of_ok hok]
    rfl
  rw [hrun, routingKey_run_reads, routingKey_snd, if_neg hi]
  by_cases hcch : s.cachedKey = .none
  · simp [hcch]
  · simp [hcch, eq_comm]

end BoundStatement

/-- **Binding again.** After a `bind` that returned, a read gives the key of the values bound last
exactly when an earlier read has returned no other key. -/
theorem routingKey_current_iff (prepared : PreparedStatement α) (hindexes : prepared.routingKeyIndexes ≠ [])
    (ops : List (Op α)) :
    (∀ front values n back vs, ops = front ++ .bind values :: (List.replicate n .read ++ .read :: back) →
      prepared.bound values = .ok vs →
      ((BoundStatement.new prepared none).run (front ++ .bind values :: List.replicate n .read)).routingKey.2 =
        prepared.buildKey vs) ↔
    ∀ front values n back vs, ops = front ++ .bind values :: (List.replicate n .read ++ .read :: back) →
      prepared.bound values = .ok vs →
      ∀ key ∈ ((BoundStatement.new prepared none).reads front).head?, prepared.buildKey vs = .ok key := by
  refine forall_congr' fun front => forall_congr' fun values => forall_congr' fun n => forall_congr' fun back =>
    forall_congr' fun vs => forall_congr' fun _ => forall_congr' fun hok => ?_
  have hp : ((BoundStatement.new prepared none).run front).preparedStatement = prepared :=
    (BoundStatement.new prepared none).run_preparedStatement
  have hr := BoundStatement.routingKey_rebound (hp.symm ▸ hindexes) (hp.symm ▸ hok) n
  have hcch : (BoundStatement.new prepared none).cachedKey = .none := rfl
  rw [hp, ← BoundStatement.run_append, BoundStatement.cachedKey_run (s := .new prepared none) hindexes,
    if_pos hcch] at hr
  rw [hr]
  cases hkeys : ((BoundStatement.new prepared none).reads front).head? with
  | none => simp
  | some key =>
    have hne : key ≠ .none := BoundStatement.ne_none_of_mem_reads (mem_of_head? hkeys)
    simp [hne]

theorem bind_read_at {ops front back : List (Op α)} {values : Values α} {n : Nat}
    (h : ops = front ++ .bind values :: (replicate n .read ++ .read :: back)) : front = ops.take front.length ∧
      ops[front.length]? = some (.bind values) ∧ ops[front.length + 1]? = some .read := by
  subst h
  cases n <;> simp [replicate_succ]

def boundTwice : List (Op Bytes) :=
  [.bind (.sequence [.value [7]]), .bind (.sequence [.value [8]]), .read, .bind (.sequence [.value [8]]), .read]

theorem routingKey_current_blobs : (blobs ["k"] [0] 4).routingKeyIndexes ≠ [] ∧
    (∀ front values n back vs, boundTwice =
        front ++ .bind values :: (List.replicate n .read ++ .read :: back) → (blobs ["k"] [0] 4).bound values = .ok vs →
      ((BoundStatement.new (blobs ["k"] [0] 4) none).run
        (front ++ .bind values :: List.replicate n .read)).routingKey.2 = (blobs ["k"] [0] 4).buildKey vs) := by
  refine ⟨by decide, (routingKey_current_iff _ (by decide) _).mpr fun front values n back vs hops hok => ?_⟩
  obtain ⟨hfr, hb, hr⟩ := bind_read_at hops
  rw [hfr]
  generalize front.length = i at hb hr
  match i, hb, hr with
  | 0, _, hr | 2, hr, _ | 4, hr, _ => cases hr
  | 1, _, _ => exact nofun
  | 3, rfl, _ =>
    cases hok
    rintro key ⟨⟩
    rfl
  | i + 5, hb, _ => cases hb

/-- The second write goes to the replicas of the first. -/
theorem routingKey_stale : (blobs ["k"] [0] 4).bound (.sequence [.value [8]]) = .ok [.bytes [8]] ∧
    (blobs ["k"] [0] 4).buildKey [.bytes [8]] = .ok (.bytes [8]) ∧ ((BoundStatement.new (blobs ["k"] [0] 4) none).run
      [.bind (.sequence [.value [7]]), .read, .bind (.sequence [.value [8]])]).routingKey.2 = .ok (.bytes [7]) :=
  ⟨rfl, rfl, rfl⟩

end CqlDriver.Statements
