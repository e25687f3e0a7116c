import CqlDriver.Lib.Traversal
import CqlDriver.Protocol.ResultMessage

/-! # Rows as the protocol lays them out -/

namespace CqlDriver.Protocol

open Lib Lib.Reader CqlDriver.Types

/-! ## The layout -/

def SimpleType.code : SimpleType → Nat
  | .ascii => 0x0001
  | .long => 0x0002
  | .bytes => 0x0003
  | .boolean => 0x0004
  | .counterColumn => 0x0005
  | .decimal => 0x0006
  | .double => 0x0007
  | .float => 0x0008
  | .int32 => 0x0009
  | .utf8 => 0x000A
  | .date => 0x000B
  | .uuid => 0x000C
  | .varchar => 0x000D
  | .integer => 0x000E
  | .timeUUID => 0x000F
  | .inetAddress => 0x0010
  | .simpleDate => 0x0011
  | .time => 0x0012
  | .short => 0x0013
  | .byte => 0x0014
  | .duration => 0x0015

inductive TypeOption
  | simple (s : SimpleType)
  | custom (classname : Text)
  | list (o : TypeOption)
  | set (o : TypeOption)
  | map (k v : TypeOption)
  | tuple (os : List TypeOption)
  | user (keyspace name : Text) (names : List Text) (types : List TypeOption)

namespace TypeOption

mutual

def bytes : TypeOption → Bytes
  | .simple s => shortBytes s.code
  | .custom classname => shortBytes 0x0000 ++ stringBytes classname
  | .list o => shortBytes 0x0020 ++ o.bytes
  | .map k v => shortBytes 0x0021 ++ (k.bytes ++ v.bytes)
  | .set o => shortBytes 0x0022 ++ o.bytes
  | .user keyspace name names types =>
    shortBytes 0x0030 ++ (stringBytes keyspace ++ (stringBytes name ++ (shortBytes names.length ++ fieldBytes names types)))
  | .tuple os => shortBytes 0x0031 ++ (shortBytes os.length ++ allBytes os)

def allBytes : List TypeOption → Bytes
  | [] => []
  | o :: os => o.bytes ++ allBytes os

def fieldBytes : List Text → List TypeOption → Bytes
  | name :: names, o :: os => stringBytes name ++ o.bytes ++ fieldBytes names os
  | _, _ => []

end

variable {os : List TypeOption}

theorem allBytes_eq : allBytes os = os.flatMap bytes := by
  induction os with
  | nil => rfl
  | cons o os ih => rw [allBytes, ih, List.flatMap_cons]

theorem fieldBytes_eq (names : List Text) :
    fieldBytes names os = (names.zip os).flatMap fun f => stringBytes f.1 ++ f.2.bytes := by
  induction names generalizing os with
  | nil => cases os <;> rfl
  | cons name names ih =>
    cases os with
    | nil => rfl
    | cons o os => rw [fieldBytes, ih, List.zip_cons_cons, List.flatMap_cons]

def inner : TypeOption → List TypeOption
  | .simple _ | .custom _ => []
  | .list o | .set o => [o]
  | .map k v => [k, v]
  | .tuple os | .user _ _ _ os => os

theorem inner_induction {motive : TypeOption → Prop} (h : ∀ o, (∀ i ∈ o.inner, motive i) → motive o) :
    ∀ o, motive o := by
  intro o
  induction hn : sizeOf o using Nat.strong_induction_on generalizing o with
  | _ n ih =>
    subst hn
    apply h
    intro i hi
    refine ih _ ?_ i rfl
    cases o with
    | simple s | custom n => cases hi
    | list o | set o =>
      obtain rfl := List.mem_singleton.mp hi
      simp
    | map k v =>
      rcases List.mem_pair.mp hi with rfl | rfl <;> rw [map.sizeOf_spec] <;> omega
    | tuple os | user ks n names os =>
      have hlt : sizeOf i < sizeOf os := List.sizeOf_lt_of_mem hi
      simp
      omega

variable {M V : Type} (env : Env M V)

def mapped (keyspace name : Text) : Option M := (env.userTypeMap.get? keyspace).bind (·.get? name)

mutual

def type : TypeOption → ColType M
  | .simple s => .simple s
  | .custom classname => (env.lookupCasstype classname).getD (.custom classname)
  | .list o => .list o.type
  | .set o => .set o.type
  | .map k v => .map k.type v.type
  | .tuple os => .tuple (types os)
  | .user keyspace name names os => .user keyspace name names (types os) (mapped env keyspace name)

def types : List TypeOption → List (ColType M)
  | [] => []
  | o :: os => o.type :: types os

end

theorem types_eq : types env os = os.map (type env) := by
  induction os with
  | nil => rfl
  | cons o os ih => exact congrArg (_ :: ·) ih

/-- The lengths fit, classes are known, and user types have fields. -/
def Fits : TypeOption → Prop
  | .simple _ | .list _ | .set _ | .map _ _ => True
  | .custom classname => IsString classname ∧ (env.lookupCasstype classname).isSome
  | .tuple os => os.length < 2 ^ 16
  | .user keyspace name names os =>
    IsString keyspace ∧ IsString name ∧ names ≠ [] ∧ names.length = os.length ∧ names.length < 2 ^ 16 ∧
      ∀ n ∈ names, IsString n

inductive Ok : TypeOption → Prop
  | of_inner {o : TypeOption} (fits : o.Fits env) (inner : ∀ i ∈ o.inner, Ok i) : Ok o

end TypeOption

/-! ## Reading a type -/

section Types

variable {M V : Type} (env : Env M V)

theorem cachedOrNew_eq (cache : UdtCache M) (ks un : Text) (fns : List Text)
    (fts : List (ColType M)) : ∃ mapped, cachedOrNew env cache ks un fns fts = ⟨ks, un, fns, fts, mapped⟩ := by
  unfold cachedOrNew
  cases hc : cache.classes.get? (ks, un) with
  | none => exact ⟨none, rfl⟩
  | some c =>
    dsimp only
    split_ifs with hs
    · obtain ⟨hks, hn⟩ := Prod.mk.inj (cache.keyed _ c hc)
      refine ⟨c.mappedClass, ?_⟩
      rw [← hks, ← hn, ← hs.1, ← env.sameTypes_eq _ _ hs.2]
    · exact ⟨none, rfl⟩

theorem consumes_makeUdtClass (ks un : Text) {fns : List Text} {fts : List (ColType M)}
    (h : fns.length = fts.length) : Consumes (makeUdtClass env ks un fns fts) []
      (.user ks un fns fts (TypeOption.mapped env ks un)) := by
  intro rest cache
  obtain ⟨m, hm⟩ := cachedOrNew_eq env cache ks un fns fts
  simp only [makeUdtClass, if_pos h, hm]
  exact ⟨_, rfl⟩

theorem lookup_code (s : SimpleType) : typeCodes.lookup (s.code : Int) = some (.simple s) := by
  cases s <;> rfl

theorem code_lt {s : SimpleType} : s.code < 2 ^ 16 := by
  cases s <;> decide

theorem length_shortBytes (n : Nat) : (shortBytes n).length = 2 := beEncode_length 2 n

theorem length_le_flatMap {α : Type} (f : α → Bytes) {l : List α} {a : α} (h : a ∈ l) :
    (f a).length ≤ (l.flatMap f).length := by
  exact (List.sublist_flatten_of_mem (List.mem_map_of_mem h)).length_le

variable {o : TypeOption}

theorem length_inner (h : o.Fits env) : 2 ≤ o.bytes.length ∧ ∀ i ∈ o.inner, i.bytes.length + 2 ≤ o.bytes.length := by
  constructor
  · cases o <;> simp [TypeOption.bytes, length_shortBytes]
  intro i hi
  cases o with
  | simple s | custom n => cases hi
  | list o | set o =>
    obtain rfl := List.mem_singleton.mp hi
    rw [TypeOption.bytes, List.length_append, length_shortBytes]
    omega
  | map k v =>
    rw [TypeOption.bytes, List.length_append, List.length_append, length_shortBytes]
    rcases List.mem_pair.mp hi with rfl | rfl <;> omega
  | tuple os =>
    have hle : i.bytes.length ≤ (os.flatMap TypeOption.bytes).length := length_le_flatMap TypeOption.bytes hi
    rw [TypeOption.bytes, TypeOption.allBytes_eq, List.length_append, List.length_append, length_shortBytes]
    omega
  | user ks name names os =>
    obtain ⟨-, -, -, hlen, -⟩ := h
    have hsnd : (names.zip os).map Prod.snd = os := List.map_snd_zip hlen.ge
    have hi' : i ∈ (names.zip os).map Prod.snd := by
      rw [hsnd]
      exact hi
    obtain ⟨f, hf, rfl⟩ := List.mem_map.mp hi'
    have hle := length_le_flatMap (fun f : Text × TypeOption => stringBytes f.1 ++ f.2.bytes) hf
    rw [List.length_append] at hle
    rw [TypeOption.bytes, TypeOption.fieldBytes_eq]
    simp only [List.length_append, length_shortBytes]
    omega

theorem consumes_typeDepth : o.Ok env → ∀ depth, o.bytes.length ≤ depth →
    Consumes (readTypeDepth env depth) o.bytes (o.type env) := by
  induction o using TypeOption.inner_induction with
  | h o ih =>
    rintro ⟨hft, hin⟩ depth hd
    obtain ⟨htwo, hlen⟩ := length_inner env hft
    obtain _ | d := depth
    · omega
    have hr : ∀ i ∈ o.inner, Consumes (readTypeDepth env d) i.bytes (i.type env) := by
      intro i hi
      have hi' := hlen i hi
      exact ih i hi (hin i hi) d (by omega)
    rw [readTypeDepth]
    cases o with
    | simple s =>
      refine (consumes_short code_lt).then ?_
      simp only [lookup_code]
      exact .pure _
    | custom classname =>
      have hc : typeCodes.lookup ((0x0000 : Nat) : Int) = some .custom := rfl
      obtain ⟨hnm, hlk⟩ := hft
      obtain ⟨t, ht⟩ := Option.isSome_iff_exists.mp hlk
      refine (consumes_short (by norm_num)).bind ?_
      refine (consumes_string hnm).then (.lift ?_)
      rw [TypeOption.type, ht]
      rfl
    | list o =>
      have hc : typeCodes.lookup ((0x0020 : Nat) : Int) = some .list := rfl
      refine (consumes_short (by norm_num)).bind ?_
      exact (hr o List.mem_cons_self).then (.pure _)
    | set o =>
      have hc : typeCodes.lookup ((0x0022 : Nat) : Int) = some .set := rfl
      refine (consumes_short (by norm_num)).bind ?_
      exact (hr o List.mem_cons_self).then (.pure _)
    | map k v =>
      have hc : typeCodes.lookup ((0x0021 : Nat) : Int) = some .map := rfl
      refine (consumes_short (by norm_num)).bind ?_
      exact (hr k List.mem_cons_self).bind ((hr v (List.mem_cons_of_mem _ List.mem_cons_self)).then (.pure _))
    | tuple os =>
      have hc : typeCodes.lookup ((0x0031 : Nat) : Int) = some .tuple := rfl
      refine (consumes_short (by norm_num)).bind ?_
      refine (consumes_short hft).bind ?_
      rw [Int.toNat_natCast, TypeOption.allBytes_eq, TypeOption.type, TypeOption.types_eq]
      exact (Consumes.times _ _ os hr).then (.pure _)
    | user ks name names os =>
      have hc : typeCodes.lookup ((0x0030 : Nat) : Int) = some .user := rfl
      obtain ⟨hks, hnm, hne, hlen, hcn, hnames⟩ := hft
      refine (consumes_short (by norm_num)).bind ?_
      refine (consumes_string hks).bind ((consumes_string hnm).bind ((consumes_short hcn).bind ?_))
      have hzip : (names.zip os).length = names.length := by
        rw [List.length_zip]
        omega
      rw [Int.toNat_natCast, TypeOption.fieldBytes_eq, ← hzip]
      refine (Consumes.times _ (fun f => (f.1, f.2.type env)) _ fun f hf => ?_).then ?_
      · obtain ⟨hn, ho⟩ := List.of_mem_zip hf
        exact (consumes_string (hnames _ hn)).bind ((hr _ ho).then (.pure _))
      have hfst : ((names.zip os).map fun f => (f.1, f.2.type env)).map Prod.fst = names := by
        rw [List.map_map]
        exact List.map_fst_zip hlen.le
      have hsnd : ((names.zip os).map fun f => (f.1, f.2.type env)).map Prod.snd = TypeOption.types env os := by
        rw [List.map_map, TypeOption.types_eq]
        conv_rhs => rw [← List.map_snd_zip hlen.ge, List.map_map]
        rfl
      have hfl : ((names.zip os).map fun f => (f.1, f.2.type env)).isEmpty = false := by
        rw [List.isEmpty_eq_false_iff]
        intro hnil
        rw [hnil] at hfst
        exact hne hfst.symm
      rw [hfl, hfst, hsnd]
      refine Consumes.bind_nil (.pure _) (consumes_makeUdtClass env ks name ?_)
      rw [hlen, TypeOption.types_eq, List.length_map]

theorem consumes_type (h : o.Ok env) : Consumes (readType env) o.bytes (o.type env) := by
  intro rest cache
  refine consumes_typeDepth env h _ ?_ rest cache
  rw [List.length_append]
  omega

end Types

/-! ## Metadata -/

/-- <metadata> without the flags, the counts, the paging state and the id -/
inductive Metadata
  | global (keyspace table : Text) (columns : List (Text × TypeOption))
  | perColumn (columns : List ((Text × Text) × Text × TypeOption))
  | absent (count : Nat)

namespace Metadata

variable {M V : Type} (env : Env M V)

def isGlobal : Metadata → Bool
  | .global _ _ _ => true
  | _ => false

def isAbsent : Metadata → Bool
  | .absent _ => true
  | _ => false

def count : Metadata → Nat
  | .global _ _ columns => columns.length
  | .perColumn columns => columns.length
  | .absent count => count

def bytes : Metadata → Bytes
  | .global keyspace table columns =>
    stringBytes keyspace ++ stringBytes table ++ columns.flatMap fun c => stringBytes c.1 ++ c.2.bytes
  | .perColumn columns =>
    columns.flatMap fun c => stringBytes c.1.1 ++ stringBytes c.1.2 ++ (stringBytes c.2.1 ++ c.2.2.bytes)
  | .absent _ => []

def columns : Metadata → List (Column M)
  | .global keyspace table columns => columns.map fun c => ⟨keyspace, table, c.1, c.2.type env⟩
  | .perColumn columns => columns.map fun c => ⟨c.1.1, c.1.2, c.2.1, c.2.2.type env⟩
  | .absent _ => []

def Ok (m : Metadata) : Prop :=
  m.count < 2 ^ 31 ∧
    match m with
    | .global keyspace table columns =>
      IsString keyspace ∧ IsString table ∧ columns ≠ [] ∧ ∀ c ∈ columns, IsString c.1 ∧ c.2.Ok env
    | .perColumn columns =>
      columns ≠ [] ∧ ∀ c ∈ columns, IsString c.1.1 ∧ IsString c.1.2 ∧ IsString c.2.1 ∧ c.2.2.Ok env
    | .absent _ => True

end Metadata

inductive WireValue
  | null (size : Int)
  | bytes (b : Bytes)

namespace WireValue

def encoded : WireValue → Bytes
  | .null size => intBytes size
  | .bytes b => bytesBytes b

def contents : WireValue → Option Bytes
  | .null _ => none
  | .bytes b => some b

def Ok : WireValue → Prop
  | .null size => IsInt size ∧ size < 0
  | .bytes b => b.length < 2 ^ 31

end WireValue

structure RowsBody where
  pagingState : Option Bytes
  metadataId : Option Bytes
  metadata : Metadata
  rows : List (List WireValue)

namespace RowsBody

def flags (body : RowsBody) : Int :=
  (if body.metadata.isGlobal then 1 else 0) + (if body.pagingState.isSome then 2 else 0) +
    (if body.metadata.isAbsent then 4 else 0) + (if body.metadataId.isSome then 8 else 0)

def metadataBytes (body : RowsBody) : Bytes :=
  intBytes body.flags ++ (intBytes body.metadata.count ++
    ((body.pagingState.map bytesBytes).getD [] ++ ((body.metadataId.map shortBytesBytes).getD [] ++ body.metadata.bytes)))

def rowBytes (row : List WireValue) : Bytes := row.flatMap WireValue.encoded

def bytes (body : RowsBody) : Bytes :=
  intBytes 0x0002 ++ (body.metadataBytes ++ (intBytes body.rows.length ++ body.rows.flatMap rowBytes))

end RowsBody

section Rows

variable {M V : Type} (env : Env M V)

theorem hasFlag_flags (body : RowsBody) : hasFlag body.flags flagsGlobalTablesSpec = body.metadata.isGlobal ∧
      hasFlag body.flags hasMorePagesFlag = body.pagingState.isSome ∧
      hasFlag body.flags noMetadataFlag = body.metadata.isAbsent ∧
      hasFlag body.flags metadataIdFlag = body.metadataId.isSome := by
  unfold RowsBody.flags
  generalize body.metadata.isGlobal = g
  generalize body.pagingState.isSome = p
  generalize body.metadata.isAbsent = a
  generalize body.metadataId.isSome = i
  revert g p a i
  decide

theorem isInt_flags {body : RowsBody} : IsInt body.flags := by
  unfold RowsBody.flags IsInt
  split <;> split <;> split <;> split <;> norm_num

theorem consumes_globalSpec {flags : Int} {ks tb : Text} (hf : hasFlag flags flagsGlobalTablesSpec)
    (hks : IsString ks) (ht : IsString tb) :
    Consumes (readGlobalSpec flags : Reader (UdtCache M) _) (stringBytes ks ++ stringBytes tb) (some (ks, tb)) := by
  rw [readGlobalSpec, if_pos hf]
  exact (consumes_string hks).bind ((consumes_string ht).then (.pure _))

variable {names : Text × Text}

theorem consumes_column {glob : Option (Text × Text)} {b : Bytes} {name : Text} {o : TypeOption}
    (hnm : Consumes (readTableNames glob : Reader (UdtCache M) _) b names) (hn : IsString name) (ho : o.Ok env) :
    Consumes (readColumn env glob) (b ++ (stringBytes name ++ o.bytes)) ⟨names.1, names.2, name, o.type env⟩ :=
  hnm.bind ((consumes_string hn).bind ((consumes_type env ho).then (.pure _)))

theorem consumes_tableNames (hks : IsString names.1) (ht : IsString names.2) :
    Consumes (readTableNames none : Reader (UdtCache M) _) (stringBytes names.1 ++ stringBytes names.2) names :=
  (consumes_string hks).bind ((consumes_string ht).then (.pure _))

theorem consumes_metadata {body : RowsBody} (hpg : ∀ b ∈ body.pagingState, b.length < 2 ^ 31)
    (hid : ∀ b ∈ body.metadataId, b.length < 2 ^ 16) (hmt : body.metadata.Ok env) :
    Consumes (recvResultsMetadata env) body.metadataBytes
      (body.pagingState, body.metadata.columns env, body.metadataId) := by
  obtain ⟨hg, hp, ha, hi⟩ := hasFlag_flags body
  obtain ⟨hcn, hmt⟩ := hmt
  refine (consumes_int isInt_flags).bind ((consumes_int (isInt_natCast hcn)).bind ?_)
  rw [hp, hi, ha]
  refine Consumes.bind (Consumes.optional fun b hb => consumes_binaryLongstring (hpg b hb)) ?_
  refine Consumes.bind (Consumes.optional fun b hb => consumes_binaryString (hid b hb)) ?_
  cases hm : body.metadata with
  | absent count => exact .pure _
  | global ks tb cols =>
    rw [hm] at hmt hg
    obtain ⟨hks, ht, -, hcl⟩ := hmt
    have hnm : Consumes (readTableNames (some (ks, tb)) : Reader (UdtCache M) _) [] (ks, tb) :=
      .pure _
    have hr : ∀ c ∈ cols, Consumes (readColumn env (some (ks, tb))) (stringBytes c.1 ++ c.2.bytes)
        ⟨ks, tb, c.1, c.2.type env⟩ := fun c hc => consumes_column env hnm (hcl c hc).1 (hcl c hc).2
    exact (consumes_globalSpec hg hks ht).bind ((Consumes.times _ _ cols hr).then (.pure _))
  | perColumn cols =>
    rw [hm] at hmt hg
    obtain ⟨-, hcl⟩ := hmt
    have hs : Consumes (readGlobalSpec body.flags : Reader (UdtCache M) _) [] none := by
      rw [readGlobalSpec, hg]
      exact .pure none
    have hr : ∀ c ∈ cols, Consumes (readColumn env none)
        (stringBytes c.1.1 ++ stringBytes c.1.2 ++ (stringBytes c.2.1 ++ c.2.2.bytes))
        ⟨c.1.1, c.1.2, c.2.1, c.2.2.type env⟩ := by
      intro c hc
      obtain ⟨hks, ht, hn, htp⟩ := hcl c hc
      exact consumes_column env (consumes_tableNames hks ht) hn htp
    exact hs.bind_nil ((Consumes.times _ _ cols hr).then (.pure _))

/-! ## The whole body -/

theorem consumes_wireValue {σ : Type} {v : WireValue} (h : v.Ok) :
    Consumes (readValue : Reader σ (Option Bytes)) v.encoded v.contents := by
  cases v with
  | null size => exact consumes_null h.1 h.2
  | bytes b => exact consumes_value h

def RowsBody.columns (body : RowsBody) (resultMetadata : Option (List (Column M))) : List (Column M) :=
  if body.metadata.isAbsent then resultMetadata.getD [] else body.metadata.columns env

def RowsBody.typedRow (body : RowsBody) (resultMetadata : Option (List (Column M))) (row : List WireValue) :
    List (ColType M × Option Bytes) :=
  ((body.columns env resultMetadata).map Column.type).zip (row.map WireValue.contents)

/-- The sizes fit, rows are complete, and the values can be decoded. -/
structure RowsBody.Ok (p : Nat) (resultMetadata : Option (List (Column M))) (body : RowsBody) : Prop where
  paging : ∀ b ∈ body.pagingState, b.length < 2 ^ 31
  metadataId : ∀ b ∈ body.metadataId, b.length < 2 ^ 16
  metadata : body.metadata.Ok env
  columns : body.metadata.isAbsent → ∃ columns, resultMetadata = some columns ∧ columns ≠ []
  count : body.rows.length < 2 ^ 31
  row : ∀ row ∈ body.rows, row.length = (body.columns env resultMetadata).length
  values : ∀ row ∈ body.rows, ∀ v ∈ row, v.Ok
  decodes : ∀ row ∈ body.rows, ∀ c ∈ body.typedRow env resultMetadata row, (fromBinary env c.1 c.2 p).isSome

variable {env} {p : Nat} {resultMetadata : Option (List (Column M))} {body : RowsBody}

section

variable (h : body.Ok env p resultMetadata)
include h

theorem RowsBody.Ok.columns_or :
    (if (body.metadata.columns env).isEmpty then resultMetadata else some (body.metadata.columns env)) =
      some (body.columns env resultMetadata) := by
  have hmt := h.metadata
  have habs := h.columns
  unfold RowsBody.columns
  cases hm : body.metadata with
  | absent count =>
    rw [hm] at habs
    obtain ⟨columns, rfl, -⟩ := habs rfl
    rfl
  | global ks tb columns =>
    rw [hm] at hmt
    obtain ⟨-, -, -, hne, -⟩ := hmt
    obtain ⟨c, columns, rfl⟩ := List.exists_cons_of_ne_nil hne
    rfl
  | perColumn columns =>
    rw [hm] at hmt
    obtain ⟨-, hne, -⟩ := hmt
    obtain ⟨c, columns, rfl⟩ := List.exists_cons_of_ne_nil hne
    rfl

theorem RowsBody.Ok.parsed : ∃ parsedRows,
    (body.rows.mapM fun row => (body.typedRow env resultMetadata row).mapM fun c => fromBinary env c.1 c.2 p) =
      some parsedRows :=
  Option.isSome_iff_exists.mp (mapM_isSome.mpr fun row hrow => mapM_isSome.mpr (h.decodes row hrow))

theorem consumes_rows {pr : List (List (Cell V))}
    (hp : (body.rows.mapM fun row => (body.typedRow env resultMetadata row).mapM fun c => fromBinary env c.1 c.2 p) =
      some pr) : Consumes (recvResultsRows env p resultMetadata)
      (body.metadataBytes ++ (intBytes body.rows.length ++ body.rows.flatMap RowsBody.rowBytes))
      (body.pagingState, (body.columns env resultMetadata).map Column.type,
        .rows ((body.columns env resultMetadata).map Column.name) pr, body.metadataId) := by
  have hrow : ∀ row ∈ body.rows, Consumes (recvRow (body.columns env resultMetadata).length : Reader (UdtCache M) _)
      (RowsBody.rowBytes row) (row.map WireValue.contents) := by
    intro row hrow
    rw [← h.row row hrow]
    exact Consumes.times _ _ row fun v hv => consumes_wireValue (h.values row hrow v hv)
  refine (consumes_metadata env h.paging h.metadataId h.metadata).bind ?_
  refine Consumes.bind_nil (.lift h.columns_or) ?_
  refine (consumes_int (isInt_natCast h.count)).bind ?_
  refine (Consumes.times _ _ body.rows hrow).then ?_
  refine Consumes.bind_nil (.lift ?_) (.pure _)
  rw [List.mapM_map]
  exact hp

end

/-- Paging state, columns and rows come back, and nothing is left. -/
theorem recvBody_rows (env : Env M V) (p : Nat) (resultMetadata : Option (List (Column M))) (body : RowsBody)
    (h : body.Ok env p resultMetadata) (cache : UdtCache M) :
    ∃ parsedRows cache', recvBody env p resultMetadata (body.bytes, cache) =
        some (⟨0x0002, .rows ((body.columns env resultMetadata).map Column.name) parsedRows, body.pagingState,
          some ((body.columns env resultMetadata).map Column.type)⟩, [], cache') ∧ List.Forall₂ (fun row parsed =>
        List.Forall₂ (fun c v => fromBinary env c.1 c.2 p = some v) (body.typedRow env resultMetadata row) parsed)
        body.rows parsedRows := by
  obtain ⟨parsedRows, hp⟩ := h.parsed
  have hk : Consumes (recvBody env p resultMetadata) body.bytes
      ⟨0x0002, .rows ((body.columns env resultMetadata).map Column.name) parsedRows, body.pagingState,
        some ((body.columns env resultMetadata).map Column.type)⟩ := by
    refine (consumes_int ⟨by norm_num, by norm_num⟩).bind ?_
    exact (consumes_rows h hp).then (.pure _)
  obtain ⟨cache', hrun⟩ := hk [] cache
  rw [List.append_nil] at hrun
  refine ⟨parsedRows, cache', hrun, ?_⟩
  exact (mapM_eq_some.mp hp).imp fun row parsed hrow => mapM_eq_some.mp hrow

def rawEnv : Env Unit Bytes where
  userTypeMap := Dict.empty
  lookupCasstype _ := none
  sameTypes _ _ := false
  sameTypes_eq _ _ h := nomatch h
  emptyBinaryOk _ := true
  supportEmptyValues _ := false
  deserialize _ b _ := some b
  lower := id

def twoRows : RowsBody where
  pagingState := some [7]
  metadataId := none
  metadata := .global ['k'] ['t'] [(['c'], .user ['k'] ['u'] [['f']] [.list (.simple .int32)])]
  rows := [[.bytes [0, 0, 0, 0]], [.null (-1)]]

theorem recvBody_twoRows :
    twoRows.Ok rawEnv 4 none ∧ ∃ parsedRows cache', recvBody rawEnv 4 none (twoRows.bytes, ⟨Dict.empty, nofun⟩) =
        some (⟨0x0002, .rows [['c']] parsedRows, some [7],
          some [.user ['k'] ['u'] [['f']] [.list (.simple .int32)] none]⟩, [], cache') := by
  have hl (c : Char) : IsString [c] := by
    have := c.utf8Size_le_four
    simp [IsString, utf8Encode]
    omega
  have hint : (TypeOption.simple .int32).Ok rawEnv := .of_inner trivial nofun
  have hls : (TypeOption.list (.simple .int32)).Ok rawEnv := .of_inner trivial (by simpa [TypeOption.inner] using hint)
  have hu : (TypeOption.user ['k'] ['u'] [['f']] [.list (.simple .int32)]).Ok rawEnv :=
    .of_inner (by simp [TypeOption.Fits, hl]) (by simpa [TypeOption.inner] using hls)
  have hok : twoRows.Ok rawEnv 4 none := by
    constructor
    case paging => simp [twoRows]
    case metadata => simp [twoRows, Metadata.Ok, Metadata.count, hl, hu]
    case values => simp [twoRows, WireValue.Ok, IsInt]
    case decodes =>
      rintro - - ⟨t, _ | b⟩ - <;> simp [fromBinary, rawEnv]
    all_goals simp [twoRows, Metadata.isAbsent, RowsBody.columns, Metadata.columns]
  obtain ⟨parsedRows, cache', hrun, -⟩ := recvBody_rows rawEnv 4 none twoRows hok ⟨Dict.empty, nofun⟩
  exact ⟨hok, parsedRows, cache', hrun⟩

end Rows

end CqlDriver.Protocol
