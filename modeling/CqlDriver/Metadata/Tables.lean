import CqlDriver.Lib.Dict
import CqlDriver.Lib.Run
import CqlDriver.Lib.Union

/-! # Tables, indexes and views of a keyspace -/

namespace CqlDriver.Metadata

open Lib Option Dict

structure IndexMetadata (ι : Type) where
  tableName : String
  name : String
  rest : ι

structure MaterializedViewMetadata (ν : Type) where
  name : String
  baseTableName : String
  rest : ν

structure TableMetadata (ι ν : Type) where
  name : String
  indexes : Dict String (IndexMetadata ι)
  views : Dict String (MaterializedViewMetadata ν)

/-- Its indexes are under their own names; views are not queried with it. -/
structure ParsedTable (ι : Type) where
  name : String
  indexes : Dict String (IndexMetadata ι)
  indexed : ∀ n index, indexes.get? n = some index → index.tableName = name ∧ index.name = n

structure KeyspaceMaps (ι ν : Type) where
  tables : Dict String (TableMetadata ι ν)
  indexes : Dict String (IndexMetadata ι)
  views : Dict String (MaterializedViewMetadata ν)

section Model

variable {ι ν : Type}

def ParsedTable.metadata (t : ParsedTable ι) : TableMetadata ι ν := ⟨t.name, t.indexes, Dict.empty⟩

namespace KeyspaceMaps

def init : KeyspaceMaps ι ν := ⟨Dict.empty, Dict.empty, Dict.empty⟩

def addTableMetadata (ks : KeyspaceMaps ι ν) (tableMetadata : TableMetadata ι ν) : KeyspaceMaps ι ν :=
  match ks.tables.get? tableMetadata.name with
  | some oldMeta =>
    { ks with
      indexes := (ks.indexes.setAll tableMetadata.indexes.entries).eraseAll
        (oldMeta.indexes.keys.filter (· ∉ tableMetadata.indexes.keys))
      tables := ks.tables.set tableMetadata.name { tableMetadata with views := oldMeta.views } }
  | none =>
    { ks with
      indexes := ks.indexes.setAll tableMetadata.indexes.entries
      tables := ks.tables.set tableMetadata.name tableMetadata }

/-- A drop does not tell tables from views. -/
def dropTableMetadata (ks : KeyspaceMaps ι ν) (tableName : String) : KeyspaceMaps ι ν :=
  match ks.tables.get? tableName with
  | some tableMeta =>
    { tables := ks.tables.erase tableName
      indexes := ks.indexes.eraseAll tableMeta.indexes.keys
      views := ks.views.eraseAll tableMeta.views.keys }
  | none =>
    match ks.views.get? tableName with
    | some viewMeta =>
      match ks.tables.get? viewMeta.baseTableName with
      | some base =>
        { ks with
          views := ks.views.erase tableName
          tables := ks.tables.set viewMeta.baseTableName { base with views := base.views.erase tableName } }
      | none => { ks with views := ks.views.erase tableName }
    | none => ks

def addViewMetadata (ks : KeyspaceMaps ι ν) (viewMetadata : MaterializedViewMetadata ν) : KeyspaceMaps ι ν :=
  match ks.tables.get? viewMetadata.baseTableName with
  | some base =>
    { ks with
      tables := ks.tables.set viewMetadata.baseTableName
        { base with views := base.views.set viewMetadata.name viewMetadata }
      views := ks.views.set viewMetadata.name viewMetadata }
  | none => ks

end KeyspaceMaps

inductive TableOp (ι ν : Type)
  | addTable (t : ParsedTable ι)
  | addView (view : MaterializedViewMetadata ν)
  | dropTable (name : String)

def tableStep (ks : KeyspaceMaps ι ν) : TableOp ι ν → KeyspaceMaps ι ν
  | .addTable t => ks.addTableMetadata t.metadata
  | .addView view => ks.addViewMetadata view
  | .dropTable name => ks.dropTableMetadata name

/-- Index names are unique, and no view is named like a table. -/
structure ServerKeyspace (ι ν : Type) where
  tables : Dict String (ParsedTable ι)
  views : Dict String (MaterializedViewMetadata ν)
  index_unique : ∀ t t' table table' index, tables.get? t = some table → tables.get? t' = some table' →
    index ∈ table.indexes.keys → index ∈ table'.indexes.keys → t = t'
  not_both : ∀ name ∈ views.keys, name ∉ tables.keys

/-- `get_table` finds a table or a view of this name, or nothing. -/
def ServerKeyspace.refresh (server : ServerKeyspace ι ν) (name : String) : TableOp ι ν :=
  match server.tables.get? name with
  | some t => .addTable t
  | none =>
    match server.views.get? name with
    | some view => .addView view
    | none => .dropTable name

end Model

section Agreement

variable {ι ν : Type}

namespace KeyspaceMaps

structure Agree (ks : KeyspaceMaps ι ν) : Prop where
  found : ∀ table t name index, ks.tables.get? table = some t → t.indexes.get? name = some index →
    ks.indexes.get? name = some index
  owned : ∀ name index, ks.indexes.get? name = some index →
    ∃ table t, ks.tables.get? table = some t ∧ t.indexes.get? name = some index
  views : ∀ name view, ks.views.get? name = some view ↔
    ∃ table t, ks.tables.get? table = some t ∧ t.views.get? name = some view

end KeyspaceMaps

def partOf {α : Type} (part : TableMetadata ι ν → Dict String α) (tables : Dict String (TableMetadata ι ν))
    (table name : String) : Option α :=
  (tables.get? table).bind fun t => (part t).get? name

variable {name table : String} {α : Type} {part : TableMetadata ι ν → Dict String α}
  {tables : Dict String (TableMetadata ι ν)} {t : TableMetadata ι ν}

theorem partOf_eq_some {a : α} :
    partOf part tables table name = some a ↔ ∃ t, tables.get? table = some t ∧ (part t).get? name = some a :=
  bind_eq_some_iff

theorem partOf_of_get? (part : TableMetadata ι ν → Dict String α) (h : tables.get? table = some t) :
    partOf part tables table = (part t).get? := by
  funext name
  rw [partOf, h, bind_some]

theorem partOf_of_none {part : TableMetadata ι ν → Dict String α} (h : tables.get? table = none) :
    partOf part tables table = fun _ => none := by
  funext name
  rw [partOf, h, bind_none]

theorem partOf_set (part : TableMetadata ι ν → Dict String α) {tables : Dict String (TableMetadata ι ν)}
    {table : String} {t : TableMetadata ι ν} :
    partOf part (tables.set table t) = Function.update (partOf part tables) table (part t).get? := by
  funext other name
  rw [partOf, get?_set, Function.update_apply]
  split
  · rfl
  · rfl

theorem partOf_erase {part : TableMetadata ι ν → Dict String α} {tables : Dict String (TableMetadata ι ν)}
    {table : String} : partOf part (tables.erase table) = Function.update (partOf part tables) table fun _ => none := by
  funext other name
  rw [partOf, get?_erase, Function.update_apply]
  split
  · rfl
  · rfl

namespace KeyspaceMaps

theorem agree_iff {ks : KeyspaceMaps ι ν} :
    ks.Agree ↔ IsUnion ks.indexes.get? (partOf TableMetadata.indexes ks.tables) ∧
      IsUnion ks.views.get? (partOf TableMetadata.views ks.tables) := by
  simp only [IsUnion, partOf_eq_some]
  constructor
  · rintro ⟨hf, ho, hv⟩
    refine ⟨fun name idx => ⟨ho name idx, ?_⟩, hv⟩
    rintro ⟨table, t, ht, hindex⟩
    exact hf table t name idx ht hindex
  rintro ⟨hindex, hv⟩
  exact ⟨fun table t name idx ht hi => (hindex name idx).mpr ⟨table, t, ht, hi⟩,
    fun name idx => (hindex name idx).mp, hv⟩

structure Placed (ks : KeyspaceMaps ι ν) : Prop where
  index : ∀ table name index, partOf TableMetadata.indexes ks.tables table name = some index → index.tableName = table
  view : ∀ table name view, partOf TableMetadata.views ks.tables table name = some view → view.baseTableName = table

variable {ks ks' : KeyspaceMaps ι ν} {t : TableMetadata ι ν} {table : String}

theorem Placed.set (h : ks.Placed) (ht : ks'.tables = ks.tables.set table t)
    (hindex : ∀ name idx, t.indexes.get? name = some idx → idx.tableName = table)
    (hvw : ∀ name view, t.views.get? name = some view → view.baseTableName = table) : ks'.Placed := by
  constructor
  · intro other name idx hi
    rw [ht, partOf_set, Function.update_apply] at hi
    split at hi
    · rename_i ho
      rw [ho]
      exact hindex name idx hi
    · exact h.index other name idx hi
  intro other name view hv
  rw [ht, partOf_set, Function.update_apply] at hv
  split at hv
  · rename_i ho
    rw [ho]
    exact hvw name view hv
  · exact h.view other name view hv

theorem Placed.erase (h : ks.Placed) (ht : ks'.tables = ks.tables.erase table) : ks'.Placed := by
  constructor
  · intro other name idx hi
    rw [ht, partOf_erase, Function.update_apply] at hi
    split at hi
    · cases hi
    · exact h.index other name idx hi
  intro other name view hv
  rw [ht, partOf_erase, Function.update_apply] at hv
  split at hv
  · cases hv
  · exact h.view other name view hv

theorem Placed.of_get? (h : ks.Placed) (ht : ks.tables.get? table = some t) :
    (∀ name idx, t.indexes.get? name = some idx → idx.tableName = table) ∧
      ∀ name view, t.views.get? name = some view → view.baseTableName = table :=
  ⟨fun name idx hi => h.index table name idx (partOf_eq_some.mpr ⟨t, ht, hi⟩),
    fun name view hv => h.view table name view (partOf_eq_some.mpr ⟨t, ht, hv⟩)⟩

end KeyspaceMaps

open KeyspaceMaps

theorem placed_tableStep (ks : KeyspaceMaps ι ν) (op : TableOp ι ν) (h : ks.Placed) : (tableStep ks op).Placed := by
  cases op with
  | addTable t =>
    have hindex (name : String) (idx : IndexMetadata ι) (hi : t.indexes.get? name = some idx) :
        idx.tableName = t.name := (t.indexed name idx hi).1
    rw [tableStep, addTableMetadata]
    split
    · rename_i old hold
      exact h.set rfl hindex (h.of_get? hold).2
    · exact h.set rfl hindex nofun
  | addView view =>
    rw [tableStep, addViewMetadata]
    split
    · rename_i base hb
      refine h.set rfl (h.of_get? hb).1 fun name view' hv => ?_
      rw [get?_set] at hv
      split at hv
      · rw [some.inj hv]
      · exact (h.of_get? hb).2 name view' hv
    · exact h
  | dropTable name =>
    rw [tableStep, dropTableMetadata]
    split
    · exact h.erase rfl
    split
    · split
      · rename_i view _ base hb
        refine h.set rfl (h.of_get? hb).1 fun other view' hv => ?_
        rw [get?_erase] at hv
        split at hv
        · cases hv
        · exact (h.of_get? hb).2 other view' hv
      · exact ⟨h.index, h.view⟩
    · exact h

/-! ## What a step needs -/

/-- No other table has an index or a view of this name. -/
def TableOp.Clear (ks : KeyspaceMaps ι ν) : TableOp ι ν → Prop
  | .addTable t => ∀ other ∈ ks.tables.entries, other.1 ≠ t.name → ∀ name ∈ t.indexes.keys, name ∉ other.2.indexes.keys
  | .addView view => view.baseTableName ∈ ks.tables.keys →
    ∀ other ∈ ks.tables.entries, other.1 ≠ view.baseTableName → view.name ∉ other.2.views.keys
  | .dropTable _ => True

instance decidableClear (ks : KeyspaceMaps ι ν) : ∀ op : TableOp ι ν, Decidable (op.Clear ks)
  | .addTable t => inferInstanceAs (Decidable (∀ other ∈ ks.tables.entries, other.1 ≠ t.name →
      ∀ name ∈ t.indexes.keys, name ∉ other.2.indexes.keys))
  | .addView view => inferInstanceAs (Decidable (view.baseTableName ∈ ks.tables.keys →
      ∀ other ∈ ks.tables.entries, other.1 ≠ view.baseTableName → view.name ∉ other.2.views.keys))
  | .dropTable _ => isTrue trivial

theorem partOf_eq_none {other : String} :
    partOf part tables other name = none ↔ ∀ table, (other, table) ∈ tables.entries → name ∉ (part table).keys := by
  simp only [partOf, bind_eq_none_iff, get?_eq_none, get?_eq_some]

theorem partOf_set_same {t' : TableMetadata ι ν} (ht : tables.get? table = some t) (hs : part t' = part t) :
    partOf part (tables.set table t') = partOf part tables := by
  rw [partOf_set, hs, Function.update_eq_self_iff, partOf_of_get? _ ht]

section Steps

variable {ks : KeyspaceMaps ι ν}

theorem indexes_addTable_iff (hp : ks.Placed) (hu : IsUnion ks.indexes.get? (partOf TableMetadata.indexes ks.tables))
    {t : ParsedTable ι} : IsUnion (ks.addTableMetadata t.metadata).indexes.get?
        (partOf TableMetadata.indexes (ks.addTableMetadata t.metadata).tables) ↔ TableOp.Clear ks (.addTable t) := by
  have hset (k : String) : (ks.indexes.setAll t.indexes.entries).get? k = (t.indexes.get? k).or (ks.indexes.get? k) :=
    get?_setAll t.indexes.nodup ks.indexes k
  have hm (k : String) (idx : IndexMetadata ι) (hk : t.indexes.get? k = some idx) : idx.tableName = t.name :=
    (t.indexed k idx hk).1
  have hc : (∀ other, other ≠ t.name → ∀ k, (t.indexes.get? k).isSome →
      partOf TableMetadata.indexes ks.tables other k = none) ↔ TableOp.Clear ks (TableOp.addTable t : TableOp ι ν) := by
    simp only [partOf_eq_none, get?_isSome]
    constructor
    · intro h other ho hne k hk
      exact h other.1 hne k hk other.2 ho
    intro h other hne k hk table ht
    exact h _ ht hne k hk
  refine Iff.trans ?_ hc
  rw [addTableMetadata]
  split
  · rename_i old hold
    -- the indexes that are not there any more have been removed
    have hget (k : String) : ((ks.indexes.setAll t.indexes.entries).eraseAll
        (old.indexes.keys.filter (· ∉ t.indexes.keys))).get? k =
          if k ∈ old.indexes.keys ∧ k ∉ t.indexes.keys then none else (t.indexes.get? k).or (ks.indexes.get? k) := by
      simp [get?_eraseAll, hset]
    have hpr := partOf_of_get? TableMetadata.indexes hold
    rw [partOf_set]
    refine hu.update_iff hp.index hm ?_ ?_ ?_
    · intro k idx (hk : t.indexes.get? k = some idx)
      refine (hget k).trans ?_
      rw [if_neg (fun h => h.2 (mem_keys_of_get? hk)), hk, some_or]
    · intro k (hk : t.indexes.get? k = none) hin
      refine (hget k).trans (if_pos ⟨?_, (get?_eq_none ..).mp hk⟩)
      rw [← get?_isSome, ← hpr]
      exact hin
    intro k (hk : t.indexes.get? k = none) hout
    refine (hget k).trans ?_
    rw [if_neg (fun h => (get?_eq_none ..).mp (by rw [← hpr]; exact hout) h.1), hk, none_or]
  rename_i hnn
  rw [partOf_set]
  refine hu.update_iff hp.index hm ?_ ?_ ?_
  · intro k idx (hk : t.indexes.get? k = some idx)
    refine (hset k).trans ?_
    rw [hk, some_or]
  · intro k _ hin
    rw [partOf_of_none hnn] at hin
    cases hin
  intro k (hk : t.indexes.get? k = none) _
  refine (hset k).trans ?_
  rw [hk, none_or]

theorem views_addTable (hu : IsUnion ks.views.get? (partOf TableMetadata.views ks.tables)) {t : ParsedTable ι} :
    IsUnion (ks.addTableMetadata t.metadata).views.get?
      (partOf TableMetadata.views (ks.addTableMetadata t.metadata).tables) := by
  rw [addTableMetadata]
  split
  · rename_i old hold
    rw [partOf_set_same hold]
    · exact hu
    · rfl
  rename_i hnn
  rw [partOf_set, Function.update_eq_self_iff.mpr]
  · exact hu
  · exact (partOf_of_none hnn).symm

theorem agree_addView_iff (hp : ks.Placed) (ha : ks.Agree) (view : MaterializedViewMetadata ν) :
    (ks.addViewMetadata view).Agree ↔ TableOp.Clear ks (.addView view) := by
  rw [addViewMetadata]
  split
  · rename_i base hb
    rw [agree_iff] at ha ⊢
    rw [partOf_set TableMetadata.views, partOf_set_same hb, and_iff_right ha.1]
    swap
    · rfl
    refine (ha.2.update_key_iff hp.view (x := some view) ?_ nofun ?_ fun k => get?_set ..).trans ?_
    · rintro v hv
      rw [← some.inj hv]
    · intro k
      rw [partOf_of_get? _ hb]
      exact get?_set ..
    simp only [isSome_some, forall_const, TableOp.Clear, partOf_eq_none, forall_prop_of_true (mem_keys_of_get? hb)]
    constructor
    · intro h other ho hne
      exact h other.1 hne other.2 ho
    intro h other hne table ht
    exact h _ ht hne
  rename_i hnn
  refine iff_of_true ha fun hb => ?_
  exact absurd hb ((get?_eq_none ..).mp hnn)

theorem agree_dropTable (hp : ks.Placed) (ha : ks.Agree) {name : String} : (ks.dropTableMetadata name).Agree := by
  rw [dropTableMetadata]
  split
  · rename_i t ht
    have hg {α : Type} (part : TableMetadata ι ν → Dict String α) (d : Dict String α) (k : String)
        (hk : (partOf part ks.tables name k).isSome) : (d.eraseAll (part t).keys).get? k = none := by
      rw [partOf_of_get? _ ht, get?_isSome] at hk
      rw [get?_eraseAll, if_pos hk]
    have hr {α : Type} (part : TableMetadata ι ν → Dict String α) (d : Dict String α) (k : String)
        (hk : partOf part ks.tables name k = none) : (d.eraseAll (part t).keys).get? k = d.get? k := by
      rw [partOf_of_get? _ ht, get?_eq_none] at hk
      rw [get?_eraseAll, if_neg hk]
    rw [agree_iff] at ha ⊢
    rw [partOf_erase, partOf_erase]
    exact ⟨ha.1.remove hp.index (hg _ _) (hr _ _), ha.2.remove hp.view (hg _ _) (hr _ _)⟩
  split
  · rename_i view hv
    obtain ⟨table, base, hb, hin⟩ := (ha.views name view).mp hv
    rw [(hp.of_get? hb).2 name view hin, hb]
    rw [agree_iff] at ha ⊢
    rw [partOf_set TableMetadata.views, partOf_set_same hb, and_iff_right ha.1]
    swap
    · rfl
    refine (ha.2.update_key_iff hp.view (x := none) nofun ?_ ?_ fun k => get?_erase ..).mpr nofun
    · intro _
      rw [partOf_of_get? _ hb, hin]
      rfl
    intro k
    rw [partOf_of_get? _ hb]
    exact get?_erase ..
  · exact ha

theorem agree_tableStep_iff {op : TableOp ι ν} (hp : ks.Placed) (ha : ks.Agree) :
    (tableStep ks op).Agree ↔ op.Clear ks := by
  cases op with
  | addTable t =>
    obtain ⟨hi, hv⟩ := agree_iff.mp ha
    rw [tableStep, agree_iff, and_iff_left (views_addTable hv)]
    exact indexes_addTable_iff hp hi
  | addView view => exact agree_addView_iff hp ha view
  | dropTable name => exact iff_of_true (agree_dropTable hp ha) trivial

end Steps

/-- The maps agree throughout exactly if no name moves while still in use. -/
theorem maps_agree_iff (ops : List (TableOp ι ν)) :
    (∀ done, done <+: ops → (run tableStep KeyspaceMaps.init done).Agree) ↔
      RunOk tableStep (fun ks op => op.Clear ks) KeyspaceMaps.init ops := by
  refine run_invariant_iff placed_tableStep (fun ks op => agree_tableStep_iff) ?_ ?_
  · exact ⟨nofun, nofun⟩
  · exact ⟨nofun, nofun, by simp [KeyspaceMaps.init]⟩

/-! ## An index that moves -/

def plainTable (name : String) : ParsedTable Unit := ⟨name, Dict.empty, nofun⟩

def indexedTable (name index : String) : ParsedTable Unit where
  name := name
  indexes := Dict.empty.set index ⟨name, index, ()⟩
  indexed := by
    intro n i h
    rw [get?_set] at h
    split at h
    · rename_i hn
      rw [← Option.some.inj h]
      exact ⟨rfl, hn.symm⟩
    · cases h

def indexOn (table other : String) : ServerKeyspace Unit Unit where
  tables := (Dict.empty.set table (indexedTable table "by_name")).set other (plainTable other)
  views := Dict.empty
  index_unique := by
    have hon : ∀ t parsed index, ((Dict.empty.set table (indexedTable table "by_name")).set other
        (plainTable other)).get? t = some parsed → index ∈ parsed.indexes.keys → t = table := by
      intro t parsed index h hindex
      rw [get?_set, get?_set] at h
      split at h
      · rw [← Option.some.inj h] at hindex
        cases hindex
      · split at h
        · assumption
        · cases h
    intro t t' parsed parsed' index h h' hindex hindex'
    rw [hon t parsed index h hindex, hon t' parsed' index h' hindex']
  not_both := nofun

theorem moved_index_agrees :
    ∀ done, done <+: [(indexOn "users" "posts").refresh "users", (indexOn "users" "posts").refresh "posts",
        (indexOn "posts" "users").refresh "users", (indexOn "posts" "users").refresh "posts"] →
      (run tableStep KeyspaceMaps.init done).Agree :=
  (maps_agree_iff _).mpr (by decide)

/-- The new table is refreshed first, then the other removes the index. -/
theorem moved_index_lost : let ks := run tableStep KeyspaceMaps.init [(indexOn "users" "posts").refresh "users",
      (indexOn "users" "posts").refresh "posts", (indexOn "posts" "users").refresh "posts",
      (indexOn "posts" "users").refresh "users"]
    ((ks.tables.get? "posts").bind (·.indexes.get? "by_name")).isSome ∧ ks.indexes.get? "by_name" = none ∧ ¬ ks.Agree := by
  intro ks
  have hp : ((ks.tables.get? "posts").bind (·.indexes.get? "by_name")).isSome := by decide
  have hnn : ks.indexes.get? "by_name" = none := by rfl
  refine ⟨hp, hnn, fun h => ?_⟩
  obtain ⟨index, hindex⟩ := isSome_iff_exists.mp hp
  obtain ⟨posts, hget, hindex⟩ := bind_eq_some_iff.mp hindex
  have hf := h.found "posts" posts "by_name" index hget hindex
  cases hf

end Agreement

end CqlDriver.Metadata
