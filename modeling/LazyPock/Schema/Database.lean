import LazyPock.Rls.PolicySet
import LazyPock.Schema.Ddl
import Mathlib.Data.List.Flatten
import Mathlib.Data.List.Pairwise
import Mathlib.Data.List.Sort

/-!
# The database a server keeps its collections in

The metadata (`_collections` with its `_fields`), the relations and indexes of the schema and the
policies of its tables, with what each statement of `Ddl` does to them.

What the database decides by itself is a parameter, `Server`: whether it can compute a default,
build an index over the rows that are there, drop a column, check the condition of a policy, and what
columns a view's query has. The rows themselves are not modelled here.

## Main definitions

* `Server`, `Relation`, `Db`.
* `Db.exec`: a statement on the schema, `none` where it is refused.
* `Db.insertCollection`, `Db.insertField`, `Db.updateFieldRow`,
  `Db.deleteFieldRow`: the writes to the metadata.

## Main results

* `Db.exec_createTable` and its siblings: what each statement asks for and leaves behind.
* `Db.exec_metadata`: a statement on the schema leaves the metadata alone.
-/

namespace LazyPock

open Ddl List

/-! ### State -/

/-- A column of a view, as the reflection mapping reads it. -/
structure ViewColumn where
  name : String
  fieldType : FieldType
  options : Json
deriving DecidableEq

/-- A table or a view. -/
inductive Relation where
  | table (columns : List Column)
  | view (columns : List ViewColumn)
deriving DecidableEq

namespace Relation

def isTable : Relation → Bool
  | table _ => true
  | view _ => false

def columnNames : Relation → List String
  | table columns => columns.map Column.name
  | view columns => columns.map ViewColumn.name

end Relation

/-- The keys of the metadata: the id and the name of a collection, the id of a field, and the name of
a field within its collection. -/
structure Keyed (collections : List Collection) : Prop where
  ids : (collections.map Collection.id).Nodup
  names : (collections.map Collection.name).Nodup
  fieldIds : (collections.flatMap fun c => c.fields.map Field.id).Nodup
  fieldNames : ∀ c ∈ collections, (c.fields.map Field.name).Nodup

/-- A rewriting of collections keeps their keys and types: it adds no field. -/
structure KeepsKeys (f : Collection → Collection) : Prop where
  id : ∀ c, (f c).id = c.id
  name : ∀ c, (f c).name = c.name
  collectionType : ∀ c, (f c).collectionType = c.collectionType
  fieldIds : ∀ c, ((f c).fields.map Field.id).Sublist (c.fields.map Field.id)
  fieldNames : ∀ c, ((f c).fields.map Field.name).Sublist (c.fields.map Field.name)

namespace KeepsKeys

theorem mapFields {g : Field → Field} (hid : ∀ f, (g f).id = f.id) (hname : ∀ f, (g f).name = f.name) :
    KeepsKeys fun c => { c with fields := c.fields.map g } where
  id _ := rfl
  name _ := rfl
  collectionType _ := rfl
  fieldIds c := by
    rw [map_map, show Field.id ∘ g = Field.id from funext hid]
  fieldNames c := by
    rw [map_map, show Field.name ∘ g = Field.name from funext hname]

theorem filterFields (p : Field → Bool) :
    KeepsKeys fun c => { c with fields := c.fields.filter p } where
  id _ := rfl
  name _ := rfl
  collectionType _ := rfl
  fieldIds _ := filter_sublist.map _
  fieldNames _ := filter_sublist.map _

theorem onlyIf {f : Collection → Collection} (hf : KeepsKeys f) (p : Collection → Prop)
    [DecidablePred p] : KeepsKeys fun c => if p c then f c else c where
  id c := by split_ifs; exacts [hf.id c, rfl]
  name c := by split_ifs; exacts [hf.name c, rfl]
  collectionType c := by split_ifs; exacts [hf.collectionType c, rfl]
  fieldIds c := by split_ifs; exacts [hf.fieldIds c, .refl _]
  fieldNames c := by split_ifs; exacts [hf.fieldNames c, .refl _]

theorem redefine (rules options : Json) : KeepsKeys fun c => { c with rules, options } where
  id _ := rfl
  name _ := rfl
  collectionType _ := rfl
  fieldIds _ := .refl _
  fieldNames _ := .refl _

end KeepsKeys

/-- The row of a field among the rows of its collection. -/
def appendField (field : Field) (collection : Collection) : Collection :=
  if collection.id = field.collectionId then
    { collection with fields := collection.fields ++ [field] }
  else collection

namespace Keyed

variable {collections : List Collection}

theorem map (h : Keyed collections) {f : Collection → Collection} (hf : KeepsKeys f) :
    Keyed (collections.map f) where
  ids := by
    rw [map_map, show Collection.id ∘ f = Collection.id from funext hf.id]
    exact h.ids
  names := by
    rw [map_map, show Collection.name ∘ f = Collection.name from funext hf.name]
    exact h.names
  fieldIds := by
    rw [flatMap_map]
    exact h.fieldIds.sublist (List.Sublist.flatMap_right _ fun c _ => hf.fieldIds c)
  fieldNames := by
    intro c hc
    obtain ⟨d, hd, rfl⟩ := mem_map.mp hc
    exact (h.fieldNames d hd).sublist (hf.fieldNames d)

theorem filter (h : Keyed collections) (p : Collection → Bool) : Keyed (collections.filter p) where
  ids := h.ids.sublist (filter_sublist.map _)
  names := h.names.sublist (filter_sublist.map _)
  fieldIds := h.fieldIds.sublist (filter_sublist.flatMap _)
  fieldNames c hc := h.fieldNames c (mem_of_mem_filter hc)

/-- A field belongs to one collection. -/
theorem eq_of_field (h : Keyed collections) {c d : Collection} (hc : c ∈ collections)
    (hd : d ∈ collections) {f g : Field} (hf : f ∈ c.fields) (hg : g ∈ d.fields)
    (hid : f.id = g.id) : c = d := by
  obtain ⟨-, hdisjoint⟩ := nodup_flatMap.mp h.fieldIds
  by_contra hne
  have hsymm : Std.Symm (Function.onFun List.Disjoint fun c : Collection => c.fields.map Field.id) :=
    ⟨fun _ _ h _ hx hy => h hy hx⟩
  exact hdisjoint.forall hc hd hne (mem_map_of_mem hf) (hid ▸ mem_map_of_mem hg)

theorem insertCollection (h : Keyed collections) (collection : Collection)
    (hnew : ∀ c ∈ collections, c.id ≠ collection.id ∧ c.name ≠ collection.name) :
    Keyed (collections ++ [{ collection with fields := [] }]) where
  ids := by
    rw [map_append, nodup_append]
    refine ⟨h.ids, by simp, ?_⟩
    rintro _ ha b hb rfl
    obtain ⟨c, hc, hid⟩ := mem_map.mp ha
    exact (hnew c hc).1 (hid.trans (by simpa using hb))
  names := by
    rw [map_append, nodup_append]
    refine ⟨h.names, by simp, ?_⟩
    rintro _ ha b hb rfl
    obtain ⟨c, hc, hname⟩ := mem_map.mp ha
    exact (hnew c hc).2 (hname.trans (by simpa using hb))
  fieldIds := by
    rw [flatMap_append]
    simpa using h.fieldIds
  fieldNames := by
    intro c hc
    rcases mem_append.mp hc with hc | hc
    · exact h.fieldNames c hc
    · obtain rfl := mem_singleton.mp hc
      exact nodup_nil

/-- A field with a new id, under a new name in its collection. -/
theorem appendField (h : Keyed collections) {field : Field}
    (hnew : ∀ c ∈ collections, ∀ f ∈ c.fields,
      f.id ≠ field.id ∧ (c.id = field.collectionId → f.name ≠ field.name)) :
    Keyed (collections.map (appendField field)) where
  ids := by
    rw [map_map, show Collection.id ∘ LazyPock.appendField field = Collection.id from
      funext fun c => by simp only [Function.comp, LazyPock.appendField]; split_ifs <;> rfl]
    exact h.ids
  names := by
    rw [map_map, show Collection.name ∘ LazyPock.appendField field = Collection.name from
      funext fun c => by simp only [Function.comp, LazyPock.appendField]; split_ifs <;> rfl]
    exact h.names
  fieldIds := by
    obtain ⟨hnodup, hdisjoint⟩ := nodup_flatMap.mp h.fieldIds
    have hids := pairwise_map.mp h.ids
    rw [flatMap_map, nodup_flatMap]
    have hfresh : ∀ c ∈ collections, field.id ∉ c.fields.map Field.id := by
      intro c hc hmem
      obtain ⟨f, hf, hid⟩ := mem_map.mp hmem
      exact (hnew c hc f hf).1 hid
    refine ⟨fun c hc => ?_, ?_⟩
    · unfold LazyPock.appendField
      split_ifs
      · rw [map_append, map_singleton, nodup_append]
        refine ⟨hnodup c hc, by simp, ?_⟩
        rintro a ha b hb rfl
        exact hfresh c hc (mem_singleton.mp hb ▸ ha)
      · exact hnodup c hc
    · refine (hdisjoint.and hids).imp_of_mem fun {c d} hc hd ⟨hcd, hne⟩ => ?_
      -- Only one of two collections takes the field, and its id is in neither.
      simp only [Function.onFun, LazyPock.appendField] at hcd ⊢
      split_ifs with hc' hd' hd'
      · exact absurd (hc'.trans hd'.symm) hne
      · rw [map_append, disjoint_append_left]
        exact ⟨hcd, by simpa using hfresh d hd⟩
      · rw [map_append, disjoint_append_right]
        exact ⟨hcd, by simpa using hfresh c hc⟩
      · exact hcd
  fieldNames := by
    intro c hc
    obtain ⟨d, hd, rfl⟩ := mem_map.mp hc
    unfold LazyPock.appendField
    split_ifs with hid
    · rw [map_append, map_singleton, nodup_append]
      refine ⟨h.fieldNames d hd, by simp, ?_⟩
      rintro _ ha b hb rfl
      obtain ⟨f, hf, hname⟩ := mem_map.mp ha
      exact (hnew d hd f hf).2 hid (hname.trans (mem_singleton.mp hb))
    · exact h.fieldNames d hd

end Keyed

/-- The database: the metadata, and the schema it describes. -/
structure Db where
  /-- The rows of `_collections`, each with its rows of `_fields`. -/
  collections : List Collection
  keyed : Keyed collections
  /-- `_fields.updated`, by field id. -/
  touched : String → ℕ
  /-- The time of the transaction at hand. -/
  clock : ℕ
  /-- Nothing was written in the future. -/
  timely : ∀ id, touched id ≤ clock
  tables : String → Option Relation
  /-- Indexes by name: a name is taken once in the schema. -/
  indexes : String → Option Index
  policies : Policies.Catalog

/-- What the database decides by itself. -/
structure Server where
  /-- Whether the text of a declared default is a value of its type. -/
  computes : String → Bool
  /-- Whether an index can be built over the rows that are there. -/
  builds : String → Index → Bool
  /-- Whether something depends on a column. -/
  blocks : String → String → Bool
  /-- The columns of a query over the relations that are there, where it is a valid one. -/
  describe : (String → Option Relation) → String → Option (List ViewColumn)
  /-- Whether the condition of a policy is one the database can check. -/
  accepts : Policies.Statement → Bool
  /-- The views a relation takes along when it is dropped. -/
  dependants : String → List String
  /-- The text of a refusal. -/
  report : String

/-- A server that refuses nothing and has no views. -/
def Server.lenient : Server where
  computes _ := true
  builds _ _ := true
  blocks _ _ := false
  describe _ _ := none
  accepts _ := true
  dependants _ := []
  report := ""

/-- A database without collections. -/
def Db.empty : Db where
  collections := []
  keyed := ⟨by simp, by simp, by simp, by simp⟩
  touched _ := 0
  clock := 0
  timely _ := le_rfl
  tables _ := none
  indexes _ := none
  policies _ := ⟨false, []⟩

/-! ### Statements -/

/-- Column names Postgres keeps for itself. -/
def systemAttributes : List String := ["tableoid", "xmin", "cmin", "xmax", "cmax", "ctid"]

/-- The defaults the server writes by itself; they are values of their types. -/
def placeholders : List String :=
  ["now()", "false", "''", "0", "'\x7b\x7d'::text[]", "'[]'::jsonb", "'\x7b\x7d'::jsonb"]

namespace Db

variable (server : Server)

/-- Whether a relation has this name, an index included. -/
def nameTaken (db : Db) (name : String) : Bool :=
  (db.tables name).isSome || (db.indexes name).isSome

def computesDefault (default : Option String) : Bool :=
  default.all fun text => text ∈ placeholders || server.computes text

/-- Whether a foreign key of the table `table` may point where it points. -/
def resolves (db : Db) (table : String) (key : Option ForeignKey) : Bool :=
  key.all fun k => k.table = table || match db.tables k.table with
    | some (.table columns) => "id" ∈ columns.map Column.name
    | _ => false

/-- Whether a column may be added to a table. -/
def admitsColumn (db : Db) (table : String) (column : Column) : Bool :=
  column.name ∉ systemAttributes && computesDefault server column.default &&
    db.resolves table column.references

def setTable (db : Db) (name : String) (relation : Option Relation) : Db :=
  { db with tables := Function.update db.tables name relation }

def setIndex (db : Db) (name : String) (index : Option Index) : Db :=
  { db with indexes := Function.update db.indexes name index }

@[simp] theorem tables_setTable (db : Db) (name : String) (relation : Option Relation) :
    (db.setTable name relation).tables = Function.update db.tables name relation := rfl

@[simp] theorem indexes_setTable (db : Db) (name : String) (relation : Option Relation) :
    (db.setTable name relation).indexes = db.indexes := rfl

@[simp] theorem tables_setIndex (db : Db) (name : String) (index : Option Index) :
    (db.setIndex name index).tables = db.tables := rfl

@[simp] theorem indexes_setIndex (db : Db) (name : String) (index : Option Index) :
    (db.setIndex name index).indexes = Function.update db.indexes name index := rfl

@[simp] theorem collections_setIndex (db : Db) (name : String) (index : Option Index) :
    (db.setIndex name index).collections = db.collections := rfl

/-- Leave out the indexes a condition holds of. -/
def dropIndexes (db : Db) (p : Index → Bool) : Db :=
  { db with indexes := fun name => (db.indexes name).filter fun index => !p index }

@[simp] theorem tables_dropIndexes (db : Db) (p : Index → Bool) :
    (db.dropIndexes p).tables = db.tables := rfl

theorem indexes_dropIndexes (db : Db) (p : Index → Bool) (name : String) :
    (db.dropIndexes p).indexes name = (db.indexes name).filter fun index => !p index := rfl

/-- The relations without some of them, and without foreign keys to these. -/
def dropRelations (db : Db) (names : List String) : Db :=
  let unlink (column : Column) : Column :=
    { column with references := column.references.filter fun key => key.table ∉ names }
  { db with
    tables := fun name =>
      if name ∈ names then none
      else (db.tables name).map fun
        | .table columns => .table (columns.map unlink)
        | .view columns => .view columns
    indexes := fun name => (db.indexes name).filter fun index => index.table ∉ names
    policies := fun name => if name ∈ names then ⟨false, []⟩ else db.policies name }

/-- Run a statement; `none` where the database refuses it. -/
@[grind =]
def exec (db : Db) : Statement → Option Db
  | .createTable table columns =>
    if db.nameTaken table || !(columns.map Column.name).Nodup ||
        !columns.all (db.admitsColumn server table) then none
    else some { db.setTable table (some (.table columns)) with
      policies := Function.update db.policies table ⟨false, []⟩ }
  | .addColumn table column =>
    match db.tables table with
    | some (.table columns) =>
      if column.name ∈ columns.map Column.name || !db.admitsColumn server table column then none
      else some (db.setTable table (some (.table (columns ++ [column]))))
    | _ => none
  | .alterDefault table column default =>
    match db.tables table with
    | some (.table columns) =>
      if column ∉ columns.map Column.name || !computesDefault server default then none
      else some (db.setTable table (some (.table (columns.map fun c =>
        if c.name = column then { c with default } else c))))
    | _ => none
  | .dropColumn table column =>
    match db.tables table with
    | some (.table columns) =>
      if column ∉ columns.map Column.name || server.blocks table column then none
      else some ((db.setTable table (some (.table (columns.filter fun c => c.name ≠ column))))
        |>.dropIndexes fun index => index.table = table && index.uses column)
    | _ => none
  | .createIndex ifNotExists name index =>
    if db.nameTaken name then if ifNotExists then some db else none
    else match db.tables index.table with
      | some (.table columns) =>
        if (index.keys.all fun key => key.columnName ∈ columns.map Column.name) &&
            server.builds name index then some (db.setIndex name (some index))
        else none
      | _ => none
  | .dropIndex name => some (db.setIndex name none)
  | .createView name query =>
    if db.nameTaken name then none
    else (server.describe db.tables query).map fun columns =>
      db.setTable name (some (.view columns))
  | .replaceView name query =>
    match db.tables name with
    | some (.view old) =>
      (server.describe db.tables query).bind fun columns =>
        if old <+: columns then some (db.setTable name (some (.view columns))) else none
    | _ => none
  | .dropView name | .dropTable name => some (db.dropRelations (name :: server.dependants name))

/-! ### Metadata -/

/-- A later transaction. -/
def tick (db : Db) : Db :=
  { db with clock := db.clock + 1, timely := fun id => (db.timely id).trans (Nat.le_succ _) }

/-- `updated = now()` for a field. -/
def touch (db : Db) (id : String) : Db :=
  { db with
    touched := Function.update db.touched id db.clock
    timely := fun other => by
      by_cases h : other = id
      · rw [h, Function.update_self]
      · rw [Function.update_of_ne h]
        exact db.timely other }

/-- Rewrite every collection, adding no field. -/
def mapCollections (db : Db) (f : Collection → Collection) (hf : KeepsKeys f) : Db :=
  { db with collections := db.collections.map f, keyed := db.keyed.map hf }

/-- `insert into _collections`: the id and the name are unique. -/
def insertCollection (db : Db) (collection : Collection) : Option Db :=
  if h : ∀ c ∈ db.collections, c.id ≠ collection.id ∧ c.name ≠ collection.name then
    some { db with
      collections := db.collections ++ [{ collection with fields := [] }]
      keyed := db.keyed.insertCollection collection h }
  else none

/-- `insert into _fields`: the id is unique, and a name within its collection. -/
def insertField (db : Db) (field : Field) : Option Db :=
  if h : ∀ c ∈ db.collections, ∀ f ∈ c.fields,
      f.id ≠ field.id ∧ (c.id = field.collectionId → f.name ≠ field.name) then
    some (touch { db with
      collections := db.collections.map (appendField field)
      keyed := db.keyed.appendField h } field.id)
  else none

/-- The row of a field with new settings. -/
def writeField (id : String) (required isUnique : Bool) (options : Json) (field : Field) : Field :=
  if field.id = id then { field with required, isUnique, options } else field

theorem keepsKeys_writeField (id : String) (required isUnique : Bool) (options : Json) :
    KeepsKeys fun c => { c with fields := c.fields.map (writeField id required isUnique options) } :=
  .mapFields (fun f => by unfold writeField; split_ifs <;> rfl)
    fun f => by unfold writeField; split_ifs <;> rfl

/-- `update _fields set required, is_unique, options, updated = now() where id`. -/
def updateFieldRow (db : Db) (id : String) (required isUnique : Bool) (options : Json) : Db :=
  touch (db.mapCollections
    (fun c => { c with fields := c.fields.map (writeField id required isUnique options) })
    (keepsKeys_writeField id required isUnique options)) id

/-- `delete from _fields where id`. -/
def deleteFieldRow (db : Db) (id : String) : Db :=
  db.mapCollections (fun c => { c with fields := c.fields.filter fun f => f.id ≠ id })
    (.filterFields _)

/-- The row of a field at a new position. -/
def placeField (name : String) (position : ℕ) (field : Field) : Field :=
  if field.name = name then { field with position } else field

/-- `update _fields set position where collection_id and name`. -/
def setPosition (db : Db) (collectionId name : String) (position : ℕ) : Db :=
  db.mapCollections (fun c => if c.id = collectionId then
      { c with fields := c.fields.map (placeField name position) } else c)
    ((KeepsKeys.mapFields (fun f => by unfold placeField; split_ifs <;> rfl)
      fun f => by unfold placeField; split_ifs <;> rfl).onlyIf _)

/-- `update _collections set rules, options where id`. -/
def updateCollectionRow (db : Db) (id : String) (rules options : Json) : Db :=
  db.mapCollections (fun c => if c.id = id then { c with rules, options } else c)
    ((KeepsKeys.redefine rules options).onlyIf _)

/-- `delete from _collections where id`; the fields go with it. -/
def deleteCollectionRow (db : Db) (id : String) : Db :=
  { db with
    collections := db.collections.filter fun c => c.id ≠ id
    keyed := db.keyed.filter fun c => c.id ≠ id }

/-- The ids, names and types of the stored collections. -/
def labels (db : Db) : List (String × String × CollectionType) :=
  db.collections.map fun c => (c.id, c.name, c.collectionType)

@[simp] theorem labels_mapCollections (db : Db) {f : Collection → Collection} (hf : KeepsKeys f) :
    (db.mapCollections f hf).labels = db.labels := by
  simp only [labels, mapCollections, map_map]
  exact map_congr_left fun c _ => by simp [hf.id, hf.name, hf.collectionType]

theorem labels_setIndex (db : Db) (name : String) (index : Option Index) :
    (db.setIndex name index).labels = db.labels := rfl

@[simp] theorem labels_updateFieldRow (db : Db) (id : String) (required isUnique : Bool)
    (options : Json) : (db.updateFieldRow id required isUnique options).labels = db.labels :=
  labels_mapCollections db (keepsKeys_writeField id required isUnique options)

@[simp] theorem labels_deleteFieldRow (db : Db) (id : String) :
    (db.deleteFieldRow id).labels = db.labels :=
  labels_mapCollections db _

@[simp] theorem labels_setPosition (db : Db) (id name : String) (position : ℕ) :
    (db.setPosition id name position).labels = db.labels :=
  labels_mapCollections db _

@[simp] theorem labels_updateCollectionRow (db : Db) (id : String) (rules options : Json) :
    (db.updateCollectionRow id rules options).labels = db.labels :=
  labels_mapCollections db _

theorem insertField_eq_some {db after : Db} {field : Field} :
    db.insertField field = some after ↔
      ∃ h : ∀ c ∈ db.collections, ∀ f ∈ c.fields,
          f.id ≠ field.id ∧ (c.id = field.collectionId → f.name ≠ field.name),
        touch { db with
          collections := db.collections.map (appendField field)
          keyed := db.keyed.appendField h } field.id = after := by
  unfold insertField
  split_ifs with h
  · rw [Option.some.injEq]
    exact ⟨fun hafter => ⟨h, hafter⟩, fun ⟨_, hafter⟩ => hafter⟩
  · simp [h]

theorem labels_insertField {db after : Db} {field : Field} (h : db.insertField field = some after) :
    after.labels = db.labels := by
  obtain ⟨-, rfl⟩ := insertField_eq_some.mp h
  simp only [labels, touch, map_map]
  refine map_congr_left fun c _ => ?_
  simp only [Function.comp, appendField]
  split_ifs <;> rfl

theorem insertCollection_eq_some {db after : Db} {collection : Collection} :
    db.insertCollection collection = some after ↔
      ∃ h : ∀ c ∈ db.collections, c.id ≠ collection.id ∧ c.name ≠ collection.name,
        { db with
          collections := db.collections ++ [{ collection with fields := [] }]
          keyed := db.keyed.insertCollection collection h } = after := by
  unfold insertCollection
  split_ifs with h
  · rw [Option.some.injEq]
    exact ⟨fun hafter => ⟨h, hafter⟩, fun ⟨_, hafter⟩ => hafter⟩
  · simp [h]

/-! ### What a statement asks for and leaves behind -/

section Specs

variable {server : Server} {db after : Db}

theorem exec_createTable {table : String} {columns : List Column} :
    db.exec server (.createTable table columns) = some after ↔
      db.nameTaken table = false ∧ (columns.map Column.name).Nodup ∧
        (∀ c ∈ columns, db.admitsColumn server table c = true) ∧
        { db.setTable table (some (.table columns)) with
          policies := Function.update db.policies table ⟨false, []⟩ } = after := by
  simp only [exec]
  split_ifs with h
  · simp only [false_iff]
    rintro ⟨hname, hnodup, hadmits, -⟩
    simp only [hname, hnodup, Bool.or_eq_true, Bool.not_eq_true', decide_eq_false_iff_not,
      not_true_eq_false, Bool.false_eq_true, or_self, false_or, all_eq_false] at h
    obtain ⟨c, hc, hrefused⟩ := h
    exact hrefused (hadmits c hc)
  · simp only [Bool.or_eq_true, Bool.not_eq_true', decide_eq_false_iff_not, not_or,
      Bool.not_eq_true, not_not, Bool.not_eq_false, all_eq_true] at h
    simp only [Option.some.injEq]
    exact ⟨fun hafter => ⟨h.1.1, h.1.2, h.2, hafter⟩, fun h => h.2.2.2⟩

theorem exec_addColumn {table : String} {column : Column} :
    db.exec server (.addColumn table column) = some after ↔
      ∃ columns, db.tables table = some (.table columns) ∧ column.name ∉ columns.map Column.name ∧
        db.admitsColumn server table column = true ∧
        db.setTable table (some (.table (columns ++ [column]))) = after := by
  simp only [exec]
  split
  next columns htable =>
    simp only [htable, Option.some.injEq, Relation.table.injEq, exists_eq_left']
    split_ifs with h
    · simp only [Bool.or_eq_true, decide_eq_true_eq, Bool.not_eq_true'] at h
      simp only [false_iff]
      rintro ⟨hfresh, hadmits, -⟩
      rcases h with h | h
      · exact hfresh h
      · simp [h] at hadmits
    · simp only [Bool.or_eq_true, decide_eq_true_eq, Bool.not_eq_true', not_or,
        Bool.not_eq_false] at h
      simp only [Option.some.injEq, h, not_false_eq_true, true_and]
  next h =>
    simp only [reduceCtorEq, false_iff]
    rintro ⟨columns, htable, -⟩
    exact h columns htable

theorem exec_alterDefault {table column : String} {default : Option String} :
    db.exec server (.alterDefault table column default) = some after ↔
      ∃ columns, db.tables table = some (.table columns) ∧ column ∈ columns.map Column.name ∧
        computesDefault server default = true ∧
        db.setTable table (some (.table (columns.map fun c =>
          if c.name = column then { c with default } else c))) = after := by
  simp only [exec]
  split
  next columns htable =>
    simp only [htable, Option.some.injEq, Relation.table.injEq, exists_eq_left']
    split_ifs with h
    · simp only [Bool.or_eq_true, decide_eq_true_eq, Bool.not_eq_true'] at h
      simp only [false_iff]
      rintro ⟨hmem, hcomputes, -⟩
      rcases h with h | h
      · exact h hmem
      · simp [h] at hcomputes
    · simp only [Bool.or_eq_true, decide_eq_true_eq, Bool.not_eq_true', not_or, not_not,
        Bool.not_eq_false] at h
      simp only [Option.some.injEq, h, true_and]
  next h =>
    simp only [reduceCtorEq, false_iff]
    rintro ⟨columns, htable, -⟩
    exact h columns htable

theorem exec_dropColumn {table column : String} :
    db.exec server (.dropColumn table column) = some after ↔
      ∃ columns, db.tables table = some (.table columns) ∧ column ∈ columns.map Column.name ∧
        server.blocks table column = false ∧
        ((db.setTable table (some (.table (columns.filter fun c => c.name ≠ column)))).dropIndexes
          fun index => index.table = table && index.uses column) = after := by
  simp only [exec]
  split
  next columns htable =>
    simp only [htable, Option.some.injEq, Relation.table.injEq, exists_eq_left']
    split_ifs with h
    · simp only [Bool.or_eq_true, decide_eq_true_eq] at h
      simp only [false_iff]
      rintro ⟨hmem, hblocks, -⟩
      rcases h with h | h
      · exact h hmem
      · simp [h] at hblocks
    · simp only [Bool.or_eq_true, decide_eq_true_eq, not_or, not_not, Bool.not_eq_true] at h
      simp only [Option.some.injEq, h, true_and]
  next h =>
    simp only [reduceCtorEq, false_iff]
    rintro ⟨columns, htable, -⟩
    exact h columns htable

/-- An index is created under a name that is free; under `if not exists` a taken name is no
failure. -/
theorem exec_createIndex {ifNotExists : Bool} {name : String} {index : Index} :
    db.exec server (.createIndex ifNotExists name index) = some after ↔
      (db.nameTaken name = true ∧ ifNotExists = true ∧ db = after) ∨
      (db.nameTaken name = false ∧ ∃ columns, db.tables index.table = some (.table columns) ∧
        (∀ key ∈ index.keys, key.columnName ∈ columns.map Column.name) ∧
        server.builds name index = true ∧ db.setIndex name (some index) = after) := by
  simp only [exec]
  cases hname : db.nameTaken name with
  | true =>
    simp only [↓reduceIte, Bool.true_eq_false, false_and, or_false, true_and]
    cases ifNotExists <;> simp
  | false =>
    simp only [Bool.false_eq_true, ↓reduceIte, false_and, true_and, false_or]
    split
    next columns htable =>
      simp only [htable, Option.some.injEq, Relation.table.injEq, exists_eq_left']
      split_ifs with h
      · simp only [Bool.and_eq_true, all_eq_true, decide_eq_true_eq] at h
        simp only [Option.some.injEq, h.2, true_and]
        exact ⟨fun hafter => ⟨h.1, hafter⟩, fun h => h.2⟩
      · simp only [Bool.and_eq_true, all_eq_true, decide_eq_true_eq, not_and] at h
        simp only [false_iff]
        rintro ⟨hkeys, hbuilds, -⟩
        exact h hkeys hbuilds
    next h =>
      simp only [reduceCtorEq, false_iff]
      rintro ⟨columns, htable, -⟩
      exact h columns htable

theorem exec_dropIndex {name : String} :
    db.exec server (.dropIndex name) = some after ↔ db.setIndex name none = after := by
  simp [exec]

/-- A statement on the schema leaves the metadata alone. -/
theorem exec_metadata {statement : Statement} (h : db.exec server statement = some after) :
    after.collections = db.collections ∧ after.touched = db.touched ∧ after.clock = db.clock := by
  cases statement with
  | createTable table columns =>
    obtain ⟨-, -, -, rfl⟩ := exec_createTable.mp h
    exact ⟨rfl, rfl, rfl⟩
  | addColumn table column =>
    obtain ⟨-, -, -, -, rfl⟩ := exec_addColumn.mp h
    exact ⟨rfl, rfl, rfl⟩
  | alterDefault table column default =>
    obtain ⟨-, -, -, -, rfl⟩ := exec_alterDefault.mp h
    exact ⟨rfl, rfl, rfl⟩
  | dropColumn table column =>
    obtain ⟨-, -, -, -, rfl⟩ := exec_dropColumn.mp h
    exact ⟨rfl, rfl, rfl⟩
  | createIndex ifNotExists name index =>
    obtain ⟨-, -, rfl⟩ | ⟨-, -, -, -, -, rfl⟩ := exec_createIndex.mp h <;> exact ⟨rfl, rfl, rfl⟩
  | dropIndex name =>
    obtain rfl := exec_dropIndex.mp h
    exact ⟨rfl, rfl, rfl⟩
  | createView name query =>
    simp only [exec] at h
    split_ifs at h
    obtain ⟨columns, -, rfl⟩ := Option.map_eq_some_iff.mp h
    exact ⟨rfl, rfl, rfl⟩
  | replaceView name query =>
    simp only [exec] at h
    split at h
    · obtain ⟨columns, -, h⟩ := Option.bind_eq_some_iff.mp h
      split_ifs at h
      obtain rfl := Option.some.inj h
      exact ⟨rfl, rfl, rfl⟩
    · exact absurd h (by simp)
  | dropView name =>
    obtain rfl := Option.some.inj h
    exact ⟨rfl, rfl, rfl⟩
  | dropTable name =>
    obtain rfl := Option.some.inj h
    exact ⟨rfl, rfl, rfl⟩

end Specs

end Db

end LazyPock
