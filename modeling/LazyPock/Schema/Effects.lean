import LazyPock.Schema.Operations

/-!
# What the operations on collections write

Every operation is a sequence of writes: to the metadata, to the policies, and statements on the
schema. Which statements it can run is said once for each operation; what a whole operation keeps
then follows from what each of its statements keeps.

## Main definitions

* `Db.Writes`: a sequence of writes whose statements satisfy a condition.
* `Collections.Builds`: the statements that take nothing away.
* `Collections.UpdateStatement`: the statements of an update.

## Main results

* `Collections.create_writes`, `Collections.addField_writes`,
  `Collections.deleteField_writes`, `Collections.update_writes`.
* `Db.Writes.touched_le`: no operation takes back the time of a write.
-/

namespace LazyPock

open Ddl Machine

/-! ### Sequences of writes -/

namespace Db

/-- A write to the metadata or the policies: no collection goes, and a field is touched no earlier
than before. -/
structure DataWrite (db after : Db) : Prop where
  tables : after.tables = db.tables
  indexes : after.indexes = db.indexes
  touched : ∀ id, db.touched id ≤ after.touched id
  clock : db.clock ≤ after.clock
  labels : db.labels <+: after.labels

theorem DataWrite.trans {a b c : Db} (hab : DataWrite a b) (hbc : DataWrite b c) : DataWrite a c :=
  ⟨hbc.tables.trans hab.tables, hbc.indexes.trans hab.indexes,
    fun id => (hab.touched id).trans (hbc.touched id), hab.clock.trans hbc.clock,
    hab.labels.trans hbc.labels⟩

theorem touched_le_touch (db : Db) (id other : String) :
    db.touched other ≤ (db.touch id).touched other := by
  by_cases h : other = id
  · rw [h]
    exact (db.timely id).trans (by simp [touch])
  · simp [touch, Function.update_of_ne h]

theorem dataWrite_tick (db : Db) : DataWrite db db.tick :=
  ⟨rfl, rfl, fun _ => le_rfl, Nat.le_succ _, List.prefix_rfl⟩

theorem dataWrite_updateFieldRow (db : Db) (id : String) (required isUnique : Bool)
    (options : Json) : DataWrite db (db.updateFieldRow id required isUnique options) :=
  ⟨rfl, rfl, fun other => touched_le_touch _ id other, le_rfl,
    (labels_updateFieldRow db id required isUnique options).symm ▸ List.prefix_rfl⟩

theorem dataWrite_deleteFieldRow (db : Db) (id : String) : DataWrite db (db.deleteFieldRow id) :=
  ⟨rfl, rfl, fun _ => le_rfl, le_rfl, (labels_deleteFieldRow db id).symm ▸ List.prefix_rfl⟩

theorem dataWrite_setPosition (db : Db) (id name : String) (position : ℕ) :
    DataWrite db (db.setPosition id name position) :=
  ⟨rfl, rfl, fun _ => le_rfl, le_rfl,
    (labels_setPosition db id name position).symm ▸ List.prefix_rfl⟩

theorem dataWrite_updateCollectionRow (db : Db) (id : String) (rules options : Json) :
    DataWrite db (db.updateCollectionRow id rules options) :=
  ⟨rfl, rfl, fun _ => le_rfl, le_rfl,
    (labels_updateCollectionRow db id rules options).symm ▸ List.prefix_rfl⟩

theorem dataWrite_insertField {db after : Db} {field : Field}
    (h : db.insertField field = some after) : DataWrite db after := by
  have hlabels := labels_insertField h
  obtain ⟨_, rfl⟩ := insertField_eq_some.mp h
  exact ⟨rfl, rfl, fun id => touched_le_touch _ field.id id, le_rfl, hlabels ▸ List.prefix_rfl⟩

theorem dataWrite_insertCollection {db after : Db} {collection : Collection}
    (h : db.insertCollection collection = some after) : DataWrite db after := by
  obtain ⟨_, rfl⟩ := insertCollection_eq_some.mp h
  refine ⟨rfl, rfl, fun _ => le_rfl, le_rfl, ?_⟩
  simp only [Db.labels, List.map_append]
  exact List.prefix_append _ _

variable (server : Server) (P : Statement → Prop)

/-- One write. -/
inductive Write : Db → Db → Prop
  | data {db after : Db} (h : DataWrite db after) : Write db after
  | statement {db after : Db} {statement : Statement} (hP : P statement)
      (hexec : db.exec server statement = some after) : Write db after

/-- A sequence of writes. -/
def Writes : Db → Db → Prop := Relation.ReflTransGen (Write server P)

variable {server P}

theorem Writes.refl (db : Db) : Writes server P db db := Relation.ReflTransGen.refl

theorem Writes.trans {a b c : Db} (hab : Writes server P a b) (hbc : Writes server P b c) :
    Writes server P a c :=
  Relation.ReflTransGen.trans hab hbc

theorem Writes.mono {Q : Statement → Prop} (hPQ : ∀ s, P s → Q s) {a b : Db}
    (h : Writes server P a b) : Writes server Q a b := by
  induction h with
  | refl => exact .refl a
  | tail _ hstep ih =>
    cases hstep with
    | data h => exact ih.tail (.data h)
    | statement hP hexec => exact ih.tail (.statement (hPQ _ hP) hexec)

/-- What every write keeps. -/
theorem Writes.invariant {I : Db → Prop} (hstep : ∀ a b, I a → Write server P a b → I b) {a b : Db}
    (h : Writes server P a b) (ha : I a) : I b := by
  induction h with
  | refl => exact ha
  | tail _ hstep' ih => exact hstep _ _ ih hstep'

theorem Writes.data {db after : Db} (h : DataWrite db after) : Writes server P db after :=
  .single (.data h)

/-- **No write takes back the time of another.** -/
theorem Writes.touched_le {db after : Db} (h : Writes server P db after) (id : String) :
    db.touched id ≤ after.touched id := by
  refine h.invariant (I := fun s => db.touched id ≤ s.touched id) ?_ le_rfl
  rintro a b ha (hdata | ⟨-, hexec⟩)
  · exact ha.trans (hdata.touched id)
  · rw [(exec_metadata hexec).2.1]
    exact ha

theorem Writes.clock_le {db after : Db} (h : Writes server P db after) : db.clock ≤ after.clock := by
  refine h.invariant (I := fun s => db.clock ≤ s.clock) ?_ le_rfl
  rintro a b ha (hdata | ⟨-, hexec⟩)
  · exact ha.trans hdata.clock
  · rw [(exec_metadata hexec).2.2]
    exact ha

/-- No write takes a collection away or changes its name or type. -/
theorem Writes.labels_le {db after : Db} (h : Writes server P db after) :
    db.labels <+: after.labels := by
  refine h.invariant (I := fun s => db.labels <+: s.labels) ?_ List.prefix_rfl
  rintro a b ha (hdata | ⟨-, hexec⟩)
  · exact ha.trans hdata.labels
  · rwa [show b.labels = a.labels by rw [labels, (exec_metadata hexec).1, labels]]

/-! ### Indexes that stay -/

/-- A statement that leaves an index alone. -/
def Spares (name : String) (index : Index) : Statement → Prop
  | .dropIndex other => other ≠ name
  | .dropColumn table column => ¬ (index.table = table ∧ index.uses column = true)
  | .dropView _ | .dropTable _ => False
  | _ => True

theorem exec_spares {statement : Statement} {db after : Db} {name : String} {index : Index}
    (h : db.exec server statement = some after) (hspares : Spares name index statement)
    (hindex : db.indexes name = some index) : after.indexes name = some index := by
  cases statement with
  | createTable table columns =>
    obtain ⟨-, -, -, rfl⟩ := exec_createTable.mp h
    exact hindex
  | addColumn table column =>
    obtain ⟨-, -, -, -, rfl⟩ := exec_addColumn.mp h
    exact hindex
  | alterDefault table column default =>
    obtain ⟨-, -, -, -, rfl⟩ := exec_alterDefault.mp h
    exact hindex
  | dropColumn table column =>
    obtain ⟨-, -, -, -, rfl⟩ := exec_dropColumn.mp h
    rw [indexes_dropIndexes, indexes_setTable, hindex, Option.filter_some, if_pos]
    rw [Bool.not_eq_true', ← Bool.not_eq_true, Bool.and_eq_true, decide_eq_true_eq]
    exact hspares
  | createIndex ifNotExists other created =>
    obtain ⟨-, -, rfl⟩ | ⟨hfree, -, -, -, -, rfl⟩ := exec_createIndex.mp h
    · exact hindex
    · -- The name of the index is taken, so it is not the one that is created.
      have hne : name ≠ other := by
        rintro rfl
        simp [nameTaken, hindex] at hfree
      rw [indexes_setIndex, Function.update_of_ne hne, hindex]
  | dropIndex other =>
    obtain rfl := exec_dropIndex.mp h
    rw [indexes_setIndex, Function.update_of_ne (Ne.symm hspares), hindex]
  | createView other query =>
    simp only [exec] at h
    split_ifs at h
    obtain ⟨columns, -, rfl⟩ := Option.map_eq_some_iff.mp h
    exact hindex
  | replaceView other query =>
    simp only [exec] at h
    split at h
    · obtain ⟨columns, -, h⟩ := Option.bind_eq_some_iff.mp h
      split_ifs at h
      obtain rfl := Option.some.inj h
      exact hindex
    · exact absurd h (by simp)
  | dropView other => exact hspares.elim
  | dropTable other => exact hspares.elim

/-- An index all statements spare is there at the end. -/
theorem Writes.indexes_eq {db after : Db} {name : String} {index : Index}
    (h : Writes server P db after) (hspares : ∀ s, P s → Spares name index s)
    (hindex : db.indexes name = some index) : after.indexes name = some index := by
  refine h.invariant (I := fun s => s.indexes name = some index) ?_ hindex
  rintro a b ha (hdata | ⟨hP, hexec⟩)
  · rw [hdata.indexes]
    exact ha
  · exact exec_spares hexec (hspares _ hP) ha

end Db

namespace Collections

open Db

variable {α β : Type} {sha : String → String} {server : Server}
  {toQuery : Json → List Collection → Result String} {P : Statement → Prop}

/-! ### Programs that write -/

/-- Whatever the work of a transaction does is a sequence of writes. -/
def TxWrites (server : Server) (P : Statement → Prop) (m : Tx Db Error α) : Prop :=
  Tx.Steps (fun _ => True) (Write server P) m

/-- Whatever a saga does, also where it fails, is a sequence of writes. -/
def SagaWrites (server : Server) (P : Statement → Prop) (m : Saga Db Error α) : Prop :=
  Saga.Steps (fun _ => True) (Write server P) m

theorem TxWrites.writes {m : Tx Db Error α} (h : TxWrites server P m) {db after : Db} {x : α}
    (hm : m db = .ok (x, after)) : Writes server P db after :=
  (h db x after trivial hm).1

theorem TxWrites.of_writes {m : Tx Db Error α}
    (h : ∀ db x after, m db = .ok (x, after) → Writes server P db after) : TxWrites server P m :=
  fun db x after _ hm => ⟨h db x after hm, trivial⟩

theorem SagaWrites.writes {m : Saga Db Error α} (h : SagaWrites server P m) (db : Db) :
    Writes server P db (m db).2 :=
  (h db trivial).1

theorem TxWrites.mono {Q : Statement → Prop} {m : Tx Db Error α} (hm : TxWrites server P m)
    (hPQ : ∀ s, P s → Q s) : TxWrites server Q m :=
  .of_writes fun _ _ _ h => (hm.writes h).mono hPQ

variable {statement : Statement}

theorem TxWrites.run (h : P statement) (e : Error) :
    TxWrites server P (run server statement e) :=
  Tx.Steps.run (fun _ _ _ _ => trivial) fun _ _ _ hexec => .statement h hexec

/-- A write to the metadata. -/
theorem TxWrites.modify {f : Db → Db} (hf : ∀ db, DataWrite db (f db)) :
    TxWrites server P (Tx.modify f : Tx Db Error Unit) :=
  Tx.Steps.modify (fun _ _ _ _ => trivial) fun db _ => .data (hf db)

theorem SagaWrites.mono {Q : Statement → Prop} {m : Saga Db Error α} (hm : SagaWrites server P m)
    (hPQ : ∀ s, P s → Q s) : SagaWrites server Q m :=
  fun db _ => ⟨(hm.writes db).mono hPQ, trivial⟩

/-- What follows may rely on what was read. -/
theorem SagaWrites.read_bind {f : Db → Result α} {g : α → Saga Db Error β}
    (h : ∀ db a, f db = .ok a → SagaWrites server P (g a)) : SagaWrites server P (Saga.read f >>= g) :=
  Saga.Steps.read_bind fun db a hdb hf => h db a hf db hdb

/-- A transaction of its own either commits its writes or leaves the database alone. -/
theorem SagaWrites.transaction {m : Tx Db Error α} (hm : TxWrites server P m) :
    SagaWrites server P (Collections.transaction m) :=
  .commit ((TxWrites.modify dataWrite_tick).bind fun _ => hm)

/-! ### The statements of each operation -/

/-- A statement that takes nothing away. -/
@[grind =]
def Builds : Statement → Prop
  | .createTable .. | .addColumn .. | .alterDefault .. | .createIndex .. | .createView ..
  | .replaceView .. => True
  | .dropColumn .. | .dropIndex .. | .dropView .. | .dropTable .. => False

theorem Builds.spares (h : Builds statement) (name : String)
    (index : Index) : Spares name index statement := by
  cases statement <;> simp_all [Builds, Spares]

/-- The index of a field whose flags change is dropped. -/
def DropsOwn (sha : String → String) (table : String) (current : Field) (wanted : CreateField)
    (statement : Statement) : Prop :=
  (ownIndex table current).isSome = true ∧
    ownIndex table current ≠ wantedIndex wanted.unique wanted.options table wanted.name ∧
    statement = dropIndexStatement sha table wanted.name

/-- A column that is not lazypock's own is dropped. -/
def DropsColumn (table : String) (statement : Statement) : Prop :=
  ∃ column, column ∉ systemColumns ∧ column ∉ authSystemColumns ∧
    statement = .dropColumn table column

/-- An index of the previous declaration that is on the table is dropped. -/
def DropsDeclared (db : Db) (table : String) (previous specs : List Indexes.IndexSpec)
    (statement : Statement) : Prop :=
  ∃ old ∈ previous, old ∉ specs ∧ onTable db table old.name = true ∧
    statement = .dropIndex old.name

theorem runAll_writes {statements : List Statement} (h : ∀ s ∈ statements, P s) (e : Error) :
    TxWrites server P (runAll server statements e) :=
  .forM fun s hs => TxWrites.run (h s hs) e

theorem insertField_writes (field : Field) : TxWrites server P (insertField server field) := by
  refine .of_writes fun db x after h => ?_
  rw [insertField, Tx.run_eq_ok] at h
  exact .data (dataWrite_insertField h)

theorem insertBuiltinField_writes (field : Field) :
    TxWrites server P (insertBuiltinField server field) := by
  refine .of_writes fun db x after h => ?_
  rw [insertBuiltinField, Tx.run_eq_ok] at h
  split_ifs at h
  · obtain rfl := Option.some.inj h
    exact .refl db
  · exact .data (dataWrite_insertField h)

theorem insertCollection_writes (collection : Collection) (e : Error) :
    TxWrites server P (Tx.run (fun db => db.insertCollection collection) e) := by
  refine .of_writes fun db x after h => ?_
  rw [Tx.run_eq_ok] at h
  exact .data (dataWrite_insertCollection h)

theorem createOwnIndex_writes (message table : String) (field : Field) :
    TxWrites server Builds (createOwnIndex sha server message table field) := by
  exact .onSome fun _ _ => TxWrites.run trivial _

theorem applyPolicies_writes (collection : Collection) (context : FilterContext) :
    TxWrites server P (applyPolicies server collection context) := by
  refine (Tx.Steps.lift _).bind fun statements => TxWrites.of_writes fun db x after h => ?_
  rw [Tx.run_eq_ok] at h
  split at h
  · split_ifs at h
    obtain ⟨policies, -, rfl⟩ := Option.map_eq_some_iff.mp h
    exact .data ⟨rfl, rfl, fun _ => le_rfl, le_rfl, List.prefix_rfl⟩
  · exact absurd h (by simp)

theorem createDeclared_writes (db : Db) (table : String) (previous : List Indexes.IndexSpec)
    (spec : Indexes.IndexSpec) :
    TxWrites server Builds (createDeclared server db table previous spec) := by
  unfold createDeclared
  dsimp only
  split_ifs
  · exact .pure _
  · exact .pure _
  · exact TxWrites.run trivial _

variable {db : Db}

theorem dropOld_writes {table : String} {previous specs : List Indexes.IndexSpec}
    {old : Indexes.IndexSpec} (hold : old ∈ previous) :
    TxWrites server (DropsDeclared db table previous specs)
      (dropOld server db table specs old) := by
  unfold dropOld
  split_ifs with h
  · exact .pure _
  · rw [not_or, Bool.not_eq_false] at h
    exact TxWrites.run ⟨old, hold, h.1, h.2, rfl⟩ _

variable {collection : Collection}

/-- The runs of an application of declared indexes. -/
theorem applyDeclaredIndexes_eq_ok {context : FilterContext}
    {previousOptions : Option Json} {after : Db} {u : Unit} :
    applyDeclaredIndexes sha server collection context previousOptions db = .ok (u, after) ↔
      ∃ declared specs previous mid, declaredIndexes collection.options = .ok declared ∧
        Indexes.parseAll sha collection declared context = .ok specs ∧
        resolvePrevious sha collection context previousOptions = .ok previous ∧
        previous.forM (dropOld server db collection.name specs) db = .ok ((), mid) ∧
        specs.forM (createDeclared server db collection.name previous) mid = .ok ((), after) := by
  simp only [applyDeclaredIndexes, Tx.lift_bind_eq_ok, Tx.get_bind]
  constructor
  · rintro ⟨declared, hdeclared, specs, hspecs, previous, hprevious, h⟩
    obtain ⟨_, mid, hdrop, hcreate⟩ := Tx.bind_eq_ok.mp h
    exact ⟨declared, specs, previous, mid, hdeclared, hspecs, hprevious, hdrop, hcreate⟩
  · rintro ⟨declared, specs, previous, mid, hdeclared, hspecs, hprevious, hdrop, hcreate⟩
    exact ⟨declared, hdeclared, specs, hspecs, previous, hprevious,
      Tx.bind_eq_ok.mpr ⟨(), mid, hdrop, hcreate⟩⟩

/-- Declared indexes are built, and what the previous declaration made and the new one does not have
is dropped. -/
theorem applyDeclaredIndexes_writes {context : FilterContext}
    {previousOptions : Option Json} {after : Db} {u : Unit}
    (h : applyDeclaredIndexes sha server collection context previousOptions db = .ok (u, after)) :
    ∃ declared specs previous, declaredIndexes collection.options = .ok declared ∧
      Indexes.parseAll sha collection declared context = .ok specs ∧
      resolvePrevious sha collection context previousOptions = .ok previous ∧
      Writes server (fun s => Builds s ∨ DropsDeclared db collection.name previous specs s) db
        after := by
  obtain ⟨declared, specs, previous, mid, hdeclared, hspecs, hprevious, hdrop, hcreate⟩ :=
    applyDeclaredIndexes_eq_ok.mp h
  refine ⟨declared, specs, previous, hdeclared, hspecs, hprevious, ?_⟩
  let Q (s : Statement) : Prop := Builds s ∨ DropsDeclared db collection.name previous specs s
  have hdropped : TxWrites server Q (previous.forM (dropOld server db collection.name specs)) :=
    .forM fun old hold => (dropOld_writes hold).mono fun _ => .inr
  have hcreated : TxWrites server Q
      (specs.forM (createDeclared server db collection.name previous)) :=
    .forM fun spec _ => (createDeclared_writes _ _ _ spec).mono fun _ => .inl
  exact (hdropped.writes hdrop).trans (hcreated.writes hcreate)

/-- Where there was no declaration before, nothing is dropped. -/
theorem applyDeclaredIndexes_none_writes (collection : Collection) (context : FilterContext) :
    TxWrites server Builds (applyDeclaredIndexes sha server collection context none) := by
  refine .of_writes fun db x after h => ?_
  obtain ⟨_, _, previous, -, -, hprevious, hwrites⟩ := applyDeclaredIndexes_writes h
  rw [resolvePrevious, Except.ok.injEq] at hprevious
  refine hwrites.mono fun s hs => hs.resolve_right ?_
  rintro ⟨old, hold, -⟩
  simp [← hprevious] at hold

/-! ### Creating -/

theorem createFields_writes (newTable : Bool) (table : String) (fields : List Field) :
    TxWrites server Builds (fields.forM (createField sha server newTable table)) :=
  .forM fun _ _ => (insertField_writes _).bind fun _ => .onlyIf fun _ => createOwnIndex_writes _ _ _

theorem builtinFields_writes (c : Bool) (fields : List Field) :
    TxWrites server P (Tx.onlyIf c (fields.forM (insertBuiltinField server))) :=
  .onlyIf fun _ => .forM fun field _ => insertBuiltinField_writes field

theorem createTransaction_writes (ids : Ids) (collection : Collection) (all : List Collection)
    {table : Option Statement} (htable : ∀ s, table = some s → Builds s) :
    TxWrites server Builds (createTransaction sha server ids collection all table) := by
  exact (Tx.Steps.onSome fun s hs => TxWrites.run (htable s hs) _).bind fun _ =>
    (insertCollection_writes _ _).bind fun _ => (createFields_writes _ _ _).bind fun _ =>
    (builtinFields_writes _ _).bind fun _ => (Tx.Steps.onlyIf fun _ => TxWrites.run trivial _).bind fun _ =>
    (Tx.Steps.lift _).bind fun context =>
    (applyDeclaredIndexes_none_writes collection context).bind fun _ =>
    (applyPolicies_writes _ _).bind fun _ => .onlyIf fun _ => .lift _

theorem createTableStatement_builds
    {resolveTable : String → Option String}
    (h : createTableStatement collection resolveTable = .ok statement) : Builds statement := by
  obtain ⟨_, -, h⟩ := bind_eq_ok.mp h
  obtain ⟨_, -, h⟩ := bind_eq_ok.mp h
  obtain ⟨columns, -, h⟩ := bind_eq_ok.mp h
  rw [Except.ok.injEq] at h
  rw [← h]
  trivial

theorem prepareTable_builds {input : CreateCollection} {ids : Ids} {table : Option Statement}
    (h : prepareTable db input ids = .ok (collection, table)) (s : Statement)
    (hs : table = some s) : Builds s := by
  unfold prepareTable at h
  obtain ⟨_, -, h⟩ := bind_eq_ok.mp h
  obtain ⟨_, -, h⟩ := bind_eq_ok.mp h
  obtain ⟨_, -, h⟩ := bind_eq_ok.mp h
  split at h
  · obtain ⟨_, -, h⟩ := bind_eq_ok.mp h
    simp only [Except.ok.injEq, Prod.mk.injEq] at h
    simp [← h.2] at hs
  · obtain ⟨statement, hstatement, h⟩ := bind_eq_ok.mp h
    simp only [Except.ok.injEq, Prod.mk.injEq] at h
    rw [← h.2, Option.some.injEq] at hs
    exact hs ▸ createTableStatement_builds hstatement

theorem createView_writes (input : CreateCollection) (ids : Ids) :
    SagaWrites server Builds (createView server toQuery input ids) := by
  refine SagaWrites.read_bind fun db ⟨collection, statement⟩ h => ?_
  have hbuilds : Builds statement := by
    obtain ⟨_, -, h⟩ := bind_eq_ok.mp h
    obtain ⟨_, -, h⟩ := bind_eq_ok.mp h
    obtain ⟨_, -, h⟩ := bind_eq_ok.mp h
    obtain ⟨options, -, h⟩ := bind_eq_ok.mp h
    obtain ⟨created, hcreated, h⟩ := bind_eq_ok.mp h
    obtain ⟨_, -, hcreated⟩ := bind_eq_ok.mp hcreated
    obtain ⟨query, -, hcreated⟩ := bind_eq_ok.mp hcreated
    simp only [Except.ok.injEq, Prod.mk.injEq] at h hcreated
    rw [← h.2, ← hcreated]
    trivial
  exact SagaWrites.transaction ((TxWrites.run hbuilds _).bind fun _ =>
    (insertCollection_writes _ _).bind fun _ => Tx.Steps.get.bind fun _ =>
    (Tx.Steps.lift _).bind fun _ => .pure _)

theorem create_writes (input : CreateCollection) (ids : Ids) :
    SagaWrites server Builds (create sha server toQuery input ids) := by
  refine (Saga.Steps.lift _).bind fun _ => ?_
  split
  · exact createView_writes input ids
  · refine SagaWrites.read_bind fun db ⟨⟨collection, table⟩, all⟩ h => ?_
    obtain ⟨prepared, hprepared, h⟩ := bind_eq_ok.mp h
    simp only [Except.ok.injEq, Prod.mk.injEq] at h
    obtain ⟨rfl, -⟩ := h
    exact (SagaWrites.transaction (createTransaction_writes ids collection all
      (prepareTable_builds hprepared))).bind fun _ => .pure _

/-- The runs of a creation of a table collection. -/
theorem create_eq_ok {input : CreateCollection} {ids : Ids} {after : Db} {created : Collection}
    (htype : input.collectionType ≠ .view) :
    create sha server toQuery input ids db = (.ok created, after) ↔
      validateCollectionName input.name = .ok () ∧
      ∃ table, prepareTable db input ids = .ok (created, table) ∧
        createTransaction sha server ids created (list db) table db.tick = .ok ((), after) := by
  unfold create
  rw [Saga.bind_eq_ok]
  constructor
  · rintro ⟨_, mid, hlift, h⟩
    have hname : validateCollectionName input.name = .ok () := congrArg Prod.fst hlift
    obtain rfl : db = mid := congrArg Prod.snd hlift
    rw [if_neg htype] at h
    obtain ⟨⟨⟨collection, table⟩, all⟩, mid, hread, h⟩ := Saga.bind_eq_ok.mp h
    obtain rfl : db = mid := congrArg Prod.snd hread
    obtain ⟨prepared, hprepared, hread⟩ := bind_eq_ok.mp (congrArg Prod.fst hread)
    obtain ⟨rfl, rfl⟩ : prepared = (collection, table) ∧ list db = all := by simpa using hread
    obtain ⟨_, mid, htx, h⟩ := Saga.bind_eq_ok.mp h
    obtain ⟨rfl, rfl⟩ : collection = created ∧ mid = after := by simpa using h
    exact ⟨hname, table, hprepared, transaction_eq_ok.mp htx⟩
  · rintro ⟨hname, table, hprepared, htx⟩
    refine ⟨(), db, by rw [Saga.lift_apply, hname], ?_⟩
    rw [if_neg htype, Saga.bind_eq_ok]
    refine ⟨((created, table), list db), db, ?_, ?_⟩
    · rw [Saga.read_apply, hprepared]
      rfl
    · exact Saga.bind_eq_ok.mpr ⟨(), after, transaction_eq_ok.mpr htx, rfl⟩

/-- The checks of a creation that makes a table of its own. -/
theorem prepareTable_eq_ok {input : CreateCollection} {ids : Ids} {table : Option Statement} (hnew : db.nameTaken input.name = false) :
    prepareTable db input ids = .ok (collection, table) ↔
      find db input.name = none ∧ collection.validate = .ok () ∧
      (⟨ids.collection, input.name, input.collectionType, input.options, input.rules,
        newFields ids input.fields⟩ : Collection) = collection ∧
      ∃ statement, createTableStatement collection
          (resolveTarget db ids.collection input.name) = .ok statement ∧
        some statement = table := by
  simp only [prepareTable, bind_eq_ok, failIf_eq_ok, hnew, Bool.false_eq_true, false_and,
    not_false_eq_true, ↓reduceIte, Except.ok.injEq, Prod.mk.injEq, exists_const, true_and,
    Bool.not_eq_true, Option.isSome_eq_false_iff, Option.isNone_iff_eq_none]
  constructor
  · rintro ⟨hfind, _, hvalid, statement, hstatement, rfl, rfl⟩
    exact ⟨hfind, hvalid, rfl, statement, hstatement, rfl⟩
  · rintro ⟨hfind, hvalid, rfl, statement, hstatement, rfl⟩
    exact ⟨hfind, (), hvalid, statement, hstatement, rfl, rfl⟩

/-- The steps of a creation that makes a table of its own. -/
theorem createTransaction_steps {ids : Ids} {all : List Collection} {after : Db} {u : Unit}
    (h : createTransaction sha server ids collection all (some statement) db = .ok (u, after)) :
    ∃ built inserted listed completed unique indexed context,
        db.exec server statement = some built ∧
        built.insertCollection collection = some inserted ∧
        collection.fields.forM (createField sha server true collection.name) inserted =
          .ok ((), listed) ∧
        Tx.onlyIf collection.collectionType.isAuth
          ((builtinFields ids).forM (insertBuiltinField server)) listed = .ok ((), completed) ∧
        Tx.onlyIf collection.collectionType.isAuth
          (run server (createAuthEmailIndexStatement sha collection.name)
            (refused server ("failed to make emails unique in " ++ Text.debug collection.name)))
          completed = .ok ((), unique) ∧
        FilterContext.forCollection collection all = .ok context ∧
        applyDeclaredIndexes sha server collection context none unique = .ok ((), indexed) ∧
        applyPolicies server collection context indexed = .ok ((), after) ∧
        realtimeTriggerStatements collection.name = .ok () := by
  obtain ⟨built, hbuilt, h⟩ := Tx.run_bind_eq_ok.mp h
  obtain ⟨inserted, hinserted, h⟩ := Tx.run_bind_eq_ok.mp h
  obtain ⟨_, listed, hlisted, h⟩ := Tx.bind_eq_ok.mp h
  obtain ⟨_, completed, hcompleted, h⟩ := Tx.bind_eq_ok.mp h
  obtain ⟨_, unique, hunique, h⟩ := Tx.bind_eq_ok.mp h
  obtain ⟨context, hcontext, h⟩ := Tx.lift_bind_eq_ok.mp h
  obtain ⟨_, indexed, hindexed, h⟩ := Tx.bind_eq_ok.mp h
  obtain ⟨_, last, hlast, h⟩ := Tx.bind_eq_ok.mp h
  obtain ⟨htrigger, rfl⟩ := Tx.lift_eq_ok.mp h
  rw [Option.isSome_some, Bool.and_true] at hunique
  exact ⟨built, inserted, listed, completed, unique, indexed, context, hbuilt, hinserted, hlisted,
    hcompleted, hunique, hcontext, hindexed, hlast, htrigger⟩

/-! ### Fields -/

theorem addColumnStatements_builds {table : String} {field : Field} {statements : List Statement}
    (h : addColumnStatements table field = .ok statements) : ∀ s ∈ statements, Builds s := by
  unfold addColumnStatements at h
  obtain ⟨_, -, h⟩ := bind_eq_ok.mp h
  obtain ⟨columnType, -, h⟩ := bind_eq_ok.mp h
  obtain ⟨default, -, h⟩ := bind_eq_ok.mp h
  split at h
  · simp [← Except.ok.inj h, Builds]
  · split at h
    · simp [← Except.ok.inj h, Builds]
    · obtain ⟨zero, -, h⟩ := bind_eq_ok.mp h
      simp [← Except.ok.inj h, Builds]

/-- Adding a field takes nothing away. -/
theorem addField_writes (nameOrId : String) (input : CreateField) (id : String) :
    SagaWrites server Builds (addField sha server nameOrId input id) := by
  refine SagaWrites.read_bind fun db ⟨collection, field, statements⟩ h => ?_
  have hbuilds : ∀ s ∈ statements, Builds s := by
    obtain ⟨existing, -, h⟩ := bind_eq_ok.mp h
    obtain ⟨_, -, h⟩ := bind_eq_ok.mp h
    obtain ⟨_, -, h⟩ := bind_eq_ok.mp h
    obtain ⟨_, -, h⟩ := bind_eq_ok.mp h
    obtain ⟨added, hadded, h⟩ := bind_eq_ok.mp h
    simp only [Except.ok.injEq, Prod.mk.injEq] at h
    rw [← h.2.2]
    exact addColumnStatements_builds hadded
  exact SagaWrites.transaction ((runAll_writes hbuilds _).bind fun _ =>
    (createOwnIndex_writes _ _ _).bind fun _ => (insertField_writes _).bind fun _ => .pure _)

/-- The own index of a field is dropped where the flags change. -/
theorem alterIndex_writes (table : String) (current : Field) (wanted : CreateField) :
    TxWrites server (fun s => Builds s ∨ DropsOwn sha table current wanted s)
      (alterIndex sha server table current wanted) := by
  unfold alterIndex
  dsimp only
  split_ifs with hindex
  · exact .pure _
  · exact (Tx.Steps.onlyIf fun hcurrent => TxWrites.run (.inr ⟨hcurrent, hindex, rfl⟩) _).bind fun _ =>
      .onSome fun _ _ => TxWrites.run (.inl trivial) _

theorem alterDefault_writes (table : String) (current : Field) (wanted : CreateField) :
    TxWrites server Builds (alterDefault server table current wanted) := by
  unfold alterDefault
  split_ifs
  · exact .pure _
  · exact (Tx.Steps.lift _).bind fun _ => TxWrites.run trivial _

/-- What an update of a field runs: besides building, it drops the field's own index where the flags
change. -/
theorem updateField_writes (table : String) (current : Field) (wanted : CreateField) :
    SagaWrites server (fun s => Builds s ∨ DropsOwn sha table current wanted s)
      (updateField sha server table current wanted) := by
  exact (Saga.Steps.lift _).bind fun _ => SagaWrites.transaction ((alterIndex_writes _ _ _).bind fun _ =>
    ((alterDefault_writes _ _ _).mono fun _ => .inl).bind fun _ =>
    TxWrites.modify fun db => dataWrite_updateFieldRow db _ _ _ _)

theorem dropField_writes (table : String) (field : Field) :
    TxWrites server (DropsColumn table) (dropField server table field) := by
  refine Tx.Steps.lift_bind fun statement hstatement => ?_
  have hdrops : DropsColumn table statement := by
    obtain ⟨_, -, hstatement⟩ := bind_eq_ok.mp hstatement
    obtain ⟨_, -, hstatement⟩ := bind_eq_ok.mp hstatement
    obtain ⟨_, hbuiltin, hstatement⟩ := bind_eq_ok.mp hstatement
    rw [failIf_eq_ok, not_or] at hbuiltin
    exact ⟨field.name, hbuiltin.1, hbuiltin.2, (Except.ok.inj hstatement).symm⟩
  exact (TxWrites.run hdrops _).bind fun _ => TxWrites.modify fun db => dataWrite_deleteFieldRow db _

theorem deleteField_writes (nameOrId fieldName : String) :
    SagaWrites server (fun s => ∃ table, DropsColumn table s)
      (deleteField server nameOrId fieldName) := by
  refine (Saga.Steps.read _).bind fun ⟨collection, field⟩ => SagaWrites.transaction ?_
  exact ((dropField_writes collection.name field).mono fun s hs => ⟨_, hs⟩).bind fun _ => .pure _

theorem dropUndeclaredFields_writes (existing : Collection) (declared : List String) :
    SagaWrites server (DropsColumn existing.name)
      (dropUndeclaredFields server existing declared) := by
  unfold dropUndeclaredFields
  dsimp only
  split_ifs
  · exact .pure _
  · exact SagaWrites.transaction ((Tx.Steps.forM fun field _ => dropField_writes _ field).bind fun _ =>
      .pure _)

/-! ### Updating -/

/-- The own index of an existing field is dropped: a declared field changes its flags. -/
def DropsFlagged (sha : String → String) (existing : Collection) (fields : List CreateField)
    (statement : Statement) : Prop :=
  ∃ field ∈ fields, ∃ current, existing.field field.name = some current ∧
    DropsOwn sha existing.name current field statement

theorem applyField_writes (existing : Collection) (field : CreateField) (id : String) :
    SagaWrites server (fun s => Builds s ∨ DropsFlagged sha existing [field] s)
      (applyField sha server existing field id) := by
  unfold applyField
  split
  next h =>
    exact ((addField_writes _ _ _).mono fun _ => .inl).bind fun _ => .pure _
  next current h =>
    refine (updateField_writes _ _ _).mono fun s hs => hs.imp_right fun hdrops => ?_
    exact ⟨field, by simp, current, h, hdrops⟩

theorem applyFields_writes (ids : ℕ → String) (existing : Collection) (index : ℕ)
    (fields : List CreateField) :
    SagaWrites server (fun s => Builds s ∨ DropsFlagged sha existing fields s)
      (applyFields sha server ids existing index fields) := by
  induction fields generalizing index with
  | nil => exact .pure _
  | cons field rest ih =>
    refine Saga.Steps.bind ?_ fun _ => ?_
    · refine (applyField_writes existing field _).mono fun s hs => hs.imp_right ?_
      rintro ⟨f, hf, h⟩
      exact ⟨f, List.mem_cons.mpr (.inl (List.mem_singleton.mp hf)), h⟩
    · refine (ih (index + 1)).mono fun s hs => hs.imp_right ?_
      rintro ⟨f, hf, h⟩
      exact ⟨f, List.mem_cons_of_mem _ hf, h⟩

theorem dropMissing_writes (existing : Collection) (input : UpdateCollection) :
    SagaWrites server (DropsColumn existing.name) (dropMissing server existing input) := by
  unfold dropMissing
  split
  · split_ifs
    · exact (dropUndeclaredFields_writes _ _).bind fun _ => .pure _
    · exact .pure _
  · exact .pure _

/-- What an update does to the fields before its last transaction. -/
theorem reconcileFields_writes (ids : ℕ → String) (existing : Collection)
    (input : UpdateCollection) :
    SagaWrites server
      (fun s => Builds s ∨ DropsFlagged sha existing (input.fields.getD []) s ∨
        DropsColumn existing.name s)
      (reconcileFields sha server ids existing input) :=
  ((applyFields_writes ids existing 0 (input.fields.getD [])).mono
      fun _ hs => hs.imp_right .inl).bind fun _ =>
    (dropMissing_writes existing input).mono fun _ hs => .inr (.inr hs)

theorem updateViewTransaction_writes (existing : Collection) (rules options : Json) :
    TxWrites server Builds (updateViewTransaction server existing rules options) := by
  refine Tx.Steps.bind (Tx.Steps.onlyIf fun _ => ?_) fun _ =>
    TxWrites.modify fun db => dataWrite_updateCollectionRow db _ _ _
  refine Tx.Steps.lift_bind fun statement hstatement => ?_
  have hbuilds : Builds statement := by
    obtain ⟨_, -, hstatement⟩ := bind_eq_ok.mp hstatement
    obtain ⟨query, -, hstatement⟩ := bind_eq_ok.mp hstatement
    rw [← Except.ok.inj hstatement]
    trivial
  exact TxWrites.run hbuilds _

theorem updateView_writes (existing : Collection) (input : UpdateCollection) :
    SagaWrites server Builds (updateView server toQuery existing input) :=
  (Saga.Steps.read _).bind fun _ => (Saga.Steps.lift _).bind fun _ =>
    (SagaWrites.transaction (updateViewTransaction_writes _ _ _)).bind fun _ => .read _

/-- The runs of the last transaction of an update: the row and the positions are written, then the
declared indexes are applied to a schema that is as it was. -/
theorem updateTransaction_eq_ok {id : String} {updated : Collection} {all : List Collection} {previous : Json}
    {declared : List CreateField} {after : Db} {u : Unit}
    (h : updateTransaction sha server id updated all previous declared db = .ok (u, after)) :
    ∃ start mid context, DataWrite db start ∧
      FilterContext.forCollection updated all = .ok context ∧
      applyDeclaredIndexes sha server updated context (some previous) start = .ok ((), mid) ∧
      applyPolicies server updated context mid = .ok ((), after) := by
  unfold updateTransaction at h
  rw [Tx.modify_bind] at h
  obtain ⟨_, start, hpositions, h⟩ := Tx.bind_eq_ok.mp h
  obtain ⟨context, hcontext, h⟩ := Tx.lift_bind_eq_ok.mp h
  obtain ⟨_, mid, hindexes, h⟩ := Tx.bind_eq_ok.mp h
  obtain ⟨_, last, hpolicies, h⟩ := Tx.bind_eq_ok.mp h
  obtain ⟨-, rfl⟩ := Tx.lift_eq_ok.mp h
  have hstart : DataWrite db start := by
    refine Tx.Ensures.forM (I := DataWrite db) (fun a _ s x t hs h => ?_) _ _ _
      (dataWrite_updateCollectionRow db id updated.rules updated.options) hpositions
    obtain rfl : s.setPosition id a.1.name a.2 = t := by simpa using h
    exact hs.trans (dataWrite_setPosition s _ _ _)
  exact ⟨start, mid, context, hstart, hcontext, hindexes, hpolicies⟩

/-- The last transaction of an update builds, and drops what the previous declaration made. -/
theorem updateTransaction_writes {id : String} {updated : Collection} {all : List Collection} {previous : Json}
    {declared : List CreateField} {after : Db} {u : Unit}
    (h : updateTransaction sha server id updated all previous declared db = .ok (u, after)) :
    ∃ context names specs old, FilterContext.forCollection updated all = .ok context ∧
      declaredIndexes updated.options = .ok names ∧
      Indexes.parseAll sha updated names context = .ok specs ∧
      resolvePrevious sha updated context (some previous) = .ok old ∧
      Writes server (fun s => Builds s ∨ DropsDeclared db updated.name old specs s) db after := by
  obtain ⟨start, mid, context, hstart, hcontext, hdeclared, hpolicies⟩ := updateTransaction_eq_ok h
  obtain ⟨names, specs, old, hnames, hspecs, hold, hwrites⟩ := applyDeclaredIndexes_writes hdeclared
  refine ⟨context, names, specs, old, hcontext, hnames, hspecs, hold, ?_⟩
  refine (Writes.data hstart).trans (Writes.trans ?_
    ((applyPolicies_writes updated context).writes hpolicies))
  refine hwrites.mono fun s hs => hs.imp_right ?_
  rintro ⟨o, ho, hspec, hon, hs⟩
  refine ⟨o, ho, hspec, ?_, hs⟩
  rwa [onTable, hstart.indexes] at hon

/-- The database an update of a table leaves: what it did to the fields, and its last transaction
where that succeeds. -/
theorem update_snd {nameOrId : String} {input : UpdateCollection} {ids : ℕ → String}
    {existing : Collection} (hget : get db nameOrId = .ok existing)
    (htype : existing.collectionType ≠ .view) :
    (update sha server toQuery nameOrId input ids db).2 =
        (reconcileFields sha server ids existing input db).2 ∨
      ∃ mid read, reconcileFields sha server ids existing input db = (.ok (), mid) ∧
        get mid existing.id = .ok read ∧
        updateTransaction sha server existing.id { read with
            rules := input.rules.getD existing.rules
            options := input.options.getD existing.options } (list mid) existing.options
          (input.fields.getD []) mid.tick =
            .ok ((), (update sha server toQuery nameOrId input ids db).2) := by
  have hread : Saga.read (fun db => get db nameOrId) db = (.ok existing, db) := by
    rw [Saga.read_apply, hget]
  rw [update, Saga.bind_of_ok hread, if_neg htype]
  cases hmid : reconcileFields sha server ids existing input db with
  | mk r mid =>
    cases r with
    | error e =>
      rw [Saga.bind_of_error hmid]
      exact .inl rfl
    | ok u =>
      rw [Saga.bind_of_ok hmid]
      cases hfound : get mid existing.id with
      | error e =>
        refine .inl (congrArg Prod.snd (Saga.bind_of_error (e := e) ?_ _))
        rw [Saga.read_apply, hfound]
        rfl
      | ok read =>
        have hread : Saga.read (fun db => do
            let read ← get db existing.id
            .ok (read, list db)) mid = (.ok (read, list mid), mid) := by
          rw [Saga.read_apply, hfound]
          rfl
        rw [Saga.bind_of_ok hread]
        cases hcommit : transaction (updateTransaction sha server existing.id { read with
            rules := input.rules.getD existing.rules
            options := input.options.getD existing.options } (list mid) existing.options
            (input.fields.getD [])) mid with
        | mk r last =>
          cases r with
          | error e =>
            obtain ⟨-, rfl⟩ := transaction_eq_error.mp hcommit
            exact .inl (congrArg Prod.snd (Saga.bind_of_error hcommit _))
          | ok u =>
            refine .inr ⟨mid, read, rfl, hfound, ?_⟩
            dsimp only
            rw [Saga.bind_of_ok hcommit]
            exact transaction_eq_ok.mp hcommit

end Collections

end LazyPock
