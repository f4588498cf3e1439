import LazyPock.Schema.Effects
import Mathlib.Data.List.Infix

/-!
# The writes of an operation, one by one

A creation and an update of a collection, taken apart into single writes. A scope says which
relations, collections and fields these may be about, and whether anything may be dropped; what the
collections outside the scope keep follows from what a single write leaves alone.

## Main definitions

* `Scope`, `Db.Step`: a write within a scope.
* `Db.Kept`: the collections of some names, and the columns of their tables, are as before.
* `Db.Grown`: no field and no column is gone.

## Main results

* `Collections.create_scoped`, `Collections.update_scoped`: the writes of a creation
  and of an update.
* `Db.Step.kept`, `Db.Step.grown`: what a write leaves alone.
* `Collections.create_kept`, `Collections.update_kept`,
  `Collections.delete_kept`: an operation leaves every other collection alone.
-/

namespace LazyPock

open Ddl Machine Saga List

/-- The relation whose columns a statement changes. -/
@[grind =]
def Ddl.Statement.relation : Statement → Option String
  | .createTable name _ | .addColumn name _ | .alterDefault name _ _ | .dropColumn name _
  | .createView name _ | .replaceView name _ | .dropView name | .dropTable name => some name
  | .createIndex .. | .dropIndex _ => none

/-- The table that a statement creates. -/
@[grind =]
def Ddl.Statement.newTable : Statement → Option String
  | .createTable name _ => some name
  | _ => none

theorem Ddl.Statement.relation_of_newTable {statement : Statement} {name : String}
    (h : statement.newTable = some name) : statement.relation = some name := by
  cases statement <;> simp_all [newTable, relation]

/-- What a sequence of writes may be about. -/
structure Scope where
  relation : String → Prop
  /-- Collections by id. -/
  collection : String → Prop
  /-- Fields by id. -/
  field : String → Prop
  /-- The names of collections that are added. -/
  adds : String → Prop
  /-- Whether columns and fields may be dropped. -/
  drops : Prop

/-- A scope that is limited only in what it adds and drops. -/
def Scope.unlimited (adds drops : Prop) : Scope :=
  ⟨fun _ => True, fun _ => True, fun _ => True, fun _ => adds, drops⟩

namespace Db

/-- The columns of a relation. -/
def columnsOf (db : Db) (relation : String) : List String :=
  ((db.tables relation).map Relation.columnNames).getD []

/-- A write within a scope. -/
inductive Step (server : Server) (scope : Scope) : Db → Db → Prop
  | tick (db : Db) : Step server scope db db.tick
  | policies (db : Db) (policies : Policies.Catalog) : Step server scope db { db with policies }
  | builds {db after : Db} {statement : Statement} (hbuilds : Collections.Builds statement)
      (hrelation : ∀ name, statement.relation = some name → scope.relation name)
      (hexec : db.exec server statement = some after) : Step server scope db after
  | dropIndex (db : Db) (name : String) : Step server scope db (db.setIndex name none)
  | dropColumn {db after : Db} {table column : String} (hdrops : scope.drops)
      (hrelation : scope.relation table)
      (hbuiltin : column ∉ systemColumns ∧ column ∉ authSystemColumns)
      (hexec : db.exec server (.dropColumn table column) = some after) : Step server scope db after
  | insertCollection {db after : Db} {collection : Collection} (hadds : scope.adds collection.name)
      (hinsert : db.insertCollection collection = some after) : Step server scope db after
  | insertField {db after : Db} {field : Field} (hcollection : scope.collection field.collectionId)
      (hinsert : db.insertField field = some after) : Step server scope db after
  | updateField (db : Db) {id : String} (hfield : scope.field id) (required isUnique : Bool)
      (options : Json) : Step server scope db (db.updateFieldRow id required isUnique options)
  | deleteField (db : Db) {id : String} (hdrops : scope.drops) (hfield : scope.field id) :
      Step server scope db (db.deleteFieldRow id)
  | setPosition (db : Db) {id : String} (hcollection : scope.collection id) (name : String)
      (position : ℕ) : Step server scope db (db.setPosition id name position)
  | updateCollection (db : Db) {id : String} (hcollection : scope.collection id)
      (rules options : Json) : Step server scope db (db.updateCollectionRow id rules options)

/-! ### Row-level security along a write -/

/-- A relation is a table. -/
def IsTable (db : Db) (name : String) : Prop := ∃ columns, db.tables name = some (.table columns)

/-- Row-level security is on for a relation. -/
def Secure (db : Db) (name : String) : Prop := (db.policies name).enabled = true

/-- No table loses row-level security, and those that are new have names that may be added. -/
def Guarded (adds : String → Prop) (db after : Db) : Prop :=
  ∀ name, after.IsTable name → adds name ∨ db.IsTable name ∧ (db.Secure name → after.Secure name)

section Guarded

variable {server : Server} {adds : String → Prop} {db mid after : Db}

theorem Guarded.refl (adds : String → Prop) (db : Db) : Guarded adds db db :=
  fun _ htable => .inr ⟨htable, id⟩

theorem Guarded.trans (hfirst : Guarded adds db mid) (hlast : Guarded adds mid after) :
    Guarded adds db after := by
  intro name htable
  obtain hnew | ⟨hmid, hkeeps⟩ := hlast name htable
  · exact .inl hnew
  · exact (hfirst name hmid).imp_right fun ⟨hbefore, hearlier⟩ => ⟨hbefore, hkeeps ∘ hearlier⟩

theorem Guarded.of_reflTransGen (h : Relation.ReflTransGen (Guarded adds) db after) :
    Guarded adds db after := by
  induction h with
  | refl => exact .refl adds db
  | tail _ hlast ih => exact ih.trans hlast

theorem Guarded.of_eq (htables : after.tables = db.tables) (hpolicies : after.policies = db.policies) :
    Guarded adds db after := by
  intro name htable
  unfold Secure
  rw [hpolicies]
  unfold IsTable at htable ⊢
  rw [htables] at htable
  exact .inr ⟨htable, id⟩

/-- A relation that is put where there was one of its kind, or none and its name may be added. -/
theorem Guarded.setTable {table : String} {relation : Relation}
    (h : relation.isTable = true → adds table ∨ db.IsTable table) :
    Guarded adds db (db.setTable table (some relation)) := by
  rintro name ⟨columns, hname⟩
  rw [tables_setTable] at hname
  by_cases hne : name = table
  · subst hne
    rw [Function.update_self, Option.some.injEq] at hname
    exact (h (hname ▸ rfl)).imp_right fun htable => ⟨htable, id⟩
  · rw [Function.update_of_ne hne] at hname
    exact .inr ⟨⟨columns, hname⟩, id⟩

theorem exec_guarded {statement : Statement} (h : db.exec server statement = some after)
    (hadds : ∀ name, statement.newTable = some name → adds name) : Guarded adds db after := by
  cases statement with
  | createTable table columns =>
    obtain ⟨-, -, -, rfl⟩ := exec_createTable.mp h
    rintro name ⟨old, hname⟩
    by_cases hne : name = table
    · exact .inl (hne ▸ hadds table rfl)
    · simp only [tables_setTable, Function.update_of_ne hne] at hname
      refine .inr ⟨⟨old, hname⟩, fun hsecure => ?_⟩
      simpa only [Secure, Function.update_of_ne hne] using hsecure
  | addColumn table column =>
    obtain ⟨columns, htable, -, -, rfl⟩ := exec_addColumn.mp h
    exact .setTable fun _ => .inr ⟨columns, htable⟩
  | alterDefault table column default =>
    obtain ⟨columns, htable, -, -, rfl⟩ := exec_alterDefault.mp h
    exact .setTable fun _ => .inr ⟨columns, htable⟩
  | dropColumn table column =>
    obtain ⟨columns, htable, -, -, rfl⟩ := exec_dropColumn.mp h
    -- The indexes that go with the column are no tables.
    have hset : ∀ rest, Guarded adds db (db.setTable table (some (.table rest))) :=
      fun _ => .setTable fun _ => .inr ⟨columns, htable⟩
    exact hset _
  | createIndex ifNotExists name index =>
    obtain ⟨-, -, rfl⟩ | ⟨-, -, -, -, -, rfl⟩ := exec_createIndex.mp h <;> exact .of_eq rfl rfl
  | dropIndex name =>
    obtain rfl := exec_dropIndex.mp h
    exact .of_eq rfl rfl
  | createView name query =>
    simp only [exec] at h
    split_ifs at h
    obtain ⟨columns, -, rfl⟩ := Option.map_eq_some_iff.mp h
    exact .setTable fun hview => absurd hview (by simp [Relation.isTable])
  | replaceView name query =>
    simp only [exec] at h
    split at h
    · obtain ⟨columns, -, h⟩ := Option.bind_eq_some_iff.mp h
      split_ifs at h
      obtain rfl := Option.some.inj h
      exact .setTable fun hview => absurd hview (by simp [Relation.isTable])
    · cases h
  | dropView table | dropTable table =>
    obtain rfl := Option.some.inj h
    rintro name ⟨columns, hname⟩
    simp only [dropRelations] at hname
    split_ifs at hname with hmem
    obtain ⟨relation, hrelation, hunlinked⟩ := Option.map_eq_some_iff.mp hname
    cases relation with
    | view _ => cases hunlinked
    | table old =>
      refine .inr ⟨⟨old, hrelation⟩, fun hsecure => ?_⟩
      simpa only [Secure, dropRelations, if_neg hmem] using hsecure

/-- A write of the operations on fields: it is about columns, indexes and rows of `_fields`, and those
that are added have some names. -/
inductive FieldStep (server : Server) (scope : Scope) (names : String → Prop) : Db → Db → Prop
  | tick (db : Db) : FieldStep server scope names db db.tick
  | builds {db after : Db} {statement : Statement} (hbuilds : Collections.Builds statement)
      (hrelation : ∀ name, statement.relation = some name → scope.relation name)
      (hold : statement.newTable = none) (hexec : db.exec server statement = some after) :
      FieldStep server scope names db after
  | dropIndex (db : Db) (name : String) : FieldStep server scope names db (db.setIndex name none)
  | dropColumn {db after : Db} {table column : String} (hdrops : scope.drops)
      (hrelation : scope.relation table)
      (hbuiltin : column ∉ systemColumns ∧ column ∉ authSystemColumns)
      (hexec : db.exec server (.dropColumn table column) = some after) :
      FieldStep server scope names db after
  | insertField {db after : Db} {field : Field} (hcollection : scope.collection field.collectionId)
      (hname : names field.name) (hinsert : db.insertField field = some after) :
      FieldStep server scope names db after
  | updateField (db : Db) {id : String} (hfield : scope.field id) (required isUnique : Bool)
      (options : Json) :
      FieldStep server scope names db (db.updateFieldRow id required isUnique options)
  | deleteField (db : Db) {id : String} (hdrops : scope.drops) (hfield : scope.field id) :
      FieldStep server scope names db (db.deleteFieldRow id)

theorem FieldStep.step {scope : Scope} {names : String → Prop}
    (h : FieldStep server scope names db after) : Step server scope db after := by
  cases h with
  | tick => exact .tick db
  | builds hbuilds hrelation _ hexec => exact .builds hbuilds hrelation hexec
  | dropIndex name => exact .dropIndex db name
  | dropColumn hdrops hrelation hbuiltin hexec => exact .dropColumn hdrops hrelation hbuiltin hexec
  | insertField hcollection _ hinsert => exact .insertField hcollection hinsert
  | updateField hfield required isUnique options => exact .updateField db hfield _ _ _
  | deleteField hdrops hfield => exact .deleteField db hdrops hfield

theorem FieldStep.guarded {scope : Scope} {names : String → Prop}
    (h : FieldStep server scope names db after) : Guarded adds db after := by
  cases h with
  | builds _ _ hold hexec =>
    exact exec_guarded hexec fun name h => absurd (hold.symm.trans h) (by simp)
  | dropColumn _ _ _ hexec => exact exec_guarded hexec (by simp [Statement.newTable])
  | insertField _ _ hinsert =>
    obtain ⟨-, rfl⟩ := insertField_eq_some.mp hinsert
    exact .of_eq rfl rfl
  | tick | dropIndex | updateField | deleteField => exact .of_eq rfl rfl

theorem insertCollection_guarded {collection : Collection}
    (h : db.insertCollection collection = some after) : Guarded adds db after := by
  obtain ⟨-, rfl⟩ := insertCollection_eq_some.mp h
  exact .of_eq rfl rfl

/-- Where the rules of a collection are applied, row-level security is on, and stays on elsewhere. -/
theorem policies_secure {collection : Collection} {context : FilterContext}
    {statements : List Policies.Statement} {policies : Policies.Catalog}
    (hstatements : Policies.statements collection context = .ok statements)
    (h : Policies.exec db.policies statements = some policies) (name : String)
    (hname : name = collection.name ∨ db.Secure name) : Secure { db with policies } name := by
  rw [Policies.exec_statements hstatements, Option.some.injEq] at h
  by_cases hne : name = collection.name
  · simp [Secure, ← h, hne]
  · simpa only [Secure, ← h, Function.update_of_ne hne] using hname.resolve_left hne

end Guarded

end Db

namespace Collections

variable {α β : Type} {sha : String → String} {server : Server}
  {toQuery : Json → List Collection → Result String} {scope : Scope} {J : Db → Prop}
  {R : Db → Db → Prop} (hR : ∀ a b, Db.Step server scope a b → Db.Guarded scope.adds a b → R a b)
  {names : String → Prop} (hF : ∀ a b, Db.FieldStep server scope names a b → R a b)
  (hJ : ∀ a b, J a → R a b → J b)

/-! ### Transactions -/

include hR in
theorem fieldStep_of (a b : Db) (h : Db.FieldStep server scope (fun _ => True) a b) : R a b :=
  hR a b h.step h.guarded

variable {statement : Statement}

include hR hJ in
theorem run_scoped (hbuilds : Builds statement)
    (hrelation : ∀ name, statement.relation = some name → scope.relation name)
    (hnew : ∀ name, statement.newTable = some name → scope.adds name) (e : Error) :
    Tx.Steps J R (run server statement e) :=
  .run hJ fun _ _ _ h => hR _ _ (.builds hbuilds hrelation h) (Db.exec_guarded h hnew)

include hF hJ in
/-- A statement on a table that is there. -/
theorem runField_scoped (hbuilds : Builds statement)
    (hrelation : ∀ name, statement.relation = some name → scope.relation name)
    (hold : statement.newTable = none) (e : Error) : Tx.Steps J R (run server statement e) :=
  .run hJ fun _ _ _ h => hF _ _ (.builds hbuilds hrelation hold h)

include hF hJ in
/-- A statement on an index. -/
theorem runIndex_scoped (hbuilds : Builds statement)
    (hrelation : statement.relation = none) (e : Error) :
    Tx.Steps J R (run server statement e) :=
  runField_scoped hF hJ hbuilds (fun _ h => absurd (hrelation ▸ h) (by simp)) (by
    cases hnew : statement.newTable with
    | none => rfl
    | some name => exact absurd (hrelation ▸ Statement.relation_of_newTable hnew) (by simp)) e

include hF hJ in
theorem dropIndex_scoped (name : String) (e : Error) :
    Tx.Steps J R (run server (.dropIndex name) e) := by
  refine .run hJ fun s t _ h => ?_
  rw [Db.exec_dropIndex] at h
  exact h ▸ hF _ _ (.dropIndex s name)

include hF hJ in
theorem insertField_scoped {field : Field} (h : scope.collection field.collectionId)
    (hname : names field.name) : Tx.Steps J R (insertField server field) :=
  .run hJ fun _ _ _ hinsert => hF _ _ (.insertField h hname hinsert)

include hF hJ in
theorem insertBuiltinField_scoped {field : Field} (h : scope.collection field.collectionId)
    (hname : names field.name) : Tx.Steps J R (insertBuiltinField server field) := by
  intro s a t hs hrun
  rw [insertBuiltinField, Tx.run_eq_ok] at hrun
  split_ifs at hrun
  · obtain rfl := Option.some.inj hrun
    exact ⟨.refl, hs⟩
  · have hstep : R s t := hF _ _ (.insertField h hname hrun)
    exact ⟨.single hstep, hJ s t hs hstep⟩

variable {collection : Collection}

include hR hJ in
theorem insertCollection_scoped (h : scope.adds collection.name)
    (e : Error) :
    Tx.Steps J R (Tx.run (fun db => db.insertCollection collection) e) :=
  .run hJ fun _ _ _ hinsert =>
    hR _ _ (.insertCollection h hinsert) (Db.insertCollection_guarded hinsert)

include hF hJ in
theorem createOwnIndex_scoped (message table : String) (field : Field) :
    Tx.Steps J R (createOwnIndex sha server message table field) :=
  .onSome fun _ _ => runIndex_scoped hF hJ (by trivial) rfl _

include hR hJ in
theorem applyPolicies_scoped (collection : Collection) (context : FilterContext) :
    Tx.Steps J R (applyPolicies server collection context) := by
  refine .lift_bind fun statements hstatements => .run hJ fun s t _ h => ?_
  split at h
  · split_ifs at h
    obtain ⟨policies, hpolicies, rfl⟩ := Option.map_eq_some_iff.mp h
    exact hR _ _ (.policies s policies) fun name htable =>
      .inr ⟨htable, fun hsecure => Db.policies_secure hstatements hpolicies name (.inr hsecure)⟩
  · cases h

include hF hJ in
theorem applyDeclaredIndexes_scoped (collection : Collection) (context : FilterContext)
    (previousOptions : Option Json) :
    Tx.Steps J R
      (applyDeclaredIndexes sha server collection context previousOptions) := by
  refine (Tx.Steps.lift _).bind fun declared => (Tx.Steps.lift _).bind fun specs =>
    Tx.Steps.get.bind fun db => (Tx.Steps.lift _).bind fun previous => .bind ?_ fun _ => ?_
  · refine .forM fun old _ => ?_
    unfold dropOld
    split_ifs
    · exact .pure _
    · exact dropIndex_scoped hF hJ _ _
  · refine .forM fun spec _ => ?_
    unfold createDeclared
    dsimp only
    split_ifs
    · exact .pure _
    · exact .pure _
    · exact runIndex_scoped hF hJ (by trivial) rfl _

include hF hJ in
/-- A transaction of its own. -/
theorem transaction_scoped {work : Tx Db Error α} (h : Tx.Steps J R work) :
    Steps J R (transaction work) :=
  .commit ((Tx.Steps.modify hJ fun s _ => hF _ _ (.tick s)).bind fun _ => h)

/-! ### Creating -/

include hR hJ in
theorem createTransaction_scoped {ids : Ids} {all : List Collection}
    {table : Option Statement} (htable : ∀ s, table = some s → Builds s ∧
      ∀ name, s.relation = some name → scope.relation name ∧ scope.adds name)
    (hadds : scope.adds collection.name) (hcollection : scope.collection ids.collection)
    (hfields : ∀ f ∈ collection.fields, f.collectionId = ids.collection) :
    Tx.Steps J R (createTransaction sha server ids collection all table) := by
  refine (Tx.Steps.onSome fun s hs => run_scoped hR hJ (htable s hs).1
      (fun name h => ((htable s hs).2 name h).1)
      (fun name h => ((htable s hs).2 name (Statement.relation_of_newTable h)).2) _).bind fun _ =>
    (insertCollection_scoped hR hJ hadds _).bind fun _ => .bind ?_ fun _ => .bind ?_ fun _ =>
    (Tx.Steps.onlyIf fun _ => runIndex_scoped (fieldStep_of hR) hJ (by trivial) rfl _).bind fun _ =>
    (Tx.Steps.lift _).bind fun context => (applyDeclaredIndexes_scoped (fieldStep_of hR) hJ _ _ _).bind fun _ =>
    (applyPolicies_scoped hR hJ _ _).bind fun _ => .onlyIf fun _ => .lift _
  · refine .forM fun f hf => (insertField_scoped (fieldStep_of hR) hJ ?_ trivial).bind fun _ =>
      .onlyIf fun _ => createOwnIndex_scoped (fieldStep_of hR) hJ _ _ _
    rw [hfields f hf]
    exact hcollection
  · refine .onlyIf fun _ => .forM fun f hf => insertBuiltinField_scoped (fieldStep_of hR) hJ ?_ trivial
    obtain ⟨entry, -, rfl⟩ := mem_map.mp hf
    exact hcollection

theorem relation_createTable {resolveTable : String → Option String} (h : createTableStatement collection resolveTable = .ok statement) :
    statement.relation = some collection.name := by
  obtain ⟨_, -, h⟩ := bind_eq_ok.mp h
  obtain ⟨_, -, h⟩ := bind_eq_ok.mp h
  obtain ⟨columns, -, h⟩ := bind_eq_ok.mp h
  rw [← Except.ok.inj h]
  rfl

variable {input : CreateCollection}

/-- What is settled before a table is created. -/
theorem prepareTable_name {db : Db} {ids : Ids}
    {table : Option Statement} (h : prepareTable db input ids = .ok (collection, table)) :
    collection.id = ids.collection ∧ collection.name = input.name ∧
      collection.collectionType = input.collectionType ∧
      (∀ f ∈ collection.fields, f.collectionId = ids.collection) ∧
      ∀ s, table = some s → s.relation = some input.name := by
  have hfields : ∀ f ∈ newFields ids input.fields, f.collectionId = ids.collection := by
    intro f hf
    obtain ⟨entry, -, rfl⟩ := mem_map.mp hf
    rfl
  unfold prepareTable at h
  obtain ⟨_, -, h⟩ := bind_eq_ok.mp h
  obtain ⟨_, -, h⟩ := bind_eq_ok.mp h
  obtain ⟨_, -, h⟩ := bind_eq_ok.mp h
  split at h
  · obtain ⟨_, -, h⟩ := bind_eq_ok.mp h
    obtain ⟨rfl, rfl⟩ := Prod.mk.inj (Except.ok.inj h)
    exact ⟨rfl, rfl, rfl, hfields, fun s hs => absurd hs (by simp)⟩
  · obtain ⟨statement, hstatement, h⟩ := bind_eq_ok.mp h
    obtain ⟨rfl, rfl⟩ := Prod.mk.inj (Except.ok.inj h)
    refine ⟨rfl, rfl, rfl, hfields, fun s hs => ?_⟩
    obtain rfl := Option.some.inj hs
    exact relation_createTable hstatement

/-- A new collection has the options it is given; a table that is there is adopted on request only. -/
theorem declaration_of_prepareTable {db : Db} {ids : Ids} {table : Option Statement}
    (h : prepareTable db input ids = .ok (collection, table)) :
    collection.options = input.options ∧
      (db.nameTaken input.name = true → input.adoptExistingTable = true) := by
  unfold prepareTable at h
  obtain ⟨_, -, h⟩ := bind_eq_ok.mp h
  obtain ⟨_, -, h⟩ := bind_eq_ok.mp h
  obtain ⟨_, hadopts, h⟩ := bind_eq_ok.mp h
  have hadopts : db.nameTaken input.name = true → input.adoptExistingTable = true := by
    intro htaken
    rw [← Bool.not_eq_false]
    exact fun hrefused => failIf_eq_ok.mp hadopts ⟨htaken, hrefused⟩
  split at h
  · obtain ⟨_, -, h⟩ := bind_eq_ok.mp h
    obtain ⟨rfl, rfl⟩ := Prod.mk.inj (Except.ok.inj h)
    exact ⟨rfl, hadopts⟩
  · obtain ⟨statement, -, h⟩ := bind_eq_ok.mp h
    obtain ⟨rfl, rfl⟩ := Prod.mk.inj (Except.ok.inj h)
    exact ⟨rfl, hadopts⟩

/-- What is settled before a view is created. -/
theorem prepareView_eq_ok {db : Db} {ids : Ids} (h : prepareView toQuery db input ids = .ok (collection, statement)) :
    collection.id = ids.collection ∧ collection.name = input.name ∧
      collection.collectionType = .view ∧ Builds statement ∧
      statement.relation = some input.name := by
  obtain ⟨_, -, h⟩ := bind_eq_ok.mp h
  obtain ⟨_, -, h⟩ := bind_eq_ok.mp h
  obtain ⟨_, -, h⟩ := bind_eq_ok.mp h
  obtain ⟨options, -, h⟩ := bind_eq_ok.mp h
  obtain ⟨created, hcreated, h⟩ := bind_eq_ok.mp h
  obtain ⟨_, -, hcreated⟩ := bind_eq_ok.mp hcreated
  obtain ⟨query, -, hcreated⟩ := bind_eq_ok.mp hcreated
  obtain ⟨rfl, rfl⟩ := Prod.mk.inj (Except.ok.inj h)
  rw [← Except.ok.inj hcreated]
  exact ⟨rfl, rfl, rfl, trivial, rfl⟩

include hR hJ in
theorem createView_scoped {ids : Ids} (hrelation : scope.relation input.name)
    (hadds : scope.adds input.name) :
    Steps J R (createView server toQuery input ids) := by
  refine .read_bind fun db ⟨collection, statement⟩ hdb h => ?_
  obtain ⟨-, hname, -, hbuilds, htarget⟩ := prepareView_eq_ok h
  have hstatement : ∀ name, statement.relation = some name → scope.relation name ∧ scope.adds name := by
    intro name h
    obtain rfl := Option.some.inj (htarget.symm.trans h)
    exact ⟨hrelation, hadds⟩
  exact transaction_scoped (fieldStep_of hR) hJ ((run_scoped hR hJ hbuilds (fun name h => (hstatement name h).1)
      (fun name h => (hstatement name (Statement.relation_of_newTable h)).2) _).bind fun _ =>
    (insertCollection_scoped hR hJ (hname ▸ hadds) _).bind fun _ => Tx.Steps.get.bind fun _ =>
    (Tx.Steps.lift _).bind fun _ => .pure _) db hdb

include hR hJ in
/-- **The writes of a creation** are about the new collection. -/
theorem create_scoped {ids : Ids} (hrelation : scope.relation input.name)
    (hadds : scope.adds input.name) (hcollection : scope.collection ids.collection) :
    Steps J R (create sha server toQuery input ids) := by
  refine (Steps.lift _).bind fun _ => ?_
  split
  · exact createView_scoped hR hJ hrelation hadds
  · refine .read_bind fun db ⟨⟨collection, table⟩, all⟩ hdb h => ?_
    obtain ⟨prepared, hprepared, h⟩ := bind_eq_ok.mp h
    obtain ⟨rfl, -⟩ := Prod.mk.inj (Except.ok.inj h)
    obtain ⟨-, hname, -, hfields, htarget⟩ := prepareTable_name hprepared
    have htable : ∀ s, table = some s → Builds s ∧
        ∀ name, s.relation = some name → scope.relation name ∧ scope.adds name := by
      intro s hs
      refine ⟨prepareTable_builds hprepared s hs, fun name hname => ?_⟩
      obtain rfl := Option.some.inj ((htarget s hs).symm.trans hname)
      exact ⟨hrelation, hadds⟩
    exact (transaction_scoped (fieldStep_of hR) hJ (createTransaction_scoped hR hJ htable (hname ▸ hadds) hcollection
      hfields)).bind (fun _ => .pure _) db hdb

/-! ### Updating -/

/-- Whatever collection the key finds is within the scope. -/
def Addresses (J : Db → Prop) (scope : Scope) (key : String) : Prop :=
  ∀ db c, J db → get db key = .ok c → scope.collection c.id ∧ scope.relation c.name ∧
    (c.collectionType ≠ .view → ∀ f ∈ c.fields, scope.field f.id)

/-- The collection a key finds may be added to. -/
def Reaches (J : Db → Prop) (scope : Scope) (key : String) : Prop :=
  ∀ db c, J db → get db key = .ok c → scope.collection c.id ∧ scope.relation c.name

theorem Addresses.reaches {key : String} (h : Addresses J scope key) : Reaches J scope key :=
  fun db c hdb hget => ⟨(h db c hdb hget).1, (h db c hdb hget).2.1⟩

theorem relation_addColumnStatements {table : String} {field : Field} {statements : List Statement}
    (h : addColumnStatements table field = .ok statements) {s : Statement} (hs : s ∈ statements) :
    s.relation = some table ∧ s.newTable = none := by
  unfold addColumnStatements at h
  obtain ⟨_, -, h⟩ := bind_eq_ok.mp h
  obtain ⟨columnType, -, h⟩ := bind_eq_ok.mp h
  obtain ⟨default, -, h⟩ := bind_eq_ok.mp h
  split at h
  · obtain rfl := Except.ok.inj h
    rw [mem_singleton.mp hs]
    exact ⟨rfl, rfl⟩
  · split at h
    · obtain rfl := Except.ok.inj h
      rw [mem_singleton.mp hs]
      exact ⟨rfl, rfl⟩
    · obtain ⟨zero, -, h⟩ := bind_eq_ok.mp h
      obtain rfl := Except.ok.inj h
      rcases mem_cons.mp hs with rfl | hs
      · exact ⟨rfl, rfl⟩
      · rw [mem_singleton.mp hs]
        exact ⟨rfl, rfl⟩

include hF hJ in
theorem addField_scoped {key : String} (hkey : Reaches J scope key) {input : CreateField}
    (hinput : names input.name) (id : String) :
    Steps J R (addField sha server key input id) := by
  refine .read_bind fun db ⟨collection, field, statements⟩ hdb h => ?_
  obtain ⟨existing, hget, h⟩ := bind_eq_ok.mp h
  obtain ⟨_, -, h⟩ := bind_eq_ok.mp h
  obtain ⟨_, -, h⟩ := bind_eq_ok.mp h
  obtain ⟨_, -, h⟩ := bind_eq_ok.mp h
  obtain ⟨added, hadded, h⟩ := bind_eq_ok.mp h
  simp only [Except.ok.injEq, Prod.mk.injEq] at h
  obtain ⟨rfl, rfl, rfl⟩ := h
  obtain ⟨hcollection, hrelation⟩ := hkey db existing hdb hget
  refine transaction_scoped hF hJ (.bind (.forM fun s hs => ?_) fun _ =>
    (createOwnIndex_scoped hF hJ _ _ _).bind fun _ => (insertField_scoped hF hJ hcollection hinput).bind fun _ =>
    .pure _) db hdb
  obtain ⟨htarget, hold⟩ := relation_addColumnStatements hadded hs
  refine runField_scoped hF hJ (addColumnStatements_builds hadded s hs) (fun name hname => ?_) hold _
  obtain rfl := Option.some.inj (htarget.symm.trans hname)
  exact hrelation

include hF hJ in
theorem updateField_scoped {table : String} (htable : scope.relation table) {current : Field}
    (hfield : scope.field current.id) (wanted : CreateField) :
    Steps J R (updateField sha server table current wanted) := by
  refine (Steps.lift _).bind fun _ => transaction_scoped hF hJ (.bind ?_ fun _ => .bind ?_ fun _ =>
    .modify hJ fun s _ => hF _ _ (.updateField s hfield _ _ _))
  · unfold alterIndex
    dsimp only
    split_ifs
    · exact .pure _
    · exact (Tx.Steps.onlyIf fun _ => dropIndex_scoped hF hJ _ _).bind fun _ =>
        .onSome fun _ _ => runIndex_scoped hF hJ (by trivial) rfl _
  · unfold alterDefault
    split_ifs
    · exact .pure _
    · refine (Tx.Steps.lift _).bind fun _ => runField_scoped hF hJ (by trivial) (fun name hname => ?_) rfl _
      obtain rfl := Option.some.inj hname
      exact htable

include hF hJ in
theorem dropField_scoped {table : String} (hdrops : scope.drops) (htable : scope.relation table)
    {field : Field} (hfield : scope.field field.id) :
    Tx.Steps J R (dropField server table field) := by
  refine .lift_bind fun statement hstatement => .bind ?_ fun _ =>
    .modify hJ fun s _ => hF _ _ (.deleteField s hdrops hfield)
  obtain ⟨_, -, hstatement⟩ := bind_eq_ok.mp hstatement
  obtain ⟨_, -, hstatement⟩ := bind_eq_ok.mp hstatement
  obtain ⟨_, hbuiltin, hstatement⟩ := bind_eq_ok.mp hstatement
  rw [failIf_eq_ok, not_or] at hbuiltin
  obtain rfl := Except.ok.inj hstatement
  exact .run hJ fun _ _ _ h => hF _ _ (.dropColumn hdrops htable hbuiltin h)

variable {existing : Collection}

include hF hJ in
theorem applyFields_scoped {ids : ℕ → String}
    (hname : Reaches J scope existing.name) (hrelation : scope.relation existing.name)
    (hfields : ∀ f ∈ existing.fields, names f.name → scope.field f.id) (index : ℕ)
    {fields : List CreateField}
    (hnames : ∀ f ∈ fields, names f.name) :
    Steps J R (applyFields sha server ids existing index fields) := by
  induction fields generalizing index with
  | nil => exact .pure _
  | cons field rest ih =>
    obtain ⟨hfirst, hnames⟩ := forall_mem_cons.mp hnames
    refine .bind ?_ fun _ => ih (index + 1) hnames
    unfold applyField
    split
    next => exact (addField_scoped hF hJ hname hfirst _).bind fun _ => .pure _
    next current hcurrent =>
      have hname : current.name = field.name := by simpa using List.find?_some hcurrent
      exact updateField_scoped hF hJ hrelation
        (hfields _ (mem_of_find?_eq_some hcurrent) (hname ▸ hfirst)) _

include hF hJ in
theorem dropMissing_scoped {input : UpdateCollection}
    (hrelation : scope.relation existing.name)
    (hdrops : input.deleteMissingFields = true →
      scope.drops ∧ ∀ f ∈ existing.fields, scope.field f.id) :
    Steps J R (dropMissing server existing input) := by
  unfold dropMissing
  split
  · split_ifs with hdelete
    · refine .bind ?_ fun _ => .pure _
      unfold dropUndeclaredFields
      dsimp only
      split_ifs
      · exact .pure _
      · refine transaction_scoped hF hJ (.bind (.forM fun field hfield => ?_) fun _ => .pure _)
        have hmem : field ∈ existing.fields :=
          mem_of_mem_filter (mem_of_mem_filter hfield)
        exact dropField_scoped hF hJ (hdrops hdelete).1 hrelation ((hdrops hdelete).2 field hmem)
    · exact .pure _
  · exact .pure _

include hF hJ in
theorem reconcileFields_scoped {input : UpdateCollection} {ids : ℕ → String}
    (hname : Reaches J scope existing.name) (hrelation : scope.relation existing.name)
    (hfields : ∀ f ∈ existing.fields, names f.name → scope.field f.id)
    (hdrops : input.deleteMissingFields = true →
      scope.drops ∧ ∀ f ∈ existing.fields, scope.field f.id)
    (hnames : ∀ f ∈ input.fields.getD [], names f.name) :
    Steps J R (reconcileFields sha server ids existing input) :=
  (applyFields_scoped hF hJ hname hrelation hfields 0 hnames).bind fun _ =>
    dropMissing_scoped hF hJ hrelation hdrops

include hR hJ in
theorem updateTransaction_scoped {id : String} (hcollection : scope.collection id)
    (updated : Collection) (all : List Collection) (previous : Json) (declared : List CreateField) :
    Tx.Steps J R
      (updateTransaction sha server id updated all previous declared) :=
  (Tx.Steps.modify hJ fun s _ => hR _ _ (.updateCollection s hcollection _ _)
      (.of_eq rfl rfl)).bind fun _ =>
    (Tx.Steps.forM fun _ _ => .modify hJ fun s _ => hR _ _ (.setPosition s hcollection _ _)
      (.of_eq rfl rfl)).bind fun _ =>
    (Tx.Steps.lift _).bind fun _ => (applyDeclaredIndexes_scoped (fieldStep_of hR) hJ _ _ _).bind fun _ =>
    (applyPolicies_scoped hR hJ _ _).bind fun _ => .lift _

include hR hJ in
theorem updateView_scoped (hcollection : scope.collection existing.id)
    (hrelation : scope.relation existing.name) (input : UpdateCollection) :
    Steps J R (updateView server toQuery existing input) := by
  refine (Steps.read _).bind fun options => (Steps.lift _).bind fun _ =>
    (transaction_scoped (fieldStep_of hR) hJ (.bind (.onlyIf fun _ => .lift_bind fun statement hstatement => ?_) fun _ =>
      .modify hJ fun s _ => hR _ _ (.updateCollection s hcollection _ _)
        (.of_eq rfl rfl))).bind fun _ => .read _
  obtain ⟨_, -, hstatement⟩ := bind_eq_ok.mp hstatement
  obtain ⟨query, -, hstatement⟩ := bind_eq_ok.mp hstatement
  obtain rfl := Except.ok.inj hstatement
  refine run_scoped hR hJ (by trivial) (fun name hname => ?_) (by simp [Statement.newTable]) _
  obtain rfl := Option.some.inj hname
  exact hrelation

include hR hJ in
/-- **The writes of an update** are about the collection the key finds. -/
theorem update_scoped {key : String} {input : UpdateCollection} {ids : ℕ → String}
    (haddress : Addresses J scope key)
    (hname : ∀ db c, J db → get db key = .ok c → Addresses J scope c.name)
    (hdrops : input.deleteMissingFields = true → scope.drops) :
    Steps J R (update sha server toQuery key input ids) := by
  refine .read_bind fun db existing hdb hget => ?_
  obtain ⟨hcollection, hrelation, hfields⟩ := haddress db existing hdb hget
  split_ifs with htype
  · exact updateView_scoped hR hJ hcollection hrelation input db hdb
  · refine Steps.bind (reconcileFields_scoped (fieldStep_of hR) hJ
      (hname db existing hdb hget).reaches hrelation (fun f hf _ => hfields htype f hf)
      (fun hdelete => ⟨hdrops hdelete, hfields htype⟩) fun _ _ => trivial) (fun _ => ?_) db hdb
    exact (Steps.read _).bind fun _ => (transaction_scoped (fieldStep_of hR) hJ
      (updateTransaction_scoped hR hJ hcollection _ _ _ _)).bind fun _ => .read _

end Collections

/-! ### What a write leaves alone -/

namespace Db

variable {server : Server} {scope : Scope} {db after : Db}

/-- A statement that builds only adds columns. -/
theorem exec_columnsOf {statement : Statement} (h : db.exec server statement = some after)
    (hbuilds : Collections.Builds statement) (name : String) :
    db.columnsOf name <+: after.columnsOf name := by
  have hset : ∀ {other : String} {relation : Relation},
      (∀ old, db.tables other = some old → old.columnNames <+: relation.columnNames) →
      db.columnsOf name <+: (db.setTable other (some relation)).columnsOf name := by
    intro other relation hold
    unfold columnsOf
    rw [tables_setTable]
    by_cases hname : name = other
    · subst hname
      rw [Function.update_self]
      cases hrelation : db.tables name with
      | none => exact nil_prefix
      | some old => exact hold old hrelation
    · rw [Function.update_of_ne hname]
  have hnone : ∀ {other : String}, db.nameTaken other = false → db.tables other = none := by
    intro other hfree
    simp only [nameTaken, Bool.or_eq_false_iff, Option.isSome_eq_false_iff,
      Option.isNone_iff_eq_none] at hfree
    exact hfree.1
  cases statement with
  | createTable other columns =>
    obtain ⟨hfree, -, -, rfl⟩ := exec_createTable.mp h
    exact hset fun old hold => absurd hold (by simp [hnone hfree])
  | addColumn other column =>
    obtain ⟨columns, htable, -, -, rfl⟩ := exec_addColumn.mp h
    refine hset fun old hold => ?_
    obtain rfl := Option.some.inj (htable.symm.trans hold)
    simp [Relation.columnNames]
  | alterDefault other column default =>
    obtain ⟨columns, htable, -, -, rfl⟩ := exec_alterDefault.mp h
    refine hset fun old hold => ?_
    obtain rfl := Option.some.inj (htable.symm.trans hold)
    have hnames : (columns.map fun c => if c.name = column then { c with default } else c).map
        Column.name = columns.map Column.name := by
      rw [map_map]
      refine map_congr_left fun c _ => ?_
      simp only [Function.comp]
      split_ifs <;> rfl
    simp only [Relation.columnNames, hnames, prefix_refl]
  | createIndex ifNotExists other index =>
    obtain ⟨-, -, rfl⟩ | ⟨-, -, -, -, -, rfl⟩ := exec_createIndex.mp h <;> exact prefix_rfl
  | createView other query =>
    simp only [exec] at h
    split_ifs at h with htaken
    obtain ⟨columns, -, rfl⟩ := Option.map_eq_some_iff.mp h
    exact hset fun old hold => absurd hold (by simp [hnone (Bool.eq_false_iff.mpr htaken)])
  | replaceView other query =>
    simp only [exec] at h
    split at h
    · next old htable =>
      obtain ⟨columns, -, h⟩ := Option.bind_eq_some_iff.mp h
      split_ifs at h with hkeep
      obtain rfl := Option.some.inj h
      refine hset fun other hold => ?_
      obtain rfl := Option.some.inj (htable.symm.trans hold)
      exact hkeep.map _
    · cases h
  | dropColumn _ _ | dropIndex _ | dropView _ | dropTable _ => exact hbuilds.elim

/-- A statement on one relation leaves the columns of the others alone. -/
theorem exec_columnsOf_of_ne {statement : Statement} (h : db.exec server statement = some after)
    (hdrop : ∀ name, statement ≠ .dropView name ∧ statement ≠ .dropTable name) {name : String}
    (hne : statement.relation ≠ some name) : after.columnsOf name = db.columnsOf name := by
  have hset : ∀ {other : String} {relation : Option Relation}, some other ≠ some name →
      (db.setTable other relation).columnsOf name = db.columnsOf name := by
    intro other relation hother
    unfold columnsOf
    rw [tables_setTable, Function.update_of_ne fun h => hother (congrArg some h.symm)]
  cases statement with
  | createTable other columns =>
    obtain ⟨-, -, -, rfl⟩ := exec_createTable.mp h
    exact hset hne
  | addColumn other column =>
    obtain ⟨-, -, -, -, rfl⟩ := exec_addColumn.mp h
    exact hset hne
  | alterDefault other column default =>
    obtain ⟨-, -, -, -, rfl⟩ := exec_alterDefault.mp h
    exact hset hne
  | dropColumn other column =>
    obtain ⟨-, -, -, -, rfl⟩ := exec_dropColumn.mp h
    exact hset hne
  | createIndex ifNotExists other index =>
    obtain ⟨-, -, rfl⟩ | ⟨-, -, -, -, -, rfl⟩ := exec_createIndex.mp h <;> rfl
  | dropIndex other =>
    obtain rfl := exec_dropIndex.mp h
    rfl
  | createView other query =>
    simp only [exec] at h
    split_ifs at h
    obtain ⟨columns, -, rfl⟩ := Option.map_eq_some_iff.mp h
    exact hset hne
  | replaceView other query =>
    simp only [exec] at h
    split at h
    · obtain ⟨columns, -, h⟩ := Option.bind_eq_some_iff.mp h
      split_ifs at h
      obtain rfl := Option.some.inj h
      exact hset hne
    · cases h
  | dropView other => exact absurd rfl (hdrop other).1
  | dropTable other => exact absurd rfl (hdrop other).2

/-- The collections of some names, and the columns of their tables, are as they were. -/
structure Kept (p : String → Bool) (before after : Db) : Prop where
  collections : (after.collections.filter fun c => p c.name) =
    before.collections.filter fun c => p c.name
  columns : ∀ name, p name = true → after.columnsOf name = before.columnsOf name

namespace Kept

variable {p : String → Bool} {a b c : Db}

theorem refl (p : String → Bool) (a : Db) : Kept p a a := ⟨rfl, fun _ _ => rfl⟩

theorem trans (hab : Kept p a b) (hbc : Kept p b c) : Kept p a c :=
  ⟨hbc.collections.trans hab.collections,
    fun name hname => (hbc.columns name hname).trans (hab.columns name hname)⟩

theorem mem_iff (h : Kept p a b) {collection : Collection} (hp : p collection.name = true) :
    collection ∈ b.collections ↔ collection ∈ a.collections := by
  have hmem : ∀ l : List Collection,
      collection ∈ (l.filter fun c => p c.name) ↔ collection ∈ l := fun l => by
    rw [mem_filter]
    exact and_iff_left hp
  rw [← hmem, h.collections, hmem]

theorem of_tables (hcollections : (b.collections.filter fun c => p c.name) =
    a.collections.filter fun c => p c.name) (htables : b.tables = a.tables) : Kept p a b :=
  ⟨hcollections, fun name _ => by rw [columnsOf, columnsOf, htables]⟩

/-- A rewriting that does not change the kept collections. -/
theorem mapCollections {f : Collection → Collection} (hf : KeepsKeys f)
    (h : ∀ c ∈ a.collections, p c.name = true → f c = c) : Kept p a (a.mapCollections f hf) := by
  refine of_tables ?_ rfl
  simp only [Db.mapCollections, filter_map, Function.comp_def, hf.name]
  exact (map_congr_left fun c hc => h c (mem_of_mem_filter hc)
    (of_mem_filter (p := fun c : Collection => p c.name) hc)).trans (map_id _)

end Kept

/-- The collections of some names, and their fields, are outside a scope. -/
structure Outside (p : String → Bool) (db : Db) (scope : Scope) : Prop where
  relation : ∀ name, scope.relation name → p name = false
  adds : ∀ name, scope.adds name → p name = false
  collection : ∀ c ∈ db.collections, p c.name = true → ¬ scope.collection c.id
  field : ∀ c ∈ db.collections, p c.name = true → ∀ f ∈ c.fields, ¬ scope.field f.id

/-- **A write keeps what is outside its scope.** -/
theorem Step.kept {p : String → Bool} (h : Step server scope db after)
    (houtside : Outside p db scope) : Kept p db after := by
  cases h with
  | tick => exact ⟨rfl, fun _ _ => rfl⟩
  | policies => exact ⟨rfl, fun _ _ => rfl⟩
  | @builds _ statement hbuilds hrelation hexec =>
    refine ⟨by rw [(exec_metadata hexec).1], fun name hname => ?_⟩
    refine exec_columnsOf_of_ne hexec (fun other => ?_) fun hsome => ?_
    · constructor <;> rintro rfl <;> exact hbuilds
    · exact absurd hname (by simp [houtside.relation name (hrelation name hsome)])
  | dropIndex => exact ⟨rfl, fun _ _ => rfl⟩
  | @dropColumn _ table column hdrops hrelation hbuiltin hexec =>
    refine ⟨by rw [(exec_metadata hexec).1], fun name hname => ?_⟩
    refine exec_columnsOf_of_ne hexec (fun other => by simp) fun hsome => ?_
    obtain rfl := Option.some.inj hsome
    exact absurd hname (by simp [houtside.relation _ hrelation])
  | @insertCollection _ collection hadds hinsert =>
    obtain ⟨_, rfl⟩ := insertCollection_eq_some.mp hinsert
    refine .of_tables ?_ rfl
    rw [filter_append, filter_cons_of_neg, filter_nil, append_nil]
    simp [houtside.adds _ hadds]
  | @insertField _ field hcollection hinsert =>
    obtain ⟨_, rfl⟩ := insertField_eq_some.mp hinsert
    refine .of_tables ?_ rfl
    simp only [touch]
    have hsame : ∀ c ∈ db.collections, p c.name = true → appendField field c = c := by
      intro c hc hname
      refine if_neg fun hid => houtside.collection c hc hname ?_
      rw [hid]
      exact hcollection
    have hname : ∀ c, (appendField field c).name = c.name := by
      intro c
      unfold appendField
      split_ifs <;> rfl
    rw [filter_map]
    simp only [Function.comp_def, hname]
    exact (map_congr_left fun c hc => hsame c (mem_of_mem_filter hc)
      (of_mem_filter (p := fun c : Collection => p c.name) hc)).trans (map_id _)
  | @updateField id hfield required isUnique options =>
    refine Kept.trans (.mapCollections (keepsKeys_writeField id required isUnique options)
      fun c hc hname => ?_) ⟨rfl, fun _ _ => rfl⟩
    have hfields : c.fields.map (writeField id required isUnique options) = c.fields := by
      refine (map_congr_left fun f hf => ?_).trans (map_id _)
      refine if_neg fun hid => houtside.field c hc hname f hf ?_
      rw [hid]
      exact hfield
    rw [hfields]
  | @deleteField id hdrops hfield =>
    refine .mapCollections (.filterFields _) fun c hc hname => ?_
    have hfields : (c.fields.filter fun f => f.id ≠ id) = c.fields := by
      refine filter_eq_self.mpr fun f hf => ?_
      rw [decide_eq_true_eq]
      rintro rfl
      exact houtside.field c hc hname f hf hfield
    rw [hfields]
  | @setPosition id hcollection name position =>
    refine .mapCollections _ fun c hc hname => if_neg ?_
    rintro rfl
    exact houtside.collection c hc hname hcollection
  | @updateCollection id hcollection rules options =>
    refine .mapCollections _ fun c hc hname => if_neg ?_
    rintro rfl
    exact houtside.collection c hc hname hcollection

theorem Outside.of_kept {p : String → Bool} (h : Outside p db scope) (hkept : Kept p db after) :
    Outside p after scope where
  relation := h.relation
  adds := h.adds
  collection c hc hname := h.collection c ((hkept.mem_iff hname).mp hc) hname
  field c hc hname := h.field c ((hkept.mem_iff hname).mp hc) hname

/-- What is outside the scope stays so. -/
theorem Kept.step {p : String → Bool} {start : Db} (houtside : Outside p start scope) (a b : Db)
    (ha : Kept p start a) (hstep : Step server scope a b) : Kept p start b :=
  ha.trans (hstep.kept (houtside.of_kept ha))

/-- Without additions the collections keep their labels. -/
theorem Step.labels (h : Step server scope db after) (hadds : ∀ name, ¬ scope.adds name) :
    after.labels = db.labels := by
  cases h with
  | tick => rfl
  | policies => rfl
  | builds hbuilds hrelation hexec => exact congrArg (List.map _) (exec_metadata hexec).1
  | dropIndex => rfl
  | dropColumn hdrops hrelation hbuiltin hexec =>
    exact congrArg (List.map _) (exec_metadata hexec).1
  | insertCollection h => exact absurd h (hadds _)
  | insertField hcollection hinsert => exact labels_insertField hinsert
  | updateField => simp
  | deleteField => simp
  | setPosition => simp
  | updateCollection => simp

/-- No collection, field or column is gone. -/
structure Grown (before after : Db) : Prop where
  collections : ∀ c ∈ before.collections, ∃ d ∈ after.collections, d.id = c.id ∧ d.name = c.name ∧
    d.collectionType = c.collectionType ∧
    ∀ f ∈ c.fields, ∃ g ∈ d.fields, g.id = f.id ∧ g.name = f.name
  columns : ∀ name, before.columnsOf name ⊆ after.columnsOf name

namespace Grown

variable {a b c : Db}

theorem of_collections (hcollections : b.collections = a.collections)
    (hcolumns : ∀ name, a.columnsOf name ⊆ b.columnsOf name) : Grown a b where
  collections c hc := ⟨c, hcollections ▸ hc, rfl, rfl, rfl, fun f hf => ⟨f, hf, rfl, rfl⟩⟩
  columns := hcolumns

theorem refl (a : Db) : Grown a a := of_collections rfl fun _ => List.Subset.refl _

theorem trans (hab : Grown a b) (hbc : Grown b c) : Grown a c where
  collections x hx := by
    obtain ⟨y, hy, hid, hname, htype, hfields⟩ := hab.collections x hx
    obtain ⟨z, hz, hid', hname', htype', hfields'⟩ := hbc.collections y hy
    refine ⟨z, hz, hid'.trans hid, hname'.trans hname, htype'.trans htype, fun f hf => ?_⟩
    obtain ⟨g, hg, hgid, hgname⟩ := hfields f hf
    obtain ⟨h, hh, hhid, hhname⟩ := hfields' g hg
    exact ⟨h, hh, hhid.trans hgid, hhname.trans hgname⟩
  columns name _ h := hbc.columns name (hab.columns name h)

/-- A rewriting of the collections one by one that drops no field. -/
theorem of_map {f : Collection → Collection} (hcollections : b.collections = a.collections.map f)
    (htables : b.tables = a.tables)
    (h : ∀ c, (f c).id = c.id ∧ (f c).name = c.name ∧ (f c).collectionType = c.collectionType ∧
      ∀ g ∈ c.fields, ∃ g' ∈ (f c).fields, g'.id = g.id ∧ g'.name = g.name) : Grown a b where
  collections c hc := by
    obtain ⟨hid, hname, htype, hfields⟩ := h c
    exact ⟨f c, hcollections ▸ mem_map_of_mem hc, hid, hname, htype, hfields⟩
  columns name := by
    rw [columnsOf, columnsOf, htables]
    exact List.Subset.refl _

end Grown

/-- **A write that drops nothing leaves everything there.** -/
theorem Step.grown (h : Step server scope db after) (hdrops : ¬ scope.drops) : Grown db after := by
  have hsame : ∀ {c : Collection}, ∀ f ∈ c.fields, ∃ g ∈ c.fields, g.id = f.id ∧ g.name = f.name :=
    fun f hf => ⟨f, hf, rfl, rfl⟩
  cases h with
  | tick => exact .of_collections rfl fun _ => List.Subset.refl _
  | policies => exact .of_collections rfl fun _ => List.Subset.refl _
  | builds hbuilds hrelation hexec =>
    exact .of_collections (exec_metadata hexec).1 fun name =>
      (exec_columnsOf hexec hbuilds name).subset
  | dropIndex => exact .of_collections rfl fun _ => List.Subset.refl _
  | dropColumn h => exact absurd h hdrops
  | deleteField h => exact absurd h hdrops
  | insertCollection hadds hinsert =>
    obtain ⟨_, rfl⟩ := insertCollection_eq_some.mp hinsert
    exact ⟨fun c hc => ⟨c, mem_append_left _ hc, rfl, rfl, rfl, hsame⟩,
      fun _ => List.Subset.refl _⟩
  | insertField hcollection hinsert =>
    obtain ⟨_, rfl⟩ := insertField_eq_some.mp hinsert
    refine .of_map rfl rfl fun c => ?_
    unfold appendField
    split_ifs
    · exact ⟨rfl, rfl, rfl, fun f hf => ⟨f, mem_append_left _ hf, rfl, rfl⟩⟩
    · exact ⟨rfl, rfl, rfl, hsame⟩
  | updateField =>
    refine .of_map rfl rfl fun c => ⟨rfl, rfl, rfl, fun f hf => ⟨_, mem_map_of_mem hf, ?_⟩⟩
    unfold writeField
    split_ifs <;> exact ⟨rfl, rfl⟩
  | setPosition =>
    refine .of_map rfl rfl fun c => ?_
    split_ifs
    · refine ⟨rfl, rfl, rfl, fun f hf => ⟨_, mem_map_of_mem hf, ?_⟩⟩
      unfold placeField
      split_ifs <;> exact ⟨rfl, rfl⟩
    · exact ⟨rfl, rfl, rfl, hsame⟩
  | updateCollection =>
    refine .of_map rfl rfl fun c => ?_
    split_ifs <;> exact ⟨rfl, rfl, rfl, hsame⟩

/-- A sequence of writes that drop nothing. -/
theorem Grown.of_steps (h : Relation.ReflTransGen (Step server scope) db after)
    (hdrops : ¬ scope.drops) : Grown db after := by
  induction h with
  | refl => exact .refl db
  | tail _ hstep ih => exact ih.trans (hstep.grown hdrops)

theorem labels_of_steps (h : Relation.ReflTransGen (Step server scope) db after)
    (hadds : ∀ name, ¬ scope.adds name) : after.labels = db.labels := by
  induction h with
  | refl => rfl
  | tail _ hstep ih => rw [hstep.labels hadds, ih]

end Db

namespace Collections

open Db

variable {sha : String → String} {server : Server}
  {toQuery : Json → List Collection → Result String} {p : String → Bool} {db after : Db}

/-! ### Creations -/

variable {input : CreateCollection}

theorem createView_eq_ok {ids : Ids} {created : Collection}
    (h : createView server toQuery input ids db = (.ok created, after)) :
    ∃ collection statement built inserted,
      prepareView toQuery db input ids = .ok (collection, statement) ∧
      db.tick.exec server statement = some built ∧
      built.insertCollection collection = some inserted ∧
      (∃ fields, created = { collection with fields }) ∧ after = inserted := by
  obtain ⟨⟨collection, statement⟩, mid, hread, h⟩ := Saga.bind_eq_ok.mp h
  obtain ⟨hprepared, rfl⟩ := Prod.mk.inj hread
  have hwork := transaction_eq_ok.mp h
  obtain ⟨built, hbuilt, hwork⟩ := Tx.run_bind_eq_ok.mp hwork
  obtain ⟨inserted, hinserted, hwork⟩ := Tx.run_bind_eq_ok.mp hwork
  rw [Tx.get_bind] at hwork
  obtain ⟨_, -, hpure⟩ := Tx.lift_bind_eq_ok.mp hwork
  obtain ⟨rfl, rfl⟩ := Prod.mk.inj (Except.ok.inj hpure)
  exact ⟨collection, statement, built, inserted, hprepared, hbuilt, hinserted, ⟨_, rfl⟩, rfl⟩

/-- A creation that fails leaves the database. -/
theorem create_eq_error {ids : Ids} {e : Error}
    (h : create sha server toQuery input ids db = (.error e, after)) : after = db := by
  have hcommit : ∀ {α β : Type} {work : Tx Db Error α} {f : α → Saga Db Error β},
      (∀ a s, ∃ b, f a s = (.ok b, s)) →
      (transaction work >>= f) db = (.error e, after) → after = db := by
    intro α β work f hf h
    rcases bind_eq_error.mp h with h | ⟨a, t, -, h⟩
    · exact (transaction_eq_error.mp h).2
    · obtain ⟨b, hb⟩ := hf a t
      cases hb.symm.trans h
  rcases bind_eq_error.mp h with h | ⟨_, mid, hlift, h⟩
  · exact (congrArg Prod.snd h).symm
  · obtain rfl : db = mid := congrArg Prod.snd hlift
    split_ifs at h
    · rcases bind_eq_error.mp h with h | ⟨_, mid, hread, h⟩
      · exact (congrArg Prod.snd h).symm
      · obtain rfl : db = mid := congrArg Prod.snd hread
        exact (transaction_eq_error.mp h).2
    · rcases bind_eq_error.mp h with h | ⟨_, mid, hread, h⟩
      · exact (congrArg Prod.snd h).symm
      · obtain rfl : db = mid := congrArg Prod.snd hread
        exact hcommit (fun _ _ => ⟨_, rfl⟩) h

/-- What a creation does after the row of the collection is there. -/
def completeCreation (sha : String → String) (server : Server) (ids : Ids) (collection : Collection)
    (all : List Collection) (newTable : Bool) : Tx Db Error Unit := do
  collection.fields.forM (createField sha server newTable collection.name)
  Tx.onlyIf collection.collectionType.isAuth
    ((builtinFields ids).forM (insertBuiltinField server))
  Tx.onlyIf (collection.collectionType.isAuth && newTable)
    (run server (createAuthEmailIndexStatement sha collection.name)
      (refused server ("failed to make emails unique in " ++ Text.debug collection.name)))
  let context ← Tx.lift (FilterContext.forCollection collection all)
  applyDeclaredIndexes sha server collection context none
  applyPolicies server collection context
  Tx.onlyIf newTable (Tx.lift (realtimeTriggerStatements collection.name))

/-- A creation writes the row of the collection, after its table, and completes it. -/
theorem createTransaction_eq_ok {ids : Ids} {collection : Collection} {all : List Collection}
    {table : Option Statement} {u : Unit}
    (h : createTransaction sha server ids collection all table db = .ok (u, after)) :
    ∃ built inserted : Db, built.collections = db.collections ∧
      built.insertCollection collection = some inserted ∧
      completeCreation sha server ids collection all table.isSome inserted = .ok ((), after) := by
  have hsplit : createTransaction sha server ids collection all table =
      (Tx.onSome table (fun statement => run server statement
        (refused server ("failed to create the table for " ++ Text.debug collection.name))) >>= fun _ =>
      Tx.run (fun db => db.insertCollection collection) (dbError server) >>= fun _ =>
      completeCreation sha server ids collection all table.isSome) := rfl
  rw [hsplit] at h
  obtain ⟨_, built, hbuilt, h⟩ := Tx.bind_eq_ok.mp h
  obtain ⟨inserted, hinserted, hrest⟩ := Tx.run_bind_eq_ok.mp h
  refine ⟨built, inserted, ?_, hinserted, hrest⟩
  cases table with
  | none =>
    obtain ⟨-, rfl⟩ := Prod.mk.inj (Except.ok.inj hbuilt)
    rfl
  | some statement =>
    change run server statement _ db = _ at hbuilt
    rw [run, Tx.run_eq_ok] at hbuilt
    exact (exec_metadata hbuilt).1

/-- A creation takes a new id, and a name that is neither the name nor the id of another collection,
and adds the collection to the others. -/
theorem create_labels {ids : Ids} {created : Collection}
    (h : create sha server toQuery input ids db = (.ok created, after)) :
    (∀ c ∈ db.collections, c.id ≠ ids.collection ∧ c.name ≠ input.name ∧ c.id ≠ input.name) ∧
      after.labels = db.labels ++ [(ids.collection, input.name, input.collectionType)] := by
  have hfind : ∀ {e : Error} {u : Unit}, failIf (find db input.name).isSome e = .ok u →
      ∀ c ∈ db.collections, c.id ≠ input.name := by
    intro e u hfree c hc hid
    have hnone := failIf_eq_ok.mp hfree
    obtain ⟨found, hfound⟩ := exists_get ⟨c, hc, .inl hid⟩
    rw [get, okOr_eq_ok] at hfound
    rw [hfound] at hnone
    exact hnone rfl
  have hinsert : ∀ {a b : Db} {collection : Collection}, a.collections = db.collections →
      collection.id = ids.collection → collection.name = input.name →
      collection.collectionType = input.collectionType →
      a.insertCollection collection = some b → (∀ c ∈ db.collections, c.id ≠ input.name) →
      (∀ c ∈ db.collections, c.id ≠ ids.collection ∧ c.name ≠ input.name ∧ c.id ≠ input.name) ∧
        b.labels = db.labels ++ [(ids.collection, input.name, input.collectionType)] := by
    intro a b collection hcollections hid hname htype hinserted hkey
    obtain ⟨hnew, rfl⟩ := insertCollection_eq_some.mp hinserted
    rw [hcollections, hid, hname] at hnew
    refine ⟨fun c hc => ⟨(hnew c hc).1, (hnew c hc).2, hkey c hc⟩, ?_⟩
    simp only [Db.labels, hcollections, map_append, map_cons, map_nil, hid, hname,
      htype]
  by_cases htype : input.collectionType = .view
  · unfold create at h
    obtain ⟨_, mid, hlift, h⟩ := Saga.bind_eq_ok.mp h
    obtain rfl : db = mid := congrArg Prod.snd hlift
    rw [if_pos htype] at h
    obtain ⟨collection, statement, built, inserted, hprepared, hbuilt, hinserted, -, rfl⟩ :=
      createView_eq_ok h
    obtain ⟨hid, hname, hview, -, -⟩ := prepareView_eq_ok hprepared
    obtain ⟨_, hfree, -⟩ := bind_eq_ok.mp hprepared
    exact hinsert (exec_metadata hbuilt).1 hid hname (hview.trans htype.symm) hinserted (hfind hfree)
  · obtain ⟨-, table, hprepared, htx⟩ := (create_eq_ok htype).mp h
    obtain ⟨hid, hname, hsame, hfields, -⟩ := prepareTable_name hprepared
    obtain ⟨built, inserted, hcollections, hinserted, hrest⟩ := createTransaction_eq_ok htx
    obtain ⟨_, hfree, -⟩ := bind_eq_ok.mp hprepared
    obtain ⟨hnew, hlabels⟩ := hinsert hcollections hid hname hsame hinserted (hfind hfree)
    refine ⟨hnew, ?_⟩
    rw [← hlabels]
    -- The rest writes fields, indexes and policies: it adds no collection.
    have hR : ∀ a b, Db.Step server (.unlimited False True) a b →
        Db.Guarded (Scope.unlimited False True).adds a b → Db.Step server (.unlimited False True) a b :=
      fun _ _ h _ => h
    have hJ : ∀ a b, (fun _ => True : Db → Prop) a → Db.Step server (.unlimited False True) a b →
        (fun _ => True : Db → Prop) b := fun _ _ _ _ => trivial
    have hsteps : Tx.Steps (fun _ => True) (Db.Step server (.unlimited False True))
        (completeCreation sha server ids created (list db) table.isSome) := by
      refine .bind (.forM fun f _ => ?_) fun _ => .bind (.onlyIf fun _ => .forM fun f _ => ?_) fun _ =>
        (Tx.Steps.onlyIf fun _ => runIndex_scoped (fieldStep_of hR) hJ (by trivial) rfl _).bind fun _ =>
        (Tx.Steps.lift _).bind fun context => (applyDeclaredIndexes_scoped (fieldStep_of hR) hJ _ _ _).bind fun _ =>
        (applyPolicies_scoped hR hJ _ _).bind fun _ => .onlyIf fun _ => .lift _
      · exact (insertField_scoped (fieldStep_of hR) hJ trivial trivial).bind fun _ =>
          .onlyIf fun _ => createOwnIndex_scoped (fieldStep_of hR) hJ _ _ _
      · exact insertBuiltinField_scoped (fieldStep_of hR) hJ trivial trivial
    exact labels_of_steps (hsteps _ _ _ trivial hrest).1 fun _ h => h

/-- The scope of a creation. -/
def creationScope (name id : String) : Scope :=
  ⟨fun r => r = name, fun other => other = id, fun _ => False, fun n => n = name, False⟩

/-- **A creation leaves every other collection alone.** -/
theorem create_kept {ids : Ids} (hname : p input.name = false) :
    Kept p db (create sha server toQuery input ids db).2 := by
  cases h : create sha server toQuery input ids db with
  | mk r after =>
    cases r with
    | error e => exact create_eq_error h ▸ .refl p db
    | ok created =>
      obtain ⟨hnew, -⟩ := create_labels h
      have houtside : Outside p db (creationScope input.name ids.collection) := by
        refine ⟨?_, ?_, ?_, fun _ _ _ _ _ h => h⟩
        · rintro _ rfl
          exact hname
        · rintro _ rfl
          exact hname
        · rintro c hc - hid
          exact (hnew c hc).1 hid
      have hsteps : Steps (Kept p db)
          (Db.Step server (creationScope input.name ids.collection))
          (create sha server toQuery input ids) :=
        create_scoped (fun _ _ h _ => h) (Kept.step houtside) (rfl : input.name = input.name) rfl rfl
      have hkept := (hsteps db (.refl p db)).2
      rwa [h] at hkept

/-- A creation drops nothing. -/
theorem create_grown (input : CreateCollection) (ids : Ids) :
    Grown db (create sha server toQuery input ids db).2 := by
  have hsteps : Steps (fun _ => True) (Db.Step server (.unlimited True False))
      (create sha server toQuery input ids) :=
    create_scoped (fun _ _ h _ => h) (fun _ _ _ _ => trivial) trivial trivial trivial
  exact .of_steps (hsteps db trivial).1 fun h => h

/-! ### Updates -/

/-- A key is within every unlimited scope. -/
theorem addresses_unlimited {J : Db → Prop} {adds drops : Prop} (key : String) :
    Addresses J (.unlimited adds drops) key :=
  fun _ _ _ _ => ⟨trivial, trivial, fun _ _ _ => trivial⟩

/-- An update is within every unlimited scope that drops what it may drop. -/
theorem update_unlimited (key : String) {input : UpdateCollection} {ids : ℕ → String} {drops : Prop}
    (hdrops : input.deleteMissingFields = true → drops) :
    Steps (fun _ => True) (Db.Step server (.unlimited False drops))
      (update sha server toQuery key input ids) := by
  exact update_scoped (fun _ _ h _ => h) (fun _ _ _ _ => trivial) (addresses_unlimited key)
    (fun _ c _ _ => addresses_unlimited c.name) hdrops

/-- An update neither adds nor removes a collection. -/
theorem update_labels (key : String) (input : UpdateCollection) (ids : ℕ → String) :
    (update sha server toQuery key input ids db).2.labels = db.labels :=
  have hsteps := update_unlimited key fun (_ : input.deleteMissingFields = true) => trivial
  labels_of_steps (hsteps db trivial).1 fun _ h => h

/-- The scope of an operation on the collections that are not kept. -/
def keepingScope (p : String → Bool) (db : Db) : Scope where
  relation name := p name = false
  collection id := ∀ c ∈ db.collections, p c.name = true → c.id ≠ id
  field id := ∀ c ∈ db.collections, p c.name = true → ∀ f ∈ c.fields, f.id ≠ id
  adds _ := False
  drops := True

theorem outside_keepingScope (p : String → Bool) (db : Db) : Outside p db (keepingScope p db) where
  relation _ h := h
  adds _ h := h.elim
  collection c hc hname h := h c hc hname rfl
  field c hc hname f hf h := h c hc hname f hf rfl

/-- No collection of some names has the name of another for its id. -/
def Apart (p : String → Bool) (db : Db) : Prop :=
  ∀ c ∈ db.collections, p c.name = true → ∀ d ∈ db.collections, c.id ≠ d.name

theorem Apart.of_labels (h : Apart p db) (hlabels : ∀ l ∈ after.labels, l ∈ db.labels) :
    Apart p after := by
  have hfrom : ∀ c ∈ after.collections, ∃ d ∈ db.collections, d.id = c.id ∧ d.name = c.name := by
    intro c hc
    obtain ⟨d, hd, hlabel⟩ := mem_map.mp (hlabels _ (mem_map_of_mem hc))
    exact ⟨d, hd, congrArg Prod.fst hlabel, congrArg (fun l => l.2.1) hlabel⟩
  intro c hc hp d hd
  obtain ⟨c', hc', hid, hname⟩ := hfrom c hc
  obtain ⟨d', hd', -, hname'⟩ := hfrom d hd
  rw [← hid, ← hname']
  exact h c' hc' (hname ▸ hp) d' hd'

/-- A creation takes no name that is an id; the id it draws is to be no name. -/
theorem Apart.create (h : Apart p db) {ids : Ids}
    (hfresh : p input.name = true → ids.collection ≠ input.name ∧
      ∀ d ∈ db.collections, ids.collection ≠ d.name) :
    Apart p (create sha server toQuery input ids db).2 := by
  cases hcreate : Collections.create sha server toQuery input ids db with
  | mk r after =>
    cases r with
    | error e => exact create_eq_error hcreate ▸ h
    | ok created =>
      obtain ⟨hnew, hlabels⟩ := create_labels hcreate
      have hfrom : ∀ c ∈ after.collections,
          (∃ d ∈ db.collections, d.id = c.id ∧ d.name = c.name) ∨
            (ids.collection = c.id ∧ input.name = c.name) := by
        intro c hc
        have hmem : (c.id, c.name, c.collectionType) ∈ after.labels := mem_map_of_mem hc
        rw [hlabels, mem_append, mem_singleton] at hmem
        rcases hmem with hmem | hmem
        · obtain ⟨d, hd, hlabel⟩ := mem_map.mp hmem
          exact .inl ⟨d, hd, congrArg Prod.fst hlabel, congrArg (fun l => l.2.1) hlabel⟩
        · exact .inr ⟨(congrArg Prod.fst hmem).symm, (congrArg (fun l => l.2.1) hmem).symm⟩
      intro c hc hp d hd
      rcases hfrom c hc with ⟨c', hc', hid, hname⟩ | ⟨hid, hname⟩ <;>
        rcases hfrom d hd with ⟨d', hd', -, hname'⟩ | ⟨-, hname'⟩ <;> rw [← hid, ← hname']
      · exact h c' hc' (hname ▸ hp) d' hd'
      · exact (hnew c' hc').2.2
      · exact (hfresh (hname ▸ hp)).2 d' hd'
      · exact (hfresh (hname ▸ hp)).1

variable {key : String}

/-- A key that is not the name or the id of a kept collection finds none of them. -/
theorem addresses_keepingScope (hkey : p key = false)
    (hid : ∀ c ∈ db.collections, p c.name = true → c.id ≠ key) :
    Addresses (fun s => Kept p db s ∧ s.labels = db.labels) (keepingScope p db) key := by
  rintro s c ⟨hkept, -⟩ hget
  obtain ⟨stored, hstored, rfl, hfound⟩ := exists_of_get hget
  have hname : p stored.name = false := by
    rw [← Bool.not_eq_true]
    intro hp
    rcases hfound with h | h
    · exact hid stored ((hkept.mem_iff hp).mp hstored) hp h
    · rw [show stored.name = key from h, hkey] at hp
      cases hp
  have hother : ∀ d ∈ db.collections, p d.name = true → d ∈ s.collections ∧ d ≠ stored := by
    rintro d hd hp
    refine ⟨(hkept.mem_iff hp).mpr hd, ?_⟩
    rintro rfl
    rw [hname] at hp
    cases hp
  refine ⟨fun d hd hp hsame => ?_, hname, fun htype f hf d hd hp g hg hsame => ?_⟩
  · obtain ⟨hmem, hne⟩ := hother d hd hp
    exact hne (inj_on_of_nodup_map s.keyed.ids hmem hstored hsame)
  · obtain ⟨hmem, hne⟩ := hother d hd hp
    have hf' : f ∈ stored.fields := (mem_fields_loadFields (c := stored) htype).mp hf
    exact hne (s.keyed.eq_of_field hmem hstored hg hf' hsame)

/-- **An update leaves every other collection alone.** -/
theorem update_kept {input : UpdateCollection} {ids : ℕ → String}
    (hapart : Apart p db) (hkey : p key = false)
    (hid : ∀ c ∈ db.collections, p c.name = true → c.id ≠ key) :
    Kept p db (update sha server toQuery key input ids db).2 := by
  have hJ : ∀ a b, Kept p db a ∧ a.labels = db.labels → Db.Step server (keepingScope p db) a b →
      Kept p db b ∧ b.labels = db.labels := fun a b ha hstep =>
    ⟨Kept.step (outside_keepingScope p db) a b ha.1 hstep, (hstep.labels fun _ h => h).trans ha.2⟩
  have hsteps : Steps (fun s => Kept p db s ∧ s.labels = db.labels)
      (Db.Step server (keepingScope p db)) (update sha server toQuery key input ids) := by
    refine update_scoped (fun _ _ h _ => h) hJ (addresses_keepingScope hkey hid) (fun s c hs hget => ?_)
      fun _ => trivial
    obtain ⟨-, hrelation, -⟩ := addresses_keepingScope hkey hid s c hs hget
    obtain ⟨stored, hstored, rfl, -⟩ := exists_of_get hget
    have hlabel : (stored.id, stored.name, stored.collectionType) ∈ db.labels :=
      hs.2 ▸ mem_map_of_mem hstored
    obtain ⟨d, hd, hsame⟩ := mem_map.mp hlabel
    have hname : d.name = stored.name := congrArg (fun l => l.2.1) hsame
    exact addresses_keepingScope hrelation fun c hc hp h =>
      hapart c hc hp d hd (h.trans hname.symm)
  exact (hsteps db ⟨.refl p db, rfl⟩).2.1

/-! ### Deletions -/

/-- The statement that drops the relation of a collection. -/
def dropStatement (collection : Collection) : Result Statement :=
  if collection.collectionType = .view then dropViewStatement collection.name
  else dropTableStatement collection.name

theorem dropStatement_eq_ok {collection : Collection} {statement : Statement}
    (h : dropStatement collection = .ok statement) :
    statement = .dropView collection.name ∨ statement = .dropTable collection.name := by
  unfold dropStatement at h
  split_ifs at h
  · obtain ⟨_, -, h⟩ := bind_eq_ok.mp h
    exact .inl (Except.ok.inj h).symm
  · obtain ⟨_, -, h⟩ := bind_eq_ok.mp h
    exact .inr (Except.ok.inj h).symm

/-- A collection is deleted with its relation and what depends on it. -/
theorem delete_eq_ok {deleted : Collection} :
    delete server key true db = (.ok deleted, after) ↔
      get db key = .ok deleted ∧ isOk (dropStatement deleted) = true ∧
        after = (db.tick.dropRelations (deleted.name :: server.dependants deleted.name)
          ).deleteCollectionRow deleted.id := by
  have hexec : ∀ {s : Db} {statement : Statement},
      statement = .dropView deleted.name ∨ statement = .dropTable deleted.name →
      s.exec server statement =
        some (s.dropRelations (deleted.name :: server.dependants deleted.name)) := by
    rintro s statement (rfl | rfl) <;> rfl
  constructor
  · intro h
    obtain ⟨collection, mid, hread, h⟩ := Saga.bind_eq_ok.mp h
    obtain ⟨hget, rfl⟩ := Prod.mk.inj hread
    obtain ⟨_, dropped, hdrop, hwork⟩ := Tx.bind_eq_ok.mp (transaction_eq_ok.mp h)
    obtain ⟨statement, hstatement, hrun⟩ := Tx.lift_bind_eq_ok.mp hdrop
    rw [run, Tx.run_eq_ok] at hrun
    rw [Tx.modify_bind] at hwork
    obtain ⟨rfl, rfl⟩ := Prod.mk.inj (Except.ok.inj hwork)
    refine ⟨hget, isOk_iff.mpr ⟨statement, hstatement⟩, ?_⟩
    rw [hexec (dropStatement_eq_ok hstatement)] at hrun
    rw [← Option.some.inj hrun]
  · rintro ⟨hget, hok, rfl⟩
    obtain ⟨statement, hstatement⟩ := isOk_iff.mp hok
    refine Saga.bind_eq_ok.mpr ⟨deleted, db, by rw [read_apply, hget], ?_⟩
    refine transaction_eq_ok.mpr (Tx.bind_eq_ok.mpr
      ⟨(), db.tick.dropRelations (deleted.name :: server.dependants deleted.name), ?_, rfl⟩)
    · exact Tx.lift_bind_eq_ok.mpr ⟨statement, hstatement, by
        rw [run, Tx.run_eq_ok]
        exact hexec (dropStatement_eq_ok hstatement)⟩

/-- A deletion that fails leaves the database. -/
theorem delete_eq_error {e : Error}
    (h : delete server key true db = (.error e, after)) : after = db := by
  rcases bind_eq_error.mp h with h | ⟨collection, mid, hread, h⟩
  · exact (congrArg Prod.snd h).symm
  · obtain rfl : db = mid := congrArg Prod.snd hread
    exact (transaction_eq_error.mp h).2

theorem delete_labels (key : String) :
    ∀ l ∈ (delete server key true db).2.labels, l ∈ db.labels := by
  cases h : delete server key true db with
  | mk r after =>
    cases r with
    | error e => exact delete_eq_error h ▸ fun _ hl => hl
    | ok deleted =>
      obtain ⟨-, -, rfl⟩ := delete_eq_ok.mp h
      exact fun l hl => (filter_sublist.map _).subset hl

/-- A deletion by name removes the collection of this name, where the name is no id. -/
theorem labels_of_delete {deleted : Collection}
    (h : delete server key true db = (.ok deleted, after))
    (hid : ∀ c ∈ db.collections, c.id ≠ key) :
    after.labels = db.labels.filter fun l => l.2.1 ≠ key := by
  obtain ⟨hget, -, rfl⟩ := delete_eq_ok.mp h
  obtain ⟨stored, hstored, rfl, hfound⟩ := exists_of_get hget
  have hname : stored.name = key := hfound.resolve_left (hid stored hstored)
  change ((db.collections.filter fun c => c.id ≠ stored.id).map _) = _
  rw [labels, filter_map]
  refine congrArg _ (filter_congr fun c hc => ?_)
  -- The collection that is found is the only one of its id and the only one of its name.
  have hsame : c.id = stored.id ↔ c.name = key := by
    constructor
    · intro h
      rw [inj_on_of_nodup_map db.keyed.ids hc hstored h, hname]
    · intro h
      rw [inj_on_of_nodup_map db.keyed.names hc hstored (h.trans hname.symm)]
  simp [hsame]

theorem columnsOf_dropRelations {names : List String} {name : String} (h : name ∉ names) :
    (db.dropRelations names).columnsOf name = db.columnsOf name := by
  simp only [columnsOf, dropRelations, h, ↓reduceIte]
  cases db.tables name with
  | none => rfl
  | some relation =>
    cases relation with
    | table columns =>
      simp only [Option.map_some, Relation.columnNames, map_map, Option.getD_some]
      rfl
    | view columns => rfl

/-- **A deletion leaves every other collection alone**, where nothing of them depends on what is
deleted. -/
theorem delete_kept (hkey : p key = false)
    (hid : ∀ c ∈ db.collections, p c.name = true → c.id ≠ key)
    (hdependants : ∀ name, p name = false → ∀ d ∈ server.dependants name, p d = false) :
    Kept p db (delete server key true db).2 := by
  cases h : delete server key true db with
  | mk r after =>
    cases r with
    | error e => exact delete_eq_error h ▸ .refl p db
    | ok deleted =>
      obtain ⟨hget, -, rfl⟩ := delete_eq_ok.mp h
      obtain ⟨hcollection, hname, -⟩ :=
        addresses_keepingScope hkey hid db deleted ⟨.refl p db, rfl⟩ hget
      constructor
      · change ((db.collections.filter fun c => c.id ≠ deleted.id).filter fun c => p c.name) = _
        rw [filter_filter]
        refine filter_congr fun c hc => ?_
        cases hp : p c.name with
        | false => rfl
        | true => simpa using hcollection c hc hp
      · intro name hp
        refine columnsOf_dropRelations fun hmem => ?_
        rcases mem_cons.mp hmem with hself | hmem
        · rw [hself] at hp
          exact absurd hp (by simp [show p deleted.name = false from hname])
        · rw [hdependants _ hname name hmem] at hp
          cases hp

end Collections

end LazyPock
