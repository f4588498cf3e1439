import LazyPock.Machine.Transactions
import LazyPock.Schema.Database
import LazyPock.Schema.Indexes

/-!
# Operations on collections

The repository of `crates/db/src/collections.rs`: reading the collections, creating one with its
table, indexes and policies, adding, updating and removing fields, and updating a definition.

A function that opens its own transaction is one step of a saga: what it commits stays when a
later step of its caller fails. Ids that the server draws at random are arguments.

## Main definitions

* `Collections.list`, `Collections.find`, `Collections.get`.
* `Collections.create`, `Collections.delete`.
* `Collections.addField`, `Collections.updateField`,
  `Collections.deleteField`, `Collections.dropUndeclaredFields`.
* `Collections.applyDeclaredIndexes`, `Collections.update`.
-/

namespace LazyPock.Collections

open Ddl Machine Text

/-! ### Reading -/

/-- The order fields are listed in. -/
def fieldOrder (f g : Field) : Prop :=
  f.position < g.position ∨ (f.position = g.position ∧ f.name ≤ g.name)

instance : DecidableRel fieldOrder := fun f g =>
  inferInstanceAs (Decidable (f.position < g.position ∨ (f.position = g.position ∧ f.name ≤ g.name)))

/-- The fields a view exposes: its columns. -/
def viewFields (db : Db) (view collectionId : String) : List Field :=
  match db.tables view with
  | some (.view columns) =>
    columns.zipIdx.map fun (column, index) =>
      ⟨"", collectionId, column.name, column.fieldType, false, false, column.options, index + 1⟩
  | _ => []

/-- The fields of a collection as they are read. -/
def loadFields (db : Db) (collection : Collection) : Collection :=
  let stored := collection.fields.insertionSort fieldOrder
  let derived := viewFields db collection.name collection.id
  { collection with
    fields := if collection.collectionType = .view ∧ derived ≠ [] then derived else stored }

/-- Every collection with its fields, ordered by name. -/
def list (db : Db) : List Collection :=
  (db.collections.insertionSort fun c d => c.name ≤ d.name).map (loadFields db)

/-- Find a collection by id or name. -/
def find (db : Db) (nameOrId : String) : Option Collection :=
  (list db).find? fun c => c.id = nameOrId || c.name = nameOrId

/-- Get a collection by id or name, failing when it does not exist. -/
def get (db : Db) (nameOrId : String) : Result Collection :=
  okOr (.notFound ("no collection named " ++ debug nameOrId)) (find db nameOrId)

@[simp] theorem id_loadFields (db : Db) (c : Collection) : (loadFields db c).id = c.id := rfl

@[simp] theorem name_loadFields (db : Db) (c : Collection) : (loadFields db c).name = c.name := rfl

@[simp] theorem collectionType_loadFields (db : Db) (c : Collection) :
    (loadFields db c).collectionType = c.collectionType := rfl

/-- The fields of a table collection are the stored ones. -/
theorem mem_fields_loadFields {db : Db} {c : Collection} (hc : c.collectionType ≠ .view)
    {f : Field} : f ∈ (loadFields db c).fields ↔ f ∈ c.fields := by
  simp only [loadFields, hc, false_and, ↓reduceIte, List.mem_insertionSort]

theorem mem_list {db : Db} {c : Collection} :
    c ∈ list db ↔ ∃ stored ∈ db.collections, loadFields db stored = c := by
  simp only [list, List.mem_map, List.mem_insertionSort]

/-- What is found was stored. -/
theorem exists_of_get {db : Db} {key : String} {c : Collection} (h : get db key = .ok c) :
    ∃ stored ∈ db.collections, loadFields db stored = c ∧ (c.id = key ∨ c.name = key) := by
  rw [get, okOr_eq_ok] at h
  obtain ⟨stored, hstored, hc⟩ := mem_list.mp (List.mem_of_find?_eq_some h)
  refine ⟨stored, hstored, hc, ?_⟩
  simpa using List.find?_some h

/-- A stored collection is found, or another one under the same key. -/
theorem exists_get {db : Db} {key : String}
    (h : ∃ c ∈ db.collections, c.id = key ∨ c.name = key) : ∃ c, get db key = .ok c := by
  obtain ⟨stored, hstored, hkey⟩ := h
  have hsome : (find db key).isSome = true := by
    rw [find, List.find?_isSome]
    refine ⟨loadFields db stored, mem_list.mpr ⟨stored, hstored, rfl⟩, ?_⟩
    rw [Bool.or_eq_true, decide_eq_true_eq, decide_eq_true_eq]
    exact hkey
  obtain ⟨c, hc⟩ := Option.isSome_iff_exists.mp hsome
  exact ⟨c, by rw [get, hc, okOr_some]⟩

/-! ### Transactions -/

section

variable {α : Type} (sha : String → String) (server : Server)

/-- A transaction of its own. -/
def transaction (work : Tx Db Error α) : Saga Db Error α :=
  Saga.commit (Tx.modify Db.tick >>= fun _ => work)

theorem transaction_eq_ok {work : Tx Db Error α} {db after : Db} {a : α} :
    transaction work db = (.ok a, after) ↔ work db.tick = .ok (a, after) := by
  rw [transaction, Saga.commit_eq_ok, Tx.modify_bind]

/-- A transaction that fails leaves the database. -/
theorem transaction_eq_error {work : Tx Db Error α} {db after : Db} {e : Error} :
    transaction work db = (.error e, after) ↔ work db.tick = .error e ∧ after = db := by
  rw [transaction, Saga.commit_eq_error, Tx.modify_bind]

/-- `db_error` -/
def dbError : Error := .internal ("database error " ++ server.report)

/-- A failure that quotes the database. -/
def refused (message : String) : Error := .invalid (message ++ ": " ++ server.report)

def run (statement : Statement) (e : Error) : Tx Db Error Unit :=
  Tx.run (fun db => db.exec server statement) e

/-- Run statements in order. -/
def runAll (statements : List Statement) (e : Error) : Tx Db Error Unit :=
  statements.forM fun statement => run server statement e

def insertField (field : Field) : Tx Db Error Unit :=
  Tx.run (fun db => db.insertField field) (dbError server)

/-- Create the index the flags of a field ask for. -/
def createOwnIndex (message : String) (table : String) (field : Field) : Tx Db Error Unit :=
  Tx.onSome (ownIndex table field) fun index =>
    run server (createIndexStatement sha index field.name)
      (refused server (message ++ debug table ++ "." ++ debug field.name))

/-- Apply the policies of a collection. -/
def applyPolicies (collection : Collection) (context : FilterContext) : Tx Db Error Unit := do
  let statements ← Tx.lift (Policies.statements collection context)
  Tx.run (fun db => match db.tables collection.name with
      | some (.table _) =>
        if statements.all server.accepts then
          (Policies.exec db.policies statements).map fun policies => { db with policies }
        else none
      | _ => none)
    (refused server ("cannot apply the rules of " ++ debug collection.name))

/-! ### Declared indexes -/

/-- The `indexes` strings a collection's options declare. -/
def declaredIndexes (options : Json) : Result (List String) :=
  match options.getNonNull "indexes" with
  | none => .ok []
  | some value =>
    match value.asArray with
    | none => .error (.invalid ("`options.indexes` must be a list of index declarations, got " ++
        value.render))
    | some entries => entries.mapM fun entry =>
        okOr (.invalid ("an index declaration must be a string, got " ++ entry.render)) entry.asStr

/-- Whether an index of this name is on the table. -/
def onTable (db : Db) (table name : String) : Bool :=
  (db.indexes name).any fun index => index.table = table

/-- Drop an index of the previous declaration that the new one does not have. -/
def dropOld (db : Db) (table : String) (specs : List Indexes.IndexSpec) (old : Indexes.IndexSpec) :
    Tx Db Error Unit :=
  if old ∈ specs ∨ onTable db table old.name = false then pure ()
  else run server old.dropStatement
    (refused server ("failed to drop the index " ++ debug old.name ++ " on " ++ debug table))

/-- Create a declared index: an unchanged one is left in place, and so is one of that name the
previous declaration did not make. -/
def createDeclared (db : Db) (table : String) (previous : List Indexes.IndexSpec)
    (spec : Indexes.IndexSpec) : Tx Db Error Unit :=
  let exists' := onTable db table spec.name
  if spec ∈ previous ∧ exists' = true then pure ()
  else if exists' = true ∧ spec.name ∉ previous.map Indexes.IndexSpec.name then pure ()
  else run server (spec.createStatement table)
    (refused server ("failed to create the index " ++ debug spec.name ++ " on " ++ debug table))

/-- The previous declaration, resolved against the collection as it is now; nothing where it does not
resolve. -/
def resolvePrevious (collection : Collection) (context : FilterContext) :
    Option Json → Result (List Indexes.IndexSpec)
  | none => .ok []
  | some options => do
    let old ← declaredIndexes options
    .ok (match Indexes.parseAll sha collection old context with
      | .ok specs => specs
      | .error _ => [])

/-- Apply a collection's `options.indexes` declaration. -/
def applyDeclaredIndexes (collection : Collection) (context : FilterContext)
    (previousOptions : Option Json) : Tx Db Error Unit := do
  let declared ← Tx.lift (declaredIndexes collection.options)
  let specs ← Tx.lift (Indexes.parseAll sha collection declared context)
  let db ← Tx.get
  let previous ← Tx.lift (resolvePrevious sha collection context previousOptions)
  previous.forM (dropOld server db collection.name specs)
  specs.forM (createDeclared server db collection.name previous)

/-! ### Creating -/

/-- The ids a creation draws. -/
structure Ids where
  collection : String
  /-- Of the declared fields. -/
  field : ℕ → String
  /-- Of the fields an auth collection has by itself. -/
  builtin : ℕ → String

/-- The fields of a new collection. -/
def newFields (ids : Ids) (fields : List CreateField) : List Field :=
  fields.zipIdx.map fun (f, position) =>
    ⟨ids.field position, ids.collection, f.name, f.fieldType, f.required, f.unique, f.options,
      position⟩

/-- The fields an auth collection has by itself. -/
def builtinFields (ids : Ids) : List Field :=
  authSystemFields.zipIdx.map fun (f, index) =>
    ⟨ids.builtin index, ids.collection, f.name, f.fieldType, f.required, f.isUnique, f.options,
      index + 1⟩

/-- `on conflict (collection_id, name) do nothing` -/
def insertBuiltinField (field : Field) : Tx Db Error Unit :=
  Tx.run (fun db =>
    if db.collections.any fun c =>
        c.id = field.collectionId && c.fields.any fun f => f.name = field.name then some db
    else db.insertField field) (dbError server)

/-- The table a relation's target names: a collection's id, or its name. -/
def resolveTarget (db : Db) (id name target : String) : Option String :=
  if target = id then some name
  else match db.collections.find? fun c => c.id = target with
    | some c => some c.name
    | none =>
      if target = name ∨ ∃ c ∈ db.collections, c.name = target then some target else none

/-- Refuse to adopt an existing table that lacks the columns the collection declares. -/
def verifyAdoptable (db : Db) (collection : Collection) : Result Unit :=
  let present := ((db.tables collection.name).map Relation.columnNames).getD []
  let expected := systemColumns ++
    (if collection.collectionType = .auth then authSystemColumns else []) ++
    collection.fields.map Field.name
  let missing := expected.filter fun column => column ∉ present
  failIf (missing ≠ [])
    (.invalid ("cannot adopt the existing table " ++ debug collection.name ++
      ": it is missing the column(s) " ++ join ", " missing))

/-- The row of a declared field, with its index where the table is new. -/
def createField (newTable : Bool) (table : String) (field : Field) : Tx Db Error Unit := do
  insertField server field
  Tx.onlyIf newTable (createOwnIndex sha server "failed to create the index for " table field)

/-- The transaction of a creation: `table` is the statement for a new table, absent where one is
adopted. -/
def createTransaction (ids : Ids) (collection : Collection) (all : List Collection)
    (table : Option Statement) : Tx Db Error Unit := do
  let name := collection.name
  Tx.onSome table fun statement =>
    run server statement (refused server ("failed to create the table for " ++ debug name))
  Tx.run (fun db => db.insertCollection collection) (dbError server)
  collection.fields.forM (createField sha server table.isSome name)
  Tx.onlyIf collection.collectionType.isAuth
    ((builtinFields ids).forM (insertBuiltinField server))
  Tx.onlyIf (collection.collectionType.isAuth && table.isSome)
    (run server (createAuthEmailIndexStatement sha name)
      (refused server ("failed to make emails unique in " ++ debug name)))
  let context ← Tx.lift (FilterContext.forCollection collection all)
  applyDeclaredIndexes sha server collection context none
  applyPolicies server collection context
  Tx.onlyIf table.isSome (Tx.lift (realtimeTriggerStatements name))

/-- The checks before a creation, and what they settle: the collection and its `create table`. -/
def prepareTable (db : Db) (input : CreateCollection) (ids : Ids) :
    Result (Collection × Option Statement) := do
  let name := input.name
  failIf (find db name).isSome
    (.conflict ("a collection named " ++ debug name ++ " already exists"))
  let collection : Collection :=
    ⟨ids.collection, name, input.collectionType, input.options, input.rules,
      newFields ids input.fields⟩
  collection.validate
  let existingTable := db.nameTaken name
  failIf (existingTable = true ∧ input.adoptExistingTable = false)
    (.conflict ("a table named " ++ debug name ++
      " already exists; set adoptExistingTable to attach to it"))
  if existingTable then do
    verifyAdoptable db collection
    .ok (collection, none)
  else do
    let statement ← createTableStatement collection (resolveTarget db ids.collection name)
    .ok (collection, some statement)

/-! ### Views -/

/-- Resolve a view's options into the SQL Postgres will run; `toQuery` is the view builder. -/
def viewOptions (toQuery : Json → List Collection → Result String) (options : Json)
    (all : List Collection) : Result Json := do
  let entries := match options with
    | .object entries => entries
    | _ => []
  failIf (((Assoc.lookup "indexes" entries).bind Json.asArray).any fun indexes => indexes ≠ [])
    (.unsupported ("a view collection cannot have indexes; the source tables' indexes are what a " ++
      "view uses"))
  match (Assoc.lookup "view_builder" entries).filter fun value => value ≠ .null with
  | some spec => do
    let query ← toQuery spec all
    .ok (.object (Assoc.insert "view_origin" (.string "builder")
      (Assoc.insert "view_query" (.string query) entries)))
  | none => do
    let query ← okOr (.invalid
        "a view collection needs `viewQuery` (SQL) or `viewBuilder` (the no-code spec)")
      ((((Assoc.lookup "view_query" entries).bind Json.asStr).map trim).filter fun q => q ≠ "")
    let entries := Assoc.insert "view_query" (.string query) entries
    .ok (.object (if (Assoc.lookup "view_origin" entries).isSome then entries
      else Assoc.insert "view_origin" (.string "sql") entries))

/-- The query stored in a view's options. -/
def storedQuery (options : Json) : String := ((options.get "view_query").bind Json.asStr).getD ""

variable (toQuery : Json → List Collection → Result String)

/-- The checks before a view is created, and the collection they settle. -/
def prepareView (db : Db) (input : CreateCollection) (ids : Ids) :
    Result (Collection × Statement) := do
  let name := input.name
  failIf (find db name).isSome
    (.conflict ("a collection named " ++ debug name ++ " already exists"))
  failIf (db.nameTaken name)
    (.conflict ("a table or view named " ++ debug name ++ " already exists"))
  failIf (input.fields ≠ [])
    (.invalid ("a view's fields are its query's columns; send `viewQuery` or `viewBuilder` " ++
      "instead of fields"))
  let options ← viewOptions toQuery input.options (list db)
  let statement ← createViewStatement name (storedQuery options)
  .ok (⟨ids.collection, name, .view, options, input.rules, []⟩, statement)

/-- Create a view collection. -/
def createView (input : CreateCollection) (ids : Ids) : Saga Db Error Collection := do
  let (collection, statement) ← Saga.read fun db => prepareView toQuery db input ids
  transaction do
    run server statement (refused server ("failed to create the view " ++ debug input.name))
    Tx.run (fun db => db.insertCollection collection) (dbError server)
    let db ← Tx.get
    let fields := viewFields db collection.name collection.id
    Tx.lift (failIf ("id" ∉ fields.map Field.name)
      (.invalid ("the view " ++ debug input.name ++
        " must expose an `id` column; the records API addresses records by id")))
    pure { collection with fields }

/-- Create a collection: table, indexes and metadata, atomically. -/
def create (input : CreateCollection) (ids : Ids) : Saga Db Error Collection := do
  Saga.lift (validateCollectionName input.name)
  if input.collectionType = .view then createView server toQuery input ids
  else do
    let ((collection, table), all) ← Saga.read fun db => do
      let prepared ← prepareTable db input ids
      .ok (prepared, list db)
    transaction (createTransaction sha server ids collection all table)
    pure collection

/-! ### Fields -/

/-- The position of a field that is added. -/
def nextPosition (fields : List Field) : ℤ :=
  match (fields.map Field.position).max? with
  | some max => max + 1
  | none => 0

/-- The checks before a field is added, and what they settle. -/
def prepareField (db : Db) (nameOrId : String) (input : CreateField) (id : String) :
    Result (Collection × Field × List Statement) := do
  let collection ← get db nameOrId
  failIf (collection.collectionType.isTable = false)
    (.unsupported ("cannot add a field to the " ++ collection.collectionType.asStr ++
      " collection " ++ debug collection.name))
  failIf (collection.field input.name).isSome
    (.conflict ("collection " ++ debug collection.name ++ " already has a field named " ++
      debug input.name))
  let field : Field := ⟨id, collection.id, input.name, input.fieldType, input.required,
    input.unique, input.options, nextPosition collection.fields⟩
  field.validate collection.collectionType
  let statements ← addColumnStatements collection.name field
  .ok (collection, field, statements)

/-- Add a field to an existing collection. -/
def addField (nameOrId : String) (input : CreateField) (id : String) :
    Saga Db Error Field := do
  let (collection, field, statements) ←
    Saga.read fun db => prepareField db nameOrId input id
  transaction do
    runAll server statements (refused server ("failed to add field " ++ debug field.name ++
      " to " ++ debug collection.name))
    createOwnIndex sha server "failed to add an index for " collection.name field
    insertField server field
    pure field

/-- The default a stored field declares; a reflected one declares none. -/
def defaultValue (field : Field) : Option Json :=
  if (field.options.get "reflected").bind Json.asBool = some true then none
  else field.options.getNonNull "default"

/-- Bring the index of a field in line with its flags: drop what is there, then create what is
wanted. -/
def alterIndex (table : String) (current : Field) (wanted : CreateField) : Tx Db Error Unit :=
  let wantedIndex := wantedIndex wanted.unique wanted.options table wanted.name
  let currentIndex := ownIndex table current
  if currentIndex = wantedIndex then pure ()
  else do
    Tx.onlyIf currentIndex.isSome
      (run server (dropIndexStatement sha table wanted.name) (dbError server))
    Tx.onSome wantedIndex fun index =>
      run server (createIndexStatement sha index wanted.name)
        (refused server ("failed to update the index for " ++ debug table ++ "." ++
          debug wanted.name))

/-- Bring the default of a column in line with the declared one. -/
def alterDefault (table : String) (current : Field) (wanted : CreateField) : Tx Db Error Unit :=
  if defaultValue current = wanted.options.getNonNull "default" then pure ()
  else do
    let default ← Tx.lift (defaultSql wanted.fieldType wanted.options)
    run server (.alterDefault table wanted.name default)
      (refused server ("failed to change the default of " ++ debug table ++ "." ++
        debug wanted.name))

/-- Update one existing field's metadata, with the index and the default it implies. -/
def updateField (table : String) (current : Field) (wanted : CreateField) :
    Saga Db Error Unit := do
  Saga.lift (failIf (current.fieldType ≠ wanted.fieldType)
    (.invalid ("the field " ++ debug wanted.name ++ " is a " ++ current.fieldType.asStr ++
      " and cannot become a " ++ wanted.fieldType.asStr ++
      " in place; remove it and add it again if the type must change")))
  transaction do
    alterIndex sha server table current wanted
    alterDefault server table current wanted
    Tx.modify fun db => db.updateFieldRow current.id wanted.required wanted.unique wanted.options

/-- Drop the column of a field and its row. -/
def dropField (table : String) (field : Field) : Tx Db Error Unit := do
  let statement ← Tx.lift (dropColumnStatement table field.name)
  run server statement (.internal ("failed to drop " ++ debug table ++ "." ++ debug field.name ++
    ": " ++ server.report))
  Tx.modify fun db => db.deleteFieldRow field.id

/-- Remove a field and its column. -/
def deleteField (nameOrId fieldName : String) : Saga Db Error Field := do
  let (collection, field) ← Saga.read fun db => do
    let collection ← get db nameOrId
    let field ← okOr (.notFound ("collection " ++ debug collection.name ++
      " has no field named " ++ debug fieldName)) (collection.field fieldName)
    .ok (collection, field)
  transaction do
    dropField server collection.name field
    pure field

/-- Drop every column `existing` has that `declared` does not name, in one transaction. -/
def dropUndeclaredFields (existing : Collection) (declared : List String) :
    Saga Db Error (List String) :=
  let doomed := undeclaredFields existing declared
  if doomed = [] then pure []
  else transaction do
    doomed.forM (dropField server existing.name)
    pure (doomed.map Field.name)

/-! ### Updating -/

/-- Input for updating a collection's metadata. -/
structure UpdateCollection where
  rules : Option Json
  options : Option Json
  fields : Option (List CreateField)
  deleteMissingFields : Bool

/-- Reconcile a declared field: it is added, or updated where the collection has it. -/
def applyField (existing : Collection) (field : CreateField) (id : String) :
    Saga Db Error Unit :=
  match existing.field field.name with
  | none => do
    let _ ← addField sha server existing.name field id
    pure ()
  | some current => updateField sha server existing.name current field

/-- Reconcile the declared fields from the `index`-th on. -/
def applyFields (ids : ℕ → String) (existing : Collection) :
    ℕ → List CreateField → Saga Db Error Unit
  | _, [] => pure ()
  | index, field :: rest => do
    applyField sha server existing field (ids index)
    applyFields ids existing (index + 1) rest

/-- Drop what the declaration leaves out, where the caller asked for it. -/
def dropMissing (existing : Collection) (input : UpdateCollection) : Saga Db Error Unit :=
  match input.fields with
  | some fields =>
    if input.deleteMissingFields then do
      let _ ← dropUndeclaredFields server existing (fields.map CreateField.name)
      pure ()
    else pure ()
  | none => pure ()

/-- The part of an update that comes before its last transaction. -/
def reconcileFields (ids : ℕ → String) (existing : Collection) (input : UpdateCollection) :
    Saga Db Error Unit := do
  applyFields sha server ids existing 0 (input.fields.getD [])
  dropMissing server existing input

/-- The transaction at the end of an update of the collection `id`: the row, the order of the fields,
the declared indexes and the policies. -/
def updateTransaction (id : String) (updated : Collection) (all : List Collection) (previous : Json)
    (declared : List CreateField) : Tx Db Error Unit := do
  Tx.modify fun db => db.updateCollectionRow id updated.rules updated.options
  declared.zipIdx.forM fun (field, position) =>
    Tx.modify fun db => db.setPosition id field.name position
  let context ← Tx.lift (FilterContext.forCollection updated all)
  applyDeclaredIndexes sha server updated context (some previous)
  applyPolicies server updated context
  Tx.lift (realtimeTriggerStatements updated.name)

/-- The transaction of an update of a view. -/
def updateViewTransaction (existing : Collection) (rules options : Json) : Tx Db Error Unit := do
  Tx.onlyIf (storedQuery options ≠ storedQuery existing.options) (do
    let statement ← Tx.lift (replaceViewStatement existing.name (storedQuery options))
    run server statement (.invalid ("failed to replace the view " ++ debug existing.name ++ ": " ++
      server.report ++ ". A view can only be replaced with a compatible column list; drop and " ++
      "re-create it to rename or remove a column")))
  Tx.modify fun db => db.updateCollectionRow existing.id rules options

/-- Update a view collection: its rules, its definition, or both. -/
def updateView (existing : Collection) (input : UpdateCollection) :
    Saga Db Error Collection := do
  let options ← Saga.read fun db => match input.options with
    | some options => viewOptions toQuery options (list db)
    | none => .ok existing.options
  let rules := input.rules.getD existing.rules
  let sorted (names : List String) := names.insertionSort (· ≤ ·)
  Saga.lift (match input.fields with
    | some fields => failIf (fields ≠ [] ∧
        sorted (existing.fields.map Field.name) ≠ sorted (fields.map CreateField.name))
      (.invalid ("a view's columns come from its query; change `viewQuery` (or `viewBuilder`) " ++
        "instead of its fields"))
    | none => .ok ())
  transaction (updateViewTransaction server existing rules options)
  Saga.read fun db => get db existing.id

/-- Update a collection's rules and options, and reconcile its fields and indexes. -/
def update (nameOrId : String) (input : UpdateCollection) (ids : ℕ → String) :
    Saga Db Error Collection := do
  let existing ← Saga.read fun db => get db nameOrId
  if existing.collectionType = .view then updateView server toQuery existing input
  else do
    reconcileFields sha server ids existing input
    let (read, all) ← Saga.read fun db => do
      let read ← get db existing.id
      .ok (read, list db)
    let updated := { read with
      rules := input.rules.getD existing.rules
      options := input.options.getD existing.options }
    transaction (updateTransaction sha server existing.id updated all existing.options
      (input.fields.getD []))
    Saga.read fun db => get db existing.id

/-- Delete a collection's metadata, and optionally its data. -/
def delete (nameOrId : String) (dropData : Bool) : Saga Db Error Collection := do
  let collection ← Saga.read fun db => get db nameOrId
  transaction do
    Tx.onlyIf dropData (do
      let statement ← Tx.lift (if collection.collectionType = .view
        then dropViewStatement collection.name else dropTableStatement collection.name)
      run server statement (.internal ("failed to drop the " ++
        (if collection.collectionType = .view then "view" else "table") ++ " for " ++
        debug collection.name ++ ": " ++ server.report)))
    Tx.modify fun db => db.deleteCollectionRow collection.id
    pure collection

end

/-! ### Parameters for concrete runs -/

/-- A digest for names that are short enough to need none. -/
def noSha (_ : String) : String := "00000000"

/-- A view builder for a server without views. -/
def noBuilder (_ : Json) (_ : List Collection) : Result String := .error (.invalid "no view builder")

end LazyPock.Collections
