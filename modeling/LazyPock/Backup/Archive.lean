import LazyPock.Backup.Fields
import Mathlib.Data.List.Sort

/-!
# Archives

What a backup holds (`crates/db/src/backup.rs`): the definition of every user collection beside its
records, read from a payload and written back, and what an import would do with it. The manifest, which
only counts what the archive holds, is left out.

## Main definitions

* `Backup.ArchiveCollection`, `Backup.Archive`.
* `Backup.toPayload`, `Backup.archiveFromPayload`.
* `Backup.plan`, `Backup.preflight`.
* `Backup.declaredFieldNames`, `Backup.declaredFields`: what a definition names, and
  what of it is applied.

## Main results

* `Backup.mem_writable`: an import writes the collections of the archive that are not the
  server's own.
-/

namespace LazyPock.Backup

open Text

/-- Whether a table belongs to the server rather than to the user. -/
def isSystemCollection (name : String) : Bool := name.toList.head? = some '_'

/-! ### The document -/

/-- A collection as an archive carries it. -/
structure ArchiveCollection where
  name : String
  /-- `base`, `auth` or `view`. -/
  collectionType : Option String
  /-- Field definitions, under either spelling. -/
  schema : List Json
  rules : Option Json
  options : Option Json
  records : List Json
deriving DecidableEq

/-- An archive as it is held in memory. -/
structure Archive where
  collections : List ArchiveCollection
  /-- Records per collection, in the order the archive holds them. -/
  data : List (String × List Json)
deriving DecidableEq

/-- The keys of a collection, in the order a sequence gives them in. -/
def wireKeys : List String :=
  ["name", "type", "schema", "fields", "rules", "options", "viewQuery", "viewBuilder", "records"]

/-- The entries of a collection: a map, or a sequence of the values alone. -/
def wireEntries : Json → Except String (List (String × Json))
  | .object entries => .ok entries
  | .array items =>
    if wireKeys.length < items.length then
      .error ("invalid length " ++ toString items.length ++ ", expected fewer elements in array")
    else .ok (wireKeys.zip items)
  | other => CreateField.typeError other "struct Wire"

/-- A value that may be absent or `null`. -/
def optionalKey (entries : List (String × Json)) (key : String) : Option Json :=
  (Assoc.lookup key entries).filter fun value => !value.isNull

def optionalString (entries : List (String × Json)) (key : String) :
    Except String (Option String) :=
  match optionalKey entries key with
  | none => .ok none
  | some (.string s) => .ok (some s)
  | some other => CreateField.typeError other "a string"

def optionalArray (entries : List (String × Json)) (key : String) :
    Except String (Option (List Json)) :=
  match optionalKey entries key with
  | none => .ok none
  | some (.array items) => .ok (some items)
  | some other => CreateField.typeError other "a sequence"

/-- A list that may be absent. -/
def arrayKey (entries : List (String × Json)) (key : String) : Except String (List Json) :=
  match Assoc.lookup key entries with
  | none => .ok []
  | some (.array items) => .ok items
  | some other => CreateField.typeError other "a sequence"

/-- An entry that is added where the key is free. -/
def insertIfAbsent (key : String) (value : Option Json) (entries : List (String × Json)) :
    List (String × Json) :=
  match value with
  | some value => if (Assoc.lookup key entries).isSome then entries else Assoc.insert key value entries
  | none => entries

/-- `ArchiveCollection::deserialize`: the fields under either spelling, and a view's definition folded
into the options. -/
def ArchiveCollection.deserialize (value : Json) : Except String ArchiveCollection := do
  let entries ← wireEntries value
  let name ← CreateField.stringKey entries "name"
  let collectionType ← optionalString entries "type"
  let schema ← optionalArray entries "schema"
  let fields ← optionalArray entries "fields"
  let viewQuery ← optionalString entries "viewQuery"
  let records ← arrayKey entries "records"
  let options := match (optionalKey entries "options").getD (.object []) with
    | .object options => .object (insertIfAbsent "view_builder" (optionalKey entries "viewBuilder")
        (insertIfAbsent "view_query" (viewQuery.map Json.string) options))
    | other => other
  .ok ⟨name, collectionType, if fields.getD [] = [] then schema.getD [] else fields.getD [],
    optionalKey entries "rules", some options, records⟩

/-- A collection of the archive in the payload, with the records it has there. -/
def ArchiveCollection.toJson (collection : ArchiveCollection) (records : List Json) : Json :=
  .object [("name", .string collection.name), ("options", collection.options.getD .null),
    ("records", .array records), ("rules", collection.rules.getD .null),
    ("schema", .array collection.schema),
    ("type", (collection.collectionType.map Json.string).getD .null)]

/-- The records the archive holds for a collection. -/
def Archive.recordsOf (archive : Archive) (name : String) : Option (List Json) :=
  (archive.data.find? fun entry => entry.1 = name).map Prod.snd

/-- The single document a backup holds. -/
def toPayload (archive : Archive) : Json :=
  .object [("collections", .array (archive.collections.map fun collection =>
    collection.toJson ((archive.recordsOf collection.name).getD [])))]

/-- The collections of a payload, before they are read: those of the envelope, or the array itself. -/
def payloadCollections : Json → Result Json
  | .array items => .ok (.array items)
  | payload => okOr (.invalid ("a backup payload must be an object with `collections`, or an array " ++
      "of collections")) (payload.get "collections")

/-- The collections of a payload as they are read. -/
def readCollections : Json → Except String (List ArchiveCollection)
  | .array items => items.mapM ArchiveCollection.deserialize
  | other => CreateField.typeError other "a sequence"

/-- Parse a single document: an object with `collections`, or the array of collections alone. The
records travel inline and are split out. -/
def archiveFromPayload (payload : Json) : Result Archive := do
  let collections ← payloadCollections payload
  match readCollections collections with
  | .ok read => .ok ⟨read.map fun c => { c with records := [] }, read.map fun c => (c.name, c.records)⟩
  | .error err => .error (.invalid ("the backup payload is not valid: " ++ err))

/-! ### What an import would do -/

/-- What an import will do to one collection. -/
inductive ImportAction where
  | create
  | update
  /-- Deliberately left alone, for the reason given. -/
  | skip (reason : String)
deriving DecidableEq

def skipReason : String := "a system collection: an import never writes lazypock's own tables"

/-- Decide what an import would do. -/
def plan (archive : List ArchiveCollection) (existing : List String) : List (String × ImportAction) :=
  archive.map fun collection =>
    (collection.name,
      if isSystemCollection collection.name then .skip skipReason
      else if collection.name ∈ existing then .update else .create)

/-- The collections the import would create or update. -/
@[grind =]
def writable (actions : List (String × ImportAction)) : List (String × ImportAction) :=
  actions.filter fun entry => match entry.2 with
    | .skip _ => false
    | _ => true

/-- How an import applies its changes. -/
inductive AtomicMode where
  /-- Everything in one transaction. -/
  | batch
  /-- One transaction for each collection. -/
  | perCollection
  /-- No shared transaction: carry on past a failure. -/
  | continue
deriving DecidableEq

/-- What an import was asked to do. -/
structure ImportOptions where
  atomic : AtomicMode
  confirm : Bool
  confirmThreshold : ℕ
  /-- Whether the collections and fields the payload leaves out are dropped. -/
  deleteMissing : Bool
deriving DecidableEq

/-- What an archive holds, computed before anything is written. -/
structure Preflight where
  /-- The collections it would write, with their types and row counts. -/
  collections : List (String × Option String × ℕ)
  skipped : List (String × String)
  totalRecords : ℕ
  requiresConfirmation : Bool
deriving DecidableEq

/-- The definition an archive carries for one collection. -/
def Archive.definition (archive : Archive) (name : String) : Option ArchiveCollection :=
  archive.collections.find? fun collection => collection.name = name

/-- Work out what an import would do, without writing anything. -/
def preflight (archive : Archive) (options : ImportOptions) : Preflight :=
  let actions := plan archive.collections []
  let collections := (writable actions).map fun (name, _) =>
    (name, (archive.definition name).bind ArchiveCollection.collectionType,
      ((archive.recordsOf name).getD []).length)
  let total := (collections.map fun c => c.2.2).sum
  { collections
    skipped := actions.filterMap fun (name, action) => match action with
      | .skip reason => some (name, reason)
      | _ => none
    totalRecords := total
    requiresConfirmation := decide (options.confirmThreshold < total) && !options.confirm }

/-! ### Definitions -/

/-- `definition_of` -/
def definitionOf (archive : Archive) (name : String) : Result ArchiveCollection :=
  okOr (.invalid ("the archive has no definition for " ++ debug name)) (archive.definition name)

/-- Map an archive's collection type onto this server's. -/
def parseCollectionType (value : Option String) : Result CollectionType :=
  match value.getD "base" with
  | "base" => .ok .base
  | "auth" => .ok .auth
  | "view" => .ok .view
  | other => .error (.invalid ("unknown collection type " ++ debug other ++
      "; expected base, auth or view"))

/-- The field names a payload declares for a collection: every entry counts. -/
def declaredFieldNames (definition : ArchiveCollection) : List String :=
  definition.schema.filterMap fun field => (field.get "name").bind Json.asStr

/-- The columns an import would drop from a collection. -/
def undeclaredNames (archive : Archive) (name : String) (collection : Collection) :
    Result (List String) := do
  let definition ← definitionOf archive name
  .ok ((undeclaredFields collection (declaredFieldNames definition)).map Field.name)

/-- The fields of a definition from the `position`-th on, each with the order it declares. -/
def orderedFields (collectionType : CollectionType) :
    ℕ → List Json → Result (List (Int × ℕ × CreateField))
  | _, [] => .ok []
  | position, value :: rest => do
    let field ← fieldToCreate value collectionType
    let fields ← orderedFields collectionType (position + 1) rest
    .ok (match field with
      | none => fields
      | some field =>
        (((field.options.get "sort_order").bind Json.asI64).getD position, position, field) :: fields)

/-- The order fields are declared in. -/
def declaredOrder (a b : Int × ℕ × CreateField) : Prop :=
  a.1 < b.1 ∨ (a.1 = b.1 ∧ a.2.1 ≤ b.2.1)

instance : DecidableRel declaredOrder := fun a b =>
  inferInstanceAs (Decidable (a.1 < b.1 ∨ (a.1 = b.1 ∧ a.2.1 ≤ b.2.1)))

/-- Map a definition's fields onto the input of a create or an update. -/
def declaredFields (definition : ArchiveCollection) (collectionType : CollectionType) :
    Result (List CreateField) := do
  let fields ← orderedFields collectionType 0 definition.schema
  .ok ((fields.insertionSort declaredOrder).map fun entry => entry.2.2)

/-! ### What is written was named -/

theorem mem_writable {archive : List ArchiveCollection} {existing : List String} {name : String}
    {action : ImportAction} :
    (name, action) ∈ writable (plan archive existing) ↔
      (∃ collection ∈ archive, collection.name = name) ∧ isSystemCollection name = false ∧
        action = if name ∈ existing then .update else .create := by
  simp only [writable, plan, List.mem_filter, List.mem_map, Prod.mk.injEq]
  constructor
  · rintro ⟨⟨collection, hmem, rfl, rfl⟩, haction⟩
    refine ⟨⟨collection, hmem, rfl⟩, ?_⟩
    cases hsystem : isSystemCollection collection.name with
    | true => simp [hsystem] at haction
    | false => exact ⟨rfl, by simp⟩
  · rintro ⟨⟨collection, hmem, rfl⟩, hsystem, rfl⟩
    refine ⟨⟨collection, hmem, rfl, by simp [hsystem]⟩, ?_⟩
    by_cases hexisting : collection.name ∈ existing <;> simp [hexisting]

/-- The names an import writes do not depend on what is there. -/
theorem writable_names (archive : List ArchiveCollection) (existing : List String) :
    (writable (plan archive existing)).map Prod.fst =
      (archive.map ArchiveCollection.name).filter fun name => !isSystemCollection name := by
  induction archive with
  | nil => rfl
  | cons collection rest ih =>
    simp only [writable, plan] at ih
    cases hsystem : isSystemCollection collection.name with
    | true => simp [writable, plan, hsystem, ih]
    | false =>
      by_cases hexisting : collection.name ∈ existing <;>
        simp [writable, plan, hsystem, hexisting, ih]

variable {collectionType : CollectionType}

end LazyPock.Backup
