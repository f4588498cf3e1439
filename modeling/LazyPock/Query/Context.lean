import LazyPock.Schema.Collection

/-!
# The filter context of a collection

What the filter compiler knows about a collection (`crates/db/src/query/compile.rs`): the columns it
may name with their Postgres types, and the relations a dotted path may go through. The context of
a relation's target is built along, down to a fixed depth.

## Main definitions

* `FilterContext`, `RelationTarget`.
* `implicitFields`, `FilterContext.forCollection`.
-/

namespace LazyPock

open Text Assoc

/-- `MAX_PATH_DEPTH` -/
def maxPathDepth : Nat := 4

/-- A relation hop reachable from a collection; `C` is the context of the target. -/
structure RelationTarget (C : Type) where
  /-- The relation column on the parent table. -/
  column : String
  /-- Whether the column is a `text[]` (multi relation). -/
  multiple : Bool
  /-- The target table name. -/
  table : String
  /-- The target's own columns and relations. -/
  context : C

/-- What the compiler needs to know about the collection being filtered. -/
structure FilterContext where
  /-- Table name (unquoted). -/
  table : String
  /-- The collection's id; empty for a context that is not a collection. -/
  collectionId : String
  /-- Whitelisted column name to Postgres type. -/
  columns : List (String × String)
  /-- Relation fields reachable by a dotted path. -/
  relations : List (String × RelationTarget FilterContext)

namespace FilterContext

/-- Whether a column name is whitelisted. -/
def hasColumn (context : FilterContext) (column : String) : Bool :=
  (lookup column context.columns).isSome

end FilterContext

/-- The columns a collection has before a single field is declared. -/
def implicitFields (collection : Collection) : List (String × FieldType) :=
  ("id", .text) ::
    if collection.collectionType ≠ .view then [("created", .autodate), ("updated", .autodate)]
    else []

namespace FilterContext

/-- The columns of the implicit fields. -/
def implicitColumns : List (String × FieldType) → Result (List (String × String))
  | [] => .ok []
  | (name, fieldType) :: rest => do
    let columnType ← columnType fieldType (.object [])
    let columns ← implicitColumns rest
    .ok (insert name columnType.sql columns)

/-- The relation entry of a field, where its target is reachable and known: `hop` builds the
context of a target, and is absent at the deepest level. -/
def relationEntry (hop : Option (Collection → Result FilterContext)) (all : List Collection)
    (field : Field) : Result (Option (RelationTarget FilterContext)) :=
  if field.fieldType ≠ .relation then .ok none
  else match hop with
    | none => .ok none
    | some build => do
      let targetId ← okOr (.invalid ("relation field " ++ debug field.name ++
        " has no collectionId")) (relationTarget field.options)
      match all.find? fun candidate => candidate.id = targetId || candidate.name = targetId with
      | none => .ok none
      | some target => do
        let context ← build target
        .ok (some ⟨field.name, field.isMultiple, target.name, context⟩)

/-- One pass over the fields, columns and relations collected so far. -/
def buildFields (collection : Collection) (hop : Option (Collection → Result FilterContext))
    (all : List Collection) : List Field → List (String × String) →
    List (String × RelationTarget FilterContext) → Result FilterContext
  | [], columns, relations => .ok ⟨collection.name, collection.id, columns, relations⟩
  | field :: rest, columns, relations =>
    if collection.collectionType.isAuth && field.name ∈ credentialColumns then
      buildFields collection hop all rest columns relations
    else do
      let columnType ← field.columnType
      let columns := insert field.name columnType.sql columns
      let entry ← relationEntry hop all field
      let relations := match entry with
        | some relation => insert field.name relation relations
        | none => relations
      buildFields collection hop all rest columns relations

/-- The context of a collection with `levels` more levels of relations. -/
def build (all : List Collection) : (levels : Nat) → Collection → Result FilterContext
  | levels, collection => do
    let columns ← implicitColumns (implicitFields collection)
    let columns :=
      if collection.collectionType = .auth then
        insert "verified" "boolean" (insert "email" "text" columns)
      else columns
    match levels with
    | 0 => buildFields collection none all collection.fields columns []
    | levels + 1 => buildFields collection (some (build all levels)) all collection.fields columns []

/-- Build the context for a collection, resolving relation targets from `all`. -/
def forCollection (collection : Collection) (all : List Collection) : Result FilterContext :=
  build all maxPathDepth collection

/-! ### Columns of a context -/

theorem isSome_lookup_insert {α : Type} {key : String} (name : String) (value : α)
    {entries : List (String × α)} (h : (lookup key entries).isSome = true) :
    (lookup key (insert name value entries)).isSome = true := by
  by_cases hkey : key = name
  · rw [hkey, lookup_insert_self]
    rfl
  · rwa [lookup_insert_of_ne hkey]

/-- The fields of a collection add to its columns. -/
theorem hasColumn_of_buildFields {collection : Collection}
    {hop : Option (Collection → Result FilterContext)} {all : List Collection} {fields : List Field}
    {columns : List (String × String)} {relations : List (String × RelationTarget FilterContext)}
    {context : FilterContext} {key : String}
    (h : buildFields collection hop all fields columns relations = .ok context)
    (hkey : (lookup key columns).isSome = true) : context.hasColumn key = true := by
  induction fields generalizing columns relations with
  | nil =>
    rw [buildFields, Except.ok.injEq] at h
    rw [← h]
    exact hkey
  | cons field rest ih =>
    rw [buildFields] at h
    split at h
    · exact ih h hkey
    · obtain ⟨columnType, -, h⟩ := bind_eq_ok.mp h
      obtain ⟨entry, -, h⟩ := bind_eq_ok.mp h
      exact ih h (isSome_lookup_insert _ _ hkey)

/-- Every table has `created`. -/
theorem hasColumn_created {collection : Collection} {all : List Collection}
    {context : FilterContext} (h : forCollection collection all = .ok context)
    (htype : collection.collectionType ≠ .view) : context.hasColumn "created" = true := by
  have himplicit : implicitColumns (implicitFields collection) =
      .ok [("created", "timestamptz"), ("id", "text"), ("updated", "timestamptz")] := by
    simp only [implicitFields, htype, ne_eq, not_false_eq_true, ↓reduceIte]
    decide
  have hcreated : ∀ columns : List (String × String),
      columns = [("created", "timestamptz"), ("id", "text"), ("updated", "timestamptz")] →
      (lookup "created" (if collection.collectionType = .auth then
        insert "verified" "boolean" (insert "email" "text" columns)
        else columns)).isSome = true := by
    rintro columns rfl
    split
    · exact isSome_lookup_insert _ _ (isSome_lookup_insert _ _ (by decide))
    · decide
  unfold forCollection build at h
  obtain ⟨columns, hcolumns, h⟩ := bind_eq_ok.mp h
  rw [himplicit, Except.ok.injEq] at hcolumns
  exact hasColumn_of_buildFields h (hcreated columns hcolumns.symm)

end FilterContext

end LazyPock
