import LazyPock.Schema.Collection
import Mathlib.Data.List.Forall2

/-!
# Statements on tables, columns and indexes

The statements `crates/db/src/ddl.rs` builds for a collection, as the structures the database reads
from their text: a column with its type, default and foreign key, and an index with its key columns
and predicate.

An index is named after its table and column. A name that would be too long is cut and a content
hash appended; `sha` stands for the first eight hexadecimal digits of a SHA-256 digest.

## Main definitions

* `Ddl.Column`, `Ddl.Index`, `Ddl.Statement`.
* `Ddl.indexName`.
* `Ddl.columnDefinition`, `Ddl.createTableStatement`,
  `Ddl.addColumnStatements`, `Ddl.dropColumnStatement`.
* `Ddl.ownIndex`, `Ddl.authEmailIndex`: the indexes a field or an auth collection
  brings.
-/

namespace LazyPock.Ddl

open Text

/-! ### What a statement is about -/

/-- What happens to a reference when its target goes. -/
inductive OnDelete where
  | cascade
  | setNull
deriving DecidableEq, Repr

/-- `references "table" ("id") on delete …` -/
structure ForeignKey where
  table : String
  onDelete : OnDelete
deriving DecidableEq, Repr

structure Column where
  name : String
  type : Sql.PgType
  notNull : Bool
  /-- The text of the default. -/
  default : Option String
  references : Option ForeignKey
deriving DecidableEq

/-- What an index orders by. -/
inductive IndexKey where
  | column (name : String) (descending : Bool)
  /-- `lower("name")` -/
  | lower (name : String)
deriving DecidableEq, Repr

structure Index where
  table : String
  unique : Bool
  keys : List IndexKey
  /-- The text of the `where` of a partial index. -/
  predicate : Option String
deriving DecidableEq, Repr

def IndexKey.columnName : IndexKey → String
  | column name _ => name
  | lower name => name

/-- The names quoted in a text. -/
def quotedNames (text : String) : List String :=
  ((Sql.lex text.toList).getD []).filterMap fun
    | .quoted name => some name
    | _ => none

/-- Whether a column takes part in an index, as a key or in its predicate. -/
def Index.uses (index : Index) (column : String) : Bool :=
  column ∈ index.keys.map IndexKey.columnName ||
    index.predicate.any fun text => column ∈ quotedNames text

/-- A statement on the schema. -/
inductive Statement where
  | createTable (table : String) (columns : List Column)
  | addColumn (table : String) (column : Column)
  /-- `alter column … set default`, or `drop default` where there is none. -/
  | alterDefault (table column : String) (default : Option String)
  | dropColumn (table column : String)
  | createIndex (ifNotExists : Bool) (name : String) (index : Index)
  /-- `drop index if exists` -/
  | dropIndex (name : String)
  | createView (name query : String)
  /-- `create or replace view` -/
  | replaceView (name query : String)
  /-- `drop view if exists … cascade` -/
  | dropView (name : String)
  /-- `drop table if exists … cascade` -/
  | dropTable (name : String)

/-! ### Index names -/

/-- The first bytes of a name; a name that is cut is made of one-byte characters. -/
def cut (name : String) (bytes : Nat) : String := String.ofList (name.toList.take bytes)

section Names

variable (sha : String → String)

/-- Deterministic index name for a column. -/
def indexName (table column : String) : String :=
  let base := "idx_" ++ table ++ "_" ++ column
  if byteLen base ≤ maxIdentifierLen then base
  else
    let suffix := sha base
    let keep := maxIdentifierLen - byteLen suffix - 1
    cut base keep ++ "_" ++ suffix

end Names

/-! ### Tables -/

/-- The columns of every table. -/
def systemColumnDefinitions : List Column :=
  [⟨"id", .text, true, none, none⟩, ⟨"created", .timestamptz, true, some "now()", none⟩,
    ⟨"updated", .timestamptz, true, some "now()", none⟩]

/-- The columns the definitions of an auth collection add. -/
def authColumnDefinitions : List Column :=
  [⟨"email", .text, false, none, none⟩, ⟨"password_hash", .text, false, none, none⟩,
    ⟨"verified", .boolean, true, some "false", none⟩, ⟨"token_key", .text, false, none, none⟩,
    ⟨"emailVisibility", .boolean, true, some "false", none⟩]

/-- A field that holds one record id. -/
def isSingleRelation (fieldType : FieldType) (options : Json) : Bool :=
  fieldType = .relation && !isMultiple options

/-- The foreign key of a field: a single relation has one. -/
def foreignKey (field : Field) (resolveTable : String → Option String) :
    Result (Option ForeignKey) :=
  if isSingleRelation field.fieldType field.options then do
    let targetId ← okOr (.invalid ("relation field " ++ debug field.name ++ " has no collectionId"))
      (relationTarget field.options)
    let target ← okOr (.invalid ("relation field " ++ debug field.name ++
      " references unknown collection " ++ debug targetId)) (resolveTable targetId)
    .ok (some ⟨target, if optionBool field.options "cascadeDelete" then .cascade else .setNull⟩)
  else .ok none

/-- A column of `create table`. -/
def columnDefinition (field : Field) (resolveTable : String → Option String) : Result Column := do
  let columnType ← field.columnType
  let default ← defaultSql field.fieldType field.options
  let references ← foreignKey field resolveTable
  .ok ⟨field.name, columnType, field.required, default, references⟩

/-- The columns of the fields, in order. -/
def columnDefinitions (resolveTable : String → Option String) : List Field → Result (List Column)
  | [] => .ok []
  | field :: rest => do
    let column ← columnDefinition field resolveTable
    let columns ← columnDefinitions resolveTable rest
    .ok (column :: columns)

/-- The columns a table has before any field. -/
def builtinColumns (collectionType : CollectionType) : List Column :=
  systemColumnDefinitions ++ if collectionType = .auth then authColumnDefinitions else []

/-- `create table` for a collection. -/
def createTableStatement (collection : Collection) (resolveTable : String → Option String) :
    Result Statement := do
  validateIdentifier "collection name" collection.name
  failIf (collection.collectionType = .view)
    (.unsupported "create_table_statement does not build views")
  let columns ← columnDefinitions resolveTable collection.fields
  .ok (.createTable collection.name (builtinColumns collection.collectionType ++ columns))

theorem createTableStatement_eq_ok {collection : Collection}
    {resolveTable : String → Option String} {statement : Statement}
    (h : createTableStatement collection resolveTable = .ok statement) :
    ∃ columns, columnDefinitions resolveTable collection.fields = .ok columns ∧
      .createTable collection.name (builtinColumns collection.collectionType ++ columns) =
        statement := by
  obtain ⟨_, -, h⟩ := bind_eq_ok.mp h
  obtain ⟨_, -, h⟩ := bind_eq_ok.mp h
  obtain ⟨columns, hcolumns, h⟩ := bind_eq_ok.mp h
  exact ⟨columns, hcolumns, Except.ok.inj h⟩

theorem columnDefinitions_eq_ok {resolveTable : String → Option String} {columns : List Column}
    {fields : List Field} :
    columnDefinitions resolveTable fields = .ok columns ↔
      List.Forall₂ (fun f c => columnDefinition f resolveTable = .ok c) fields columns := by
  induction fields generalizing columns with
  | nil => simp [columnDefinitions, eq_comm]
  | cons f fields ih =>
    rw [List.forall₂_cons_left_iff]
    constructor
    · intro h
      obtain ⟨column, hcolumn, h⟩ := bind_eq_ok.mp h
      obtain ⟨later, hlater, h⟩ := bind_eq_ok.mp h
      exact ⟨column, later, hcolumn, ih.mp hlater, (Except.ok.inj h).symm⟩
    · rintro ⟨column, later, hcolumn, hlater, rfl⟩
      exact bind_eq_ok.mpr ⟨column, hcolumn, bind_eq_ok.mpr ⟨later, ih.mpr hlater, rfl⟩⟩

theorem exists_of_forall₂ {α β : Type} {R : α → β → Prop} {a : List α} {l : List β}
    (h : List.Forall₂ R a l) : ∀ x ∈ a, ∃ y ∈ l, R x y := by
  induction h with
  | nil => simp
  | cons hxy _ ih =>
    refine List.forall_mem_cons.mpr ⟨⟨_, List.mem_cons_self, hxy⟩, fun x hx => ?_⟩
    obtain ⟨y, hy, hR⟩ := ih x hx
    exact ⟨y, List.mem_cons_of_mem _ hy, hR⟩

theorem columnDefinition_unique {resolveTable : String → Option String} :
    Relator.RightUnique fun f c => columnDefinition f resolveTable = .ok c :=
  fun _ _ _ h h' => Except.ok.inj (h.symm.trans h')

/-- Statements to add a column, in order. A required column without a declared default is added with
a placeholder, which is then dropped. -/
def addColumnStatements (table : String) (field : Field) : Result (List Statement) := do
  validateIdentifier "collection name" table
  let columnType ← field.columnType
  let default ← defaultSql field.fieldType field.options
  if !field.required then
    .ok [.addColumn table ⟨field.name, columnType, false, default, none⟩]
  else match default with
    | some literal => .ok [.addColumn table ⟨field.name, columnType, true, some literal, none⟩]
    | none => do
      let zero ← okOr (.invalid ("cannot add the required field " ++ debug field.name ++
        ": a required " ++ field.fieldType.asStr ++ " field has no safe placeholder value. " ++
        "Add it as optional, populate it, then set it required."))
        (zeroDefault field.fieldType field.options)
      .ok [.addColumn table ⟨field.name, columnType, true, some zero, none⟩,
        .alterDefault table field.name none]

/-- `alter table … drop column` -/
def dropColumnStatement (table column : String) : Result Statement := do
  validateIdentifier "collection name" table
  validateIdentifier "field name" column
  failIf (column ∈ systemColumns ∨ column ∈ authSystemColumns)
    (.invalid (debug column ++ " is a built-in column and cannot be dropped"))
  .ok (.dropColumn table column)

def dropTableStatement (table : String) : Result Statement := do
  validateIdentifier "collection name" table
  .ok (.dropTable table)

/-! ### Views -/

/-- Validate a view's SQL: one statement, not empty. -/
def viewQuery (name query : String) : Result String := do
  let query := trim query
  failIf (query = "") (.invalid ("the view " ++ debug name ++ " needs a query"))
  failIf (';' ∈ query.toList) (.invalid ("the view " ++ debug name ++
    " must be a single SELECT statement: remove the `;`"))
  .ok query

def createViewStatement (name query : String) : Result Statement := do
  validateIdentifier "collection name" name
  let query ← viewQuery name query
  .ok (.createView name query)

def replaceViewStatement (name query : String) : Result Statement := do
  validateIdentifier "collection name" name
  let query ← viewQuery name query
  .ok (.replaceView name query)

def dropViewStatement (name : String) : Result Statement := do
  validateIdentifier "collection name" name
  .ok (.dropView name)

/-- What the statements that set the trigger of a collection check: the trigger itself is not
modelled. -/
def realtimeTriggerStatements (table : String) : Result Unit :=
  validateIdentifier "collection name" table

/-! ### Indexes -/

/-- An index over one column. -/
def columnIndex (unique : Bool) (table column : String) : Index :=
  ⟨table, unique, [.column column false], none⟩

/-- The index the flags of a field ask for: a unique one, a plain one, or none. -/
def wantedIndex (unique : Bool) (options : Json) (table column : String) : Option Index :=
  if unique then some (columnIndex true table column)
  else if optionBool options "indexed" then some (columnIndex false table column)
  else none

/-- The index of a stored field. -/
def ownIndex (table : String) (field : Field) : Option Index :=
  wantedIndex field.isUnique field.options table field.name

/-- The case-insensitive unique email index every auth collection needs. -/
def authEmailIndex (table : String) : Index :=
  ⟨table, true, [.lower "email"], some "\"email\" is not null"⟩

variable (sha : String → String)

/-- `create [unique] index` for a column. -/
def createIndexStatement (index : Index) (column : String) : Statement :=
  .createIndex false (indexName sha index.table column) index

def createAuthEmailIndexStatement (table : String) : Statement :=
  .createIndex false (indexName sha table "email") (authEmailIndex table)

/-- `drop index if exists` for a column. -/
def dropIndexStatement (table column : String) : Statement := .dropIndex (indexName sha table column)

end LazyPock.Ddl
