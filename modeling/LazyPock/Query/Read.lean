import LazyPock.Query.Compile
import LazyPock.Query.Pagination
import LazyPock.Query.Sort
import Mathlib.Data.List.Sort

/-!
# Record listings

`crates/db/src/query/read.rs`: the complete `select` of a listing with its document, filter, order
and page, and the matching `count(*)`. The parameters are appended in the order the statement uses
them: the filter's, then the keyset predicate's, then limit and offset.

The projection and expansion trees are those of `crates/db/src/query/projection.rs`; how a request
parameter is read into one is not modelled here.

## Main definitions

* `FieldSelection`, `ExpandSpec`, `ReadQuery`, `BuiltQuery`.
* `objectExpression`: the JSON document of a record and its expanded relations.
* `buildList`, `buildCount`.
-/

namespace LazyPock

open Text Sql

/-- `MAX_EXPAND_DEPTH` -/
def maxExpandDepth : Nat := 6

/-! ### Projection -/

/-- Which keys of a record are returned at one level. -/
structure FieldSelection where
  /-- Scalar columns to include, in request order. -/
  columns : List String
  /-- Include every scalar column. -/
  allColumns : Bool
  /-- `collectionId` was asked for by name. -/
  collectionId : Bool
  /-- `collectionName` was asked for by name. -/
  collectionName : Bool
  /-- Per-relation nested selections. -/
  nested : List (String × FieldSelection)

namespace FieldSelection

/-- Everything: the default when `fields` is not supplied. -/
def all : FieldSelection := ⟨[], true, false, false, []⟩

/-- The effective scalar columns for this level. -/
def effectiveColumns (selection : FieldSelection) (context : FilterContext) : List String :=
  if selection.allColumns then (context.columns.map Prod.fst).insertionSort (· ≤ ·)
  else selection.columns

end FieldSelection

/-- Which relations are expanded at each level. -/
structure ExpandSpec where
  /-- Per-relation nested expansions. -/
  nested : List (String × ExpandSpec)
  /-- Expand every relation at this level. -/
  all : Bool

namespace ExpandSpec

/-- No expansion. -/
def none : ExpandSpec := ⟨[], false⟩

/-- The relations to expand at this level. -/
def relationsToExpand (expand : ExpandSpec) (context : FilterContext) : List String :=
  if expand.all then (context.relations.map Prod.fst).insertionSort (· ≤ ·)
  else expand.nested.map Prod.fst

end ExpandSpec

/-! ### The document -/

/-- The alias of the `n`-th expanded relation. -/
def expandAlias (n : Nat) : Ident where
  name := "r" ++ toString n
  valid := by
    have hlist : ("r" ++ toString n).toList = 'r' :: Nat.toDigits 10 n := by
      simp [Nat.toList_repr]
    have hdigits : (Nat.toDigits 10 n).all isIdentPart = true := by
      rw [List.all_eq_true]
      intro c hc
      simp [isIdentPart, isAsciiDigit_of_mem_toDigits hc]
    unfold isIdent
    rw [hlist]
    simp only [hdigits]
    decide

/-- A qualified column. -/
def columnSql (row : Ref) (column : String) : String := row.text ++ "." ++ quoteIdent column

/-- The key and value of one column of the document. -/
def columnPair (context : FilterContext) (row : Ref) (column : String) : Result String := do
  failIf (¬ context.hasColumn column) (.invalid ("unknown field " ++ debug column ++
    " in collection " ++ debug context.table))
  .ok (stringConstant column ++ ", " ++ columnSql row column)

/-- `collectionId` and `collectionName`, never over a real column of the same name. -/
def collectionPairs (context : FilterContext) (selection : FieldSelection) : List String :=
  if context.collectionId = "" then []
  else
    (if (selection.allColumns || selection.collectionId) && !context.hasColumn "collectionId" then
      ["'collectionId', " ++ stringConstant context.collectionId] else []) ++
    (if (selection.allColumns || selection.collectionName) && !context.hasColumn "collectionName"
      then ["'collectionName', " ++ stringConstant context.table] else [])

/-- The value of an expanded relation: its record, or the array of its records. -/
def expandExpression (relation : RelationTarget FilterContext) (parent : Ref) (row : Ident)
    (document : String) : String :=
  let table := quoteIdent relation.table
  if relation.multiple then
    "(select coalesce(jsonb_agg(x.item order by x.created desc), '[]'::jsonb) from (select " ++
      document ++ " as item, " ++ columnSql (.bare row) "created" ++ " as created from " ++
      table ++ " " ++ row.name ++ " where " ++ columnSql (.bare row) "id" ++ " = any(" ++
      columnSql parent relation.column ++ ") order by " ++ columnSql (.bare row) "created" ++
      " desc limit 200) x)"
  else
    "(select " ++ document ++ " from " ++ table ++ " " ++ row.name ++ " where " ++
      columnSql (.bare row) "id" ++ " = " ++ columnSql parent relation.column ++ " limit 1)"

/-- Build the document of one level; `child` builds the one below. -/
abbrev DocumentBuilder :=
  FilterContext → Ref → FieldSelection → ExpandSpec → Nat → Result (String × Nat)

/-- The pairs of the expanded relations, the alias counter threaded through. -/
def expandPairs (child : DocumentBuilder) (context : FilterContext) (parent : Ref)
    (selection : FieldSelection) (expand : ExpandSpec) :
    List String → Nat → Result (List String × Nat)
  | [], counter => .ok ([], counter)
  | name :: names, counter => do
    let relation ← okOr (.invalid (debug name ++ " is not a relation field of collection " ++
      debug context.table)) (Assoc.lookup name context.relations)
    let row := expandAlias (counter + 1)
    -- A nested `fields` entry narrows the expanded record; `expand=*` goes one level only.
    let childSelection := (Assoc.lookup name selection.nested).getD .all
    let childExpand := if expand.all then .none else (Assoc.lookup name expand.nested).getD .none
    let (document, counter) ←
      child relation.context (.bare row) childSelection childExpand (counter + 1)
    let pair := stringConstant name ++ ", " ++ expandExpression relation parent row document
    let (pairs, counter) ← expandPairs child context parent selection expand names counter
    .ok (pair :: pairs, counter)

/-- The expanded relations live under `expand`. -/
def expandKey (expanded : List String) : List String :=
  if expanded = [] then [] else ["'expand', jsonb_build_object(" ++ join ", " expanded ++ ")"]

/-- The document of the pairs. -/
def documentOf (pairs : List String) : String :=
  if pairs = [] then "'\x7b\x7d'::jsonb" else "jsonb_build_object(" ++ join ", " pairs ++ ")"

/-- Build the JSON document expression, with `levels` levels left to build. -/
def objectExpression : (levels : Nat) → DocumentBuilder
  | 0, _, _, _, _, _ =>
    .error (.invalid ("`expand` is deeper than the supported " ++ toString maxExpandDepth ++
      " levels"))
  | levels + 1, context, row, selection, expand, counter => do
    let columns ← (selection.effectiveColumns context).mapM (columnPair context row)
    let (expanded, counter) ←
      expandPairs (objectExpression levels) context row selection expand
        (expand.relationsToExpand context) counter
    .ok (documentOf (columns ++ collectionPairs context selection ++ expandKey expanded), counter)

/-! ### Statements -/

/-- The alias of the collection's own table. -/
def rootAlias : Ident := ⟨"p", by decide⟩

/-- A record listing request. -/
structure ReadQuery where
  /-- Which keys to return. -/
  selection : FieldSelection
  /-- Which relations to expand. -/
  expand : ExpandSpec
  filter : Option Expr
  sort : List SortField
  page : Page

/-- A statement plus its bind parameters. -/
structure BuiltQuery where
  sql : String
  /-- Positional parameters, matching `$1..$n`. -/
  params : List String
deriving DecidableEq

/-- The filter's condition, if there is one, and its parameters. -/
def filterCondition (filter : Option Expr) (context : FilterContext) (auth : AuthContext) :
    Result (List String × List String) :=
  match filter with
  | none => .ok ([], [])
  | some expr => do
    let compiled ← compileWithRoot expr context auth (.bare rootAlias)
    .ok ([compiled.sql], compiled.params)

/-- The keyset condition, if the page continues from a cursor, behind the parameters so far. -/
def keysetCondition (page : Page) (params : List String) : List String × List String :=
  match page.after? with
  | none => ([], params)
  | some cursor =>
    let (sql, params) := cursor.predicate rootAlias params
    ([sql], params)

def whereClause (conditions : List String) : String :=
  if conditions = [] then "true" else join " and " conditions

/-- Build the listing statement: one row per record, as a JSON document. -/
def buildList (query : ReadQuery) (context : FilterContext) (auth : AuthContext) :
    Result BuiltQuery := do
  let (filtered, params) ← filterCondition query.filter context auth
  let continued := keysetCondition query.page params
  let (document, _) ←
    objectExpression (maxExpandDepth + 1) context (.bare rootAlias) query.selection query.expand 0
  let orderBy ← SortSpec.compile query.sort context
  let params := continued.2 ++ [toString query.page.limit]
  let limitIndex := params.length
  let params := params ++ [toString query.page.offsetRows]
  let offsetIndex := params.length
  let keysetCreated := if context.hasColumn "created" then "p.\"created\"" else "null::timestamptz"
  .ok ⟨"select " ++ document ++ " as record, " ++ keysetCreated ++
    " as keyset_created, p.\"id\" as keyset_id from " ++ quoteIdent context.table ++ " p where " ++
    whereClause (filtered ++ continued.1) ++ " order by " ++ orderBy ++ " limit $" ++
    toString limitIndex ++ "::text::bigint offset $" ++ toString offsetIndex ++ "::text::bigint",
    params⟩

/-- Build the matching `count(*)` statement. -/
def buildCount (filter : Option Expr) (context : FilterContext) (auth : AuthContext) :
    Result BuiltQuery := do
  let (filtered, params) ← filterCondition filter context auth
  .ok ⟨"select count(*) from " ++ quoteIdent context.table ++ " p where " ++ whereClause filtered,
    params⟩

end LazyPock
