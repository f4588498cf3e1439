import LazyPock.Query.Read
import LazyPock.Sql.Scopes

/-!
# The columns of a generated statement

The documents and listings of `Query.Read` once more, as fragments: the same builders with
every qualified column marked with the level of the row it is written for and every subquery marked
with the table it reads. The statement of a fragment is the text the builder writes, and its
references are the qualified columns in it.

The derived table `x` of an expanded array is text here: it is not in scope inside its own
`select`, and beside it only its own outputs `x.item` and `x.created` stand.

## Main definitions

* `recordDocument`: `record_document`.
* `objectFragment`, `recordFragment`: a document with its columns marked.
* `getOneSql`, `getOneFragment`: the statement of `records::get_one`.
* `listFragment`, `countFragment`: a listing and its count.

## Main results

* `objectExpression_eq`, `getOneSql_eq`, `buildList_eq`,
  `buildCount_eq`: a fragment's statement is what the builder writes.
-/

namespace LazyPock

open Text Sql

/-! ### Documents -/

/-- Build the document of a record from a root reference. -/
def recordDocument (context : FilterContext) (root : Ref) (selection : FieldSelection)
    (expand : ExpandSpec) : Result String := do
  let (document, _) ← objectExpression (maxExpandDepth + 1) context root selection expand 0
  .ok document

/-- The key and value of one column, for the row at `level`. -/
def columnFragment (context : FilterContext) (row : Ref) (level : Nat) (column : String) :
    Result Fragment := do
  failIf (¬ context.hasColumn column) (.invalid ("unknown field " ++ debug column ++
    " in collection " ++ debug context.table))
  .ok (.text (stringConstant column ++ ", ") ++ .column row column level)

/-- The value of an expanded relation of the row at `level`. -/
def expandFragment (relation : RelationTarget FilterContext) (parent : Ref) (level : Nat)
    (row : Ident) (document : Fragment) : Fragment :=
  let source : Source := ⟨relation.table, row⟩
  let id := Fragment.column (.bare row) "id" (level + 1)
  let created := Fragment.column (.bare row) "created" (level + 1)
  let reference := Fragment.column parent relation.column level
  if relation.multiple then
    .text "(select coalesce(jsonb_agg(x.item order by x.created desc), '[]'::jsonb) from (select " ++
      .query source
        (document ++ (.text " as item, " ++ (created ++ .text " as created from ")))
        (.text " where " ++ (id ++ (.text " = any(" ++ (reference ++ (.text ") order by " ++
          (created ++ .text " desc limit 200) x)"))))))
  else
    .text "(select " ++
      .query source (document ++ .text " from ")
        (.text " where " ++ (id ++ (.text " = " ++ (reference ++ .text " limit 1)"))))

/-- Build the marked document of one level; `child` builds the one below. -/
abbrev FragmentBuilder :=
  FilterContext → Ref → FieldSelection → ExpandSpec → Nat → Result (Fragment × Nat)

/-- The selection below a relation: everything, unless `fields` names it. -/
def FieldSelection.child (selection : FieldSelection) (name : String) : FieldSelection :=
  (Assoc.lookup name selection.nested).getD .all

/-- The expansion below a relation: `expand=*` goes one level only. -/
def ExpandSpec.child (expand : ExpandSpec) (name : String) : ExpandSpec :=
  if expand.all then .none else (Assoc.lookup name expand.nested).getD .none

/-- The pairs of the expanded relations of the row at `level`. -/
def expandFragments (child : FragmentBuilder) (context : FilterContext) (parent : Ref)
    (level : Nat) (selection : FieldSelection) (expand : ExpandSpec) :
    List String → Nat → Result (List Fragment × Nat)
  | [], counter => .ok ([], counter)
  | name :: names, counter => do
    let relation ← okOr (.invalid (debug name ++ " is not a relation field of collection " ++
      debug context.table)) (Assoc.lookup name context.relations)
    let row := expandAlias (counter + 1)
    let (document, counter) ←
      child relation.context (.bare row) (selection.child name) (expand.child name) (counter + 1)
    let pair := .text (stringConstant name ++ ", ") ++
      expandFragment relation parent level row document
    let (pairs, counter) ←
      expandFragments child context parent level selection expand names counter
    .ok (pair :: pairs, counter)

def expandKeyFragment (expanded : List Fragment) : List Fragment :=
  if expanded = [] then []
  else [.text "'expand', jsonb_build_object(" ++ (Fragment.join ", " expanded ++ .text ")")]

def documentFragmentOf (pairs : List Fragment) : Fragment :=
  if pairs = [] then .text "'\x7b\x7d'::jsonb"
  else .text "jsonb_build_object(" ++ (Fragment.join ", " pairs ++ .text ")")

/-- The marked document of the row at `level`, with `levels` levels left to build. -/
def objectFragment : (levels level : Nat) → FragmentBuilder
  | 0, _, _, _, _, _, _ =>
    .error (.invalid ("`expand` is deeper than the supported " ++ toString maxExpandDepth ++
      " levels"))
  | levels + 1, level, context, row, selection, expand, counter => do
    let columns ← (selection.effectiveColumns context).mapM (columnFragment context row level)
    let (expanded, counter) ←
      expandFragments (objectFragment levels (level + 1)) context row level selection expand
        (expand.relationsToExpand context) counter
    .ok (documentFragmentOf (columns ++ (collectionPairs context selection).map .text ++
      expandKeyFragment expanded), counter)

/-- The marked document of a record. -/
def recordFragment (context : FilterContext) (root : Ref) (selection : FieldSelection)
    (expand : ExpandSpec) : Result Fragment := do
  let (document, _) ← objectFragment (maxExpandDepth + 1) 0 context root selection expand 0
  .ok document

/-! ### The text of a document -/

theorem mapM_map {α β γ : Type} {f : α → Result γ} {g : α → Result β} {s : β → γ}
    (h : ∀ a, f a = (g a).map s) (items : List α) :
    items.mapM f = (items.mapM g).map (List.map s) := by
  induction items with
  | nil => rfl
  | cons item items ih =>
    rw [List.mapM_cons, List.mapM_cons, h, ih]
    cases g item with
    | error e => rfl
    | ok b => cases items.mapM g <;> rfl

theorem columnPair_eq (context : FilterContext) (row : Ref) (level : Nat) (column : String) :
    columnPair context row column =
      (columnFragment context row level column).map Fragment.sql := by
  unfold columnPair columnFragment
  cases failIf (¬ context.hasColumn column) (.invalid ("unknown field " ++ debug column ++
    " in collection " ++ debug context.table)) with
  | error e => rfl
  | ok u => simp only [columnSql, Except.map, Bind.bind, Except.bind, Fragment.sql_append,
      Fragment.sql_text, Fragment.sql_column, String.append_assoc]

theorem sql_expandFragment (relation : RelationTarget FilterContext) (parent : Ref) (level : Nat)
    (row : Ident) (document : Fragment) :
    (expandFragment relation parent level row document).sql =
      expandExpression relation parent row document.sql := by
  unfold expandFragment expandExpression
  by_cases hmultiple : relation.multiple = true
  · simp only [hmultiple, ↓reduceIte, columnSql, Source.text, Ref.text, Fragment.sql_append,
      Fragment.sql_text, Fragment.sql_query, Fragment.sql_column, String.append_assoc]
  · simp only [hmultiple, Bool.false_eq_true, ↓reduceIte, columnSql, Source.text, Ref.text,
      Fragment.sql_append, Fragment.sql_text, Fragment.sql_query, Fragment.sql_column,
      String.append_assoc]

theorem expandPairs_eq {child : DocumentBuilder} {childFragment : FragmentBuilder}
    (hchild : ∀ context row selection expand counter, child context row selection expand counter =
      (childFragment context row selection expand counter).map fun p => (p.1.sql, p.2))
    (context : FilterContext) (parent : Ref) (level : Nat) (selection : FieldSelection)
    (expand : ExpandSpec) (names : List String) (counter : Nat) :
    expandPairs child context parent selection expand names counter =
      (expandFragments childFragment context parent level selection expand names counter).map
        fun p => (p.1.map Fragment.sql, p.2) := by
  induction names generalizing counter with
  | nil => rfl
  | cons name names ih =>
    rw [expandPairs, expandFragments]
    cases okOr (.invalid (debug name ++ " is not a relation field of collection " ++
      debug context.table)) (Assoc.lookup name context.relations) with
    | error e => rfl
    | ok relation =>
      have hbelow := hchild relation.context (.bare (expandAlias (counter + 1)))
        (selection.child name) (expand.child name) (counter + 1)
      unfold FieldSelection.child ExpandSpec.child at hbelow
      simp only [Bind.bind, Except.bind]
      rw [hbelow]
      unfold FieldSelection.child ExpandSpec.child
      cases childFragment relation.context (.bare (expandAlias (counter + 1)))
          ((Assoc.lookup name selection.nested).getD .all)
          (if expand.all then .none else (Assoc.lookup name expand.nested).getD .none)
          (counter + 1) with
      | error e => rfl
      | ok below =>
        obtain ⟨document, next⟩ := below
        simp only [Except.map]
        rw [ih next]
        cases expandFragments childFragment context parent level selection expand names next with
        | error e => rfl
        | ok rest =>
          simp only [Except.map, List.map_cons, Fragment.sql_append, Fragment.sql_text,
            sql_expandFragment]

theorem sql_documentFragmentOf (pairs : List Fragment) :
    (documentFragmentOf pairs).sql = documentOf (pairs.map Fragment.sql) := by
  unfold documentFragmentOf documentOf
  by_cases h : pairs = []
  · simp only [h, List.map_nil, ↓reduceIte, Fragment.sql_text]
  · simp only [h, List.map_eq_nil_iff, ↓reduceIte, Fragment.sql_append, Fragment.sql_text,
      Fragment.sql_join, String.append_assoc]

theorem map_sql_expandKeyFragment (expanded : List Fragment) :
    (expandKeyFragment expanded).map Fragment.sql = expandKey (expanded.map Fragment.sql) := by
  unfold expandKeyFragment expandKey
  by_cases h : expanded = []
  · simp only [h, List.map_nil, ↓reduceIte]
  · simp only [h, List.map_eq_nil_iff, ↓reduceIte, List.map_cons, List.map_nil,
      Fragment.sql_append, Fragment.sql_text, Fragment.sql_join, String.append_assoc]

/-- **A document with its columns marked** is the document the code writes. -/
theorem objectExpression_eq (levels level : Nat) (context : FilterContext) (row : Ref)
    (selection : FieldSelection) (expand : ExpandSpec) (counter : Nat) :
    objectExpression levels context row selection expand counter =
      (objectFragment levels level context row selection expand counter).map
        fun p => (p.1.sql, p.2) := by
  induction levels generalizing level context row selection expand counter with
  | zero => rfl
  | succ levels ih =>
    rw [objectExpression, objectFragment,
      mapM_map (columnPair_eq context row level) (selection.effectiveColumns context)]
    cases (selection.effectiveColumns context).mapM (columnFragment context row level) with
    | error e => rfl
    | ok columns =>
      simp only [Bind.bind, Except.bind, Except.map]
      rw [expandPairs_eq (ih (level + 1)) context row level]
      cases expandFragments (objectFragment levels (level + 1)) context row level selection expand
          (expand.relationsToExpand context) counter with
      | error e => rfl
      | ok expanded =>
        have htexts : ∀ texts : List String, (texts.map Fragment.text).map Fragment.sql = texts :=
          fun texts => by rw [List.map_map]; exact List.map_id texts
        simp only [Except.map, sql_documentFragmentOf, List.map_append, htexts,
          map_sql_expandKeyFragment]

/-- The document of a record. -/
theorem recordDocument_eq (context : FilterContext) (root : Ref) (selection : FieldSelection)
    (expand : ExpandSpec) :
    recordDocument context root selection expand =
      (recordFragment context root selection expand).map Fragment.sql := by
  unfold recordDocument recordFragment
  rw [objectExpression_eq (maxExpandDepth + 1) 0]
  cases objectFragment (maxExpandDepth + 1) 0 context root selection expand 0 <;> rfl

/-! ### Statements -/

/-- The statement that reads one record: `records::get_one`. -/
def getOneSql (collection : Collection) (context : FilterContext) (selection : FieldSelection)
    (expand : ExpandSpec) : Result String := do
  let document ← recordDocument context (.quoted collection.name) selection expand
  .ok ("select " ++ document ++ " as record from " ++ quoteIdent collection.name ++
    " where \"id\" = $1::text")

/-- The statement that reads one record, marked. -/
def getOneFragment (collection : Collection) (context : FilterContext) (selection : FieldSelection)
    (expand : ExpandSpec) : Result Fragment := do
  let document ← recordFragment context (.quoted collection.name) selection expand
  .ok (.text "select " ++ .query ⟨collection.name, none⟩ (document ++ .text " as record from ")
    (.text " where \"id\" = $1::text"))

theorem getOneSql_eq (collection : Collection) (context : FilterContext)
    (selection : FieldSelection) (expand : ExpandSpec) :
    getOneSql collection context selection expand =
      (getOneFragment collection context selection expand).map Fragment.sql := by
  unfold getOneSql getOneFragment
  rw [recordDocument_eq]
  cases recordFragment context (.quoted collection.name) selection expand with
  | error e => rfl
  | ok document =>
    simp only [Except.map, Bind.bind, Except.bind, Fragment.sql_append, Fragment.sql_text,
      Fragment.sql_query, Source.text, String.append_assoc]

/-- The marked statement of one that is written. -/
theorem getOneFragment_of_sql {collection : Collection} {context : FilterContext}
    {selection : FieldSelection} {expand : ExpandSpec} {sql : String}
    (h : getOneSql collection context selection expand = .ok sql) :
    ∃ fragment, getOneFragment collection context selection expand = .ok fragment ∧
      fragment.sql = sql := by
  rw [getOneSql_eq] at h
  exact map_eq_ok.mp h

/-- A column of the collection's own row. -/
def rootColumn (column : String) : Fragment := .column (.bare rootAlias) column 0

/-- The filter's condition, marked. -/
def filterFragments (filter : Option Expr) (context : FilterContext) (auth : AuthContext) :
    Result (List Fragment × List String) :=
  match filter with
  | none => .ok ([], [])
  | some expr => do
    let compiled ← compileWithRoot expr context auth (.bare rootAlias)
    .ok ([compiled.pred.marked 0 0], compiled.params)

/-- The keyset condition, marked. -/
def keysetFragments (page : Page) (params : List String) : List Fragment × List String :=
  match page.after? with
  | none => ([], params)
  | some cursor =>
    let params := params ++ [toString cursor.createdMicros]
    let timestampIndex := params.length
    let params := params ++ [cursor.id]
    let idIndex := params.length
    ([.text "(" ++ (rootColumn "created" ++ (.text ", " ++ (rootColumn "id" ++
      .text (") < (to_timestamp($" ++ toString timestampIndex ++
        "::text::bigint / 1000000.0), $" ++ toString idIndex ++ "::text)"))))], params)

def whereFragment (conditions : List Fragment) : Fragment :=
  if conditions = [] then .text "true" else Fragment.join " and " conditions

/-- The listing statement, marked. -/
def listFragment (query : ReadQuery) (context : FilterContext) (auth : AuthContext) :
    Result Fragment := do
  let (filtered, params) ← filterFragments query.filter context auth
  let continued := keysetFragments query.page params
  let document ← recordFragment context (.bare rootAlias) query.selection query.expand
  let orderBy ← SortSpec.compile query.sort context
  let limitIndex := continued.2.length + 1
  let keysetCreated :=
    if context.hasColumn "created" then rootColumn "created" else .text "null::timestamptz"
  .ok (.text "select " ++ .query ⟨context.table, rootAlias⟩
    (document ++ (.text " as record, " ++ (keysetCreated ++ (.text " as keyset_created, " ++
      (rootColumn "id" ++ .text " as keyset_id from ")))))
    (.text " where " ++ (whereFragment (filtered ++ continued.1) ++
      .text (" order by " ++ orderBy ++ " limit $" ++ toString limitIndex ++
        "::text::bigint offset $" ++ toString (limitIndex + 1) ++ "::text::bigint"))))

/-- The `count(*)` statement, marked. -/
def countFragment (filter : Option Expr) (context : FilterContext) (auth : AuthContext) :
    Result Fragment := do
  let (filtered, _) ← filterFragments filter context auth
  .ok (.text "select " ++ .query ⟨context.table, rootAlias⟩ (.text "count(*) from ")
    (.text " where " ++ whereFragment filtered))

theorem filterCondition_eq (filter : Option Expr) (context : FilterContext) (auth : AuthContext) :
    filterCondition filter context auth =
      (filterFragments filter context auth).map fun p => (p.1.map Fragment.sql, p.2) := by
  cases filter with
  | none => rfl
  | some expr =>
    simp only [filterCondition, filterFragments]
    cases compileWithRoot expr context auth (.bare rootAlias) with
    | error e => rfl
    | ok compiled =>
      simp only [Except.map, Bind.bind, Except.bind, List.map_cons, List.map_nil, Pred.sql_marked,
        CompiledFilter.sql]

theorem sql_rootColumn_created : (rootColumn "created").sql = "p.\"created\"" := by decide

theorem sql_rootColumn_id : (rootColumn "id").sql = "p.\"id\"" := by decide

theorem keysetCondition_eq (page : Page) (params : List String) :
    keysetCondition page params =
      ((keysetFragments page params).1.map Fragment.sql, (keysetFragments page params).2) := by
  unfold keysetCondition keysetFragments
  cases page.after? with
  | none => rfl
  | some cursor =>
    have hcreated : ∀ rest, rootAlias.name ++ (".\"created\", " ++ rest) =
        (rootColumn "created").sql ++ (", " ++ rest) := fun rest => by
      rw [← String.append_assoc, ← String.append_assoc, sql_rootColumn_created]
      rfl
    have hid : ∀ rest, rootAlias.name ++ (".\"id\") < (to_timestamp($" ++ rest) =
        (rootColumn "id").sql ++ (") < (to_timestamp($" ++ rest) := fun rest => by
      rw [← String.append_assoc, ← String.append_assoc, sql_rootColumn_id]
      rfl
    simp only [Cursor.predicate, hcreated, hid, List.map_cons, List.map_nil, Fragment.sql_append,
      Fragment.sql_text, String.append_assoc]

theorem sql_whereFragment (conditions : List Fragment) :
    (whereFragment conditions).sql = whereClause (conditions.map Fragment.sql) := by
  unfold whereFragment whereClause
  by_cases h : conditions = []
  · simp only [h, List.map_nil, ↓reduceIte, Fragment.sql_text]
  · simp only [h, List.map_eq_nil_iff, ↓reduceIte, Fragment.sql_join]

/-- **A listing with its columns marked** is the listing the code writes. -/
theorem buildList_eq (query : ReadQuery) (context : FilterContext) (auth : AuthContext) :
    (buildList query context auth).map BuiltQuery.sql =
      (listFragment query context auth).map Fragment.sql := by
  unfold buildList listFragment
  rw [filterCondition_eq]
  cases filterFragments query.filter context auth with
  | error e => rfl
  | ok filtered =>
    obtain ⟨filtered, params⟩ := filtered
    have hdocument := recordDocument_eq context (.bare rootAlias) query.selection query.expand
    unfold recordDocument at hdocument
    simp only [Except.map, Bind.bind, Except.bind, keysetCondition_eq] at hdocument ⊢
    cases hobject : objectExpression (maxExpandDepth + 1) context (.bare rootAlias) query.selection
        query.expand 0 with
    | error e =>
      cases hrecord : recordFragment context (.bare rootAlias) query.selection query.expand with
      | error e' =>
        rw [hobject, hrecord] at hdocument
        cases hdocument
        rfl
      | ok document =>
        rw [hobject, hrecord] at hdocument
        cases hdocument
    | ok document =>
      cases hrecord : recordFragment context (.bare rootAlias) query.selection query.expand with
      | error e' =>
        rw [hobject, hrecord] at hdocument
        cases hdocument
      | ok fragment =>
        rw [hobject, hrecord] at hdocument
        have hsql : document.1 = fragment.sql := Except.ok.inj hdocument
        cases SortSpec.compile query.sort context with
        | error e => rfl
        | ok orderBy =>
          have hkeyset : (if context.hasColumn "created" = true then "p.\"created\""
              else "null::timestamptz") = (if context.hasColumn "created" then rootColumn "created"
              else .text "null::timestamptz").sql := by
            split <;> simp only [sql_rootColumn_created, Fragment.sql_text]
          have hid : " as keyset_created, p.\"id\" as keyset_id from " =
              " as keyset_created, " ++ (rootColumn "id").sql ++ " as keyset_id from " := by
            decide
          simp only [hsql, hkeyset, hid, Fragment.sql_append, Fragment.sql_text,
            Fragment.sql_query, Source.text, sql_whereFragment, List.map_append,
            List.length_append, List.length_singleton, String.append_assoc]
          rfl

/-- **A count with its columns marked** is the count the code writes. -/
theorem buildCount_eq (filter : Option Expr) (context : FilterContext) (auth : AuthContext) :
    (buildCount filter context auth).map BuiltQuery.sql =
      (countFragment filter context auth).map Fragment.sql := by
  unfold buildCount countFragment
  rw [filterCondition_eq]
  cases filterFragments filter context auth with
  | error e => rfl
  | ok filtered =>
    simp only [Except.map, Bind.bind, Except.bind, Fragment.sql_append, Fragment.sql_text,
      Fragment.sql_query, Source.text, sql_whereFragment, String.append_assoc]
    rfl

section Built

variable {context : FilterContext} {auth : AuthContext} {built : BuiltQuery}

theorem listFragment_of_built {query : ReadQuery} (h : buildList query context auth = .ok built) :
    ∃ fragment, listFragment query context auth = .ok fragment ∧ fragment.sql = built.sql := by
  have heq := (buildList_eq query context auth).symm
  rw [h] at heq
  exact map_eq_ok.mp heq

theorem countFragment_of_built {filter : Option Expr}
    (h : buildCount filter context auth = .ok built) :
    ∃ fragment, countFragment filter context auth = .ok fragment ∧ fragment.sql = built.sql := by
  have heq := (buildCount_eq filter context auth).symm
  rw [h] at heq
  exact map_eq_ok.mp heq

end Built

end LazyPock
