import LazyPock.Query.Context
import LazyPock.Query.Filter

/-!
# Compiling filters to parameterized SQL

The filter compiler of `crates/db/src/query/compile.rs`. Every value becomes a bind parameter and
every field name is resolved against the whitelist of the context, so only identifiers of the
schema stand in the statement. The parameter list is threaded through the compiler as the code
threads its vector; the compiled expression is a tree whose text is the SQL.

## Main definitions

* `AuthContext`, `literalValue`, `pushParam`.
* `checkOperatorSupported`, `castFor`, `escapeLike`.
* `compileOperator`, `compileAt`, `compileValues`,
  `compileExpr`.
* `CompiledFilter`, `compileWithRoot`, `compile`.
-/

namespace LazyPock

open Text Sql

/-! ### Values -/

/-- Values substituted for `@request.auth.*` references. -/
structure AuthContext where
  /-- The authenticated record id. -/
  id : Option String
  email : Option String
  collectionId : Option String
  collectionName : Option String
  /-- Extra claims. -/
  claims : List (String × String)
deriving DecidableEq

/-- The value of a request reference; a missing one is the empty string. -/
def AuthContext.value (auth : AuthContext) : AuthRef → String
  | .id => auth.id.getD ""
  | .email => auth.email.getD ""
  | .collectionId => auth.collectionId.getD ""
  | .collectionName => auth.collectionName.getD ""
  | .claim name => (Assoc.lookup name auth.claims).getD ""

/-- The value for a bind parameter, as text. -/
def literalValue (operand : Operand) (auth : AuthContext) : Result String :=
  match operand with
  | .text value => .ok value
  | .number value => .ok value.display
  | .bool value => .ok (if value then "true" else "false")
  | .auth reference => .ok (auth.value reference)
  | .null =>
    .error (.internal "null reached the literal encoder; it should have been handled earlier")
  | .now =>
    .error (.internal "`@now` reached the literal encoder; it should have been handled earlier")

/-- Append a parameter and refer to it. Parameters are sent as text, so any other type is a second
cast. -/
def pushParam (value : String) (type : PgType) (params : List String) : Scalar × List String :=
  let params := params ++ [value]
  let placeholder := Scalar.cast (.param params.length) .text
  (if type = .text then placeholder else .cast placeholder type, params)

def castFor (columnType : String) : PgType :=
  match columnType with
  | "bigint" => .bigint
  | "double precision" => .doublePrecision
  | "boolean" => .boolean
  | "timestamptz" => .timestamptz
  | "jsonb" => .jsonb
  | "text[]" => .textArray
  | _ => .text

/-- Escape the `LIKE` metacharacters so a value is matched literally. -/
def escapeLike (value : String) : String :=
  String.ofList (value.toList.flatMap fun c =>
    if c = '\\' ∨ c = '%' ∨ c = '_' then ['\\', c] else [c])

/-! ### Operators -/

/-- Reject operator and type combinations that would be a runtime error. -/
def checkOperatorSupported (op : CompareOp) (columnType target : String) : Result Unit :=
  let isArray := columnType = "text[]"
  match op with
  | .any | .notAny =>
    failIf (¬ isArray) (.invalid ("`" ++ op.asStr ++ "` needs a multiple-value field, but " ++
      target ++ " is " ++ columnType))
  | .like | .notLike =>
    failIf (columnType ≠ "text") (.invalid ("`" ++ op.asStr ++ "` needs a text field, but " ++
      target ++ " is " ++ columnType))
  | .eq | .notEq =>
    failIf isArray (.invalid ("cannot compare " ++ target ++ " (" ++ columnType ++ ") with `" ++
      op.asStr ++ "`; use `?=` or `?!=`"))
  | .gt | .gte | .lt | .lte =>
    failIf (isArray ∨ columnType = "jsonb" ∨ columnType = "boolean")
      (.invalid ("`" ++ op.asStr ++ "` is not supported for " ++ target ++ " (" ++ columnType ++
        ")"))

/-- A comparison with `null`. -/
def compareNull (target : Scalar) (op : CompareOp) : Result Pred :=
  match op with
  | .eq => .ok (.isNull target)
  | .notEq => .ok (.isNotNull target)
  | other =>
    .error (.invalid ("`" ++ other.asStr ++ "` cannot be combined with null; use `=` or `!=`"))

/-- The SQL operator of an ordering or equality comparison; the others have their own forms. -/
def sqlOperator : CompareOp → CmpOp
  | .notEq => .ne
  | .gt => .gt
  | .gte => .ge
  | .lt => .lt
  | .lte => .le
  | _ => .eq

/-- `left op right`, or the two sides exchanged. -/
def comparePred (swapped : Bool) (left : Scalar) (op : CompareOp) (right : Scalar) : Pred :=
  if swapped then .compare right (sqlOperator op) left else .compare left (sqlOperator op) right

/-- The wildcards around a pattern, kept out of it. -/
def contains (pattern : Scalar) : Scalar := .concat (.concat (.lit "%") pattern) (.lit "%")

/-- Compile the comparison of a column with an operand. -/
def compileOperator (target : Scalar) (columnType : String) (op : CompareOp) (operand : Operand)
    (swapped : Bool) (auth : AuthContext) (params : List String) : Result (Pred × List String) :=
  if operand = .null then do
    let pred ← compareNull target op
    .ok (pred, params)
  else do
    checkOperatorSupported op columnType target.text
    match op with
    | .any | .notAny => do
      let value ← literalValue operand auth
      let (placeholder, params) := pushParam value .text params
      let pred := Pred.eqAny placeholder target
      .ok (if op = .any then pred else .not pred, params)
    | .like | .notLike => do
      let value ← literalValue operand auth
      let (placeholder, params) := pushParam (escapeLike value) .text params
      let negated : Bool := op ≠ .like
      .ok (if swapped then .ilike negated placeholder (contains target)
        else .ilike negated target (contains placeholder), params)
    | .eq | .notEq | .gt | .gte | .lt | .lte =>
      if operand = .now then
        if columnType ≠ "timestamptz" then
          .error (.invalid ("`@now` cannot be compared with " ++ target.text ++ " (" ++
            columnType ++ "); it is only valid for date fields"))
        else .ok (comparePred swapped target op .now, params)
      else do
        let value ← literalValue operand auth
        let (placeholder, params) := pushParam value (castFor columnType) params
        .ok (comparePred swapped target op placeholder, params)

/-- The SQL for one value side of a comparison. -/
def valueSql (operand : Operand) (type : PgType) (auth : AuthContext) (params : List String) :
    Result (Scalar × List String) :=
  if operand = .now then .ok (.now, params)
  else do
    let value ← literalValue operand auth
    .ok (pushParam value type params)

/-- The type two values are compared at. -/
def valuesCast (left right : Operand) : PgType :=
  let isNumber : Operand → Bool
    | .number _ => true
    | _ => false
  if left = .now ∨ right = .now then .timestamptz
  else if isNumber left ∨ isNumber right then .doublePrecision
  else .text

/-- Compile a comparison in which both sides are values. -/
def compileValues (left : Operand) (op : CompareOp) (right : Operand) (auth : AuthContext)
    (params : List String) : Result (Pred × List String) :=
  if left = .null ∨ right = .null then
    .error (.invalid ("a comparison with null needs a field on one side; there is nothing to test " ++
      "for `is null` here"))
  else match op with
    | .any | .notAny =>
      .error (.invalid ("`" ++ op.asStr ++
        "` needs a multiple-value field, and this comparison has none"))
    | .like | .notLike => do
      let (haystack, params) ← valueSql left .text auth params
      let needle ← literalValue right auth
      let (placeholder, params) := pushParam (escapeLike needle) .text params
      .ok (.ilike (op ≠ .like) haystack (contains placeholder), params)
    | .eq | .notEq | .gt | .gte | .lt | .lte => do
      let type := valuesCast left right
      let (leftSql, params) ← valueSql left type auth params
      let (rightSql, params) ← valueSql right type auth params
      .ok (.compare leftSql (sqlOperator op) rightSql, params)

/-! ### Paths -/

/-- The alias of the `n`-th relation hop. -/
def relationAlias (n : Nat) : Ident where
  name := "rt" ++ toString n
  valid := by
    have hlist : ("rt" ++ toString n).toList = 'r' :: 't' :: Nat.toDigits 10 n := by
      simp [Nat.toList_repr]
    have hdigits : (Nat.toDigits 10 n).all isIdentPart = true := by
      rw [List.all_eq_true]
      intro c hc
      simp [isIdentPart, isAsciiDigit_of_mem_toDigits hc]
    unfold isIdent
    rw [hlist]
    simp only [List.all_cons, hdigits]
    decide

/-- The condition that joins a relation's target to its parent. -/
def joinPred (parent : Ref) (row : Ident) (relation : RelationTarget FilterContext) : Pred :=
  let id := Scalar.column (some (.bare row)) "id"
  let reference := Scalar.column (some parent) relation.column
  if relation.multiple then .eqAny id reference else .compare id .eq reference

/-- Compile a comparison at the end of the relation hops, each one an `exists` subquery. -/
def compileAt (column : String) (op : CompareOp) (operand : Operand) (swapped : Bool)
    (auth : AuthContext) (params : List String) :
    List String → FilterContext → Ref → Nat → Result (Pred × List String)
  | [], context, parent, _ => do
    let columnType ← okOr (.invalid ("unknown field " ++ debug column ++ " in collection " ++
      debug context.table)) (Assoc.lookup column context.columns)
    compileOperator (.column (some parent) column) columnType op operand swapped auth params
  | hop :: hops, context, parent, aliasCounter => do
    let relation ← okOr (.invalid (debug hop ++ " is not a relation field of collection " ++
      debug context.table)) (Assoc.lookup hop context.relations)
    let row := relationAlias (aliasCounter + 1)
    let (inner, params) ←
      compileAt column op operand swapped auth params hops relation.context (.bare row)
        (aliasCounter + 1)
    .ok (.existsIn relation.table row (joinPred parent row relation) inner, params)

/-- Compile the comparison of a path with an operand. -/
def compilePath (path : List String) (op : CompareOp) (operand : Operand) (swapped : Bool)
    (context : FilterContext) (auth : AuthContext) (root : Ref) (params : List String) :
    Result (Pred × List String) :=
  if maxPathDepth < path.length then
    .error (.invalid ("filter path `" ++ join "." path ++ "` is deeper than the supported " ++
      toString maxPathDepth ++ " levels"))
  else match path.getLast? with
    -- The code panics here; no parsed path is empty.
    | none => .error (.internal "a comparison always has a path")
    | some column =>
      compileAt column op operand swapped auth params path.dropLast context root 0

/-- Compile one comparison, whichever side the field is on. -/
def compileComparison (left : Side) (op : CompareOp) (right : Side) (context : FilterContext)
    (auth : AuthContext) (root : Ref) (params : List String) : Result (Pred × List String) :=
  match left, right with
  | .path path, .value operand => compilePath path op operand false context auth root params
  | .value operand, .path path => compilePath path op operand true context auth root params
  | .value left, .value right => compileValues left op right auth params
  | .path left, .path right =>
    .error (.unsupported ("a filter cannot compare two fields (`" ++ join "." left ++ "` and `" ++
      join "." right ++ "`); compare a field with a value instead"))

def compileExpr (context : FilterContext) (auth : AuthContext) (root : Ref) :
    Expr → List String → Result (Pred × List String)
  | .and left right, params => do
    let (left, params) ← compileExpr context auth root left params
    let (right, params) ← compileExpr context auth root right params
    .ok (.and left right, params)
  | .or left right, params => do
    let (left, params) ← compileExpr context auth root left params
    let (right, params) ← compileExpr context auth root right params
    .ok (.or left right, params)
  | .compare left op right, params => compileComparison left op right context auth root params

/-- A filter compiled to SQL plus its bind parameters. -/
structure CompiledFilter where
  /-- The boolean expression. -/
  pred : Pred
  /-- Positional parameters, matching the placeholders. -/
  params : List String

/-- The SQL of a compiled filter. -/
def CompiledFilter.sql (filter : CompiledFilter) : String := filter.pred.text

/-- Compile a filter expression against an explicit root table reference. -/
def compileWithRoot (expr : Expr) (context : FilterContext) (auth : AuthContext) (root : Ref) :
    Result CompiledFilter := do
  let (pred, params) ← compileExpr context auth root expr []
  .ok ⟨pred, params⟩

/-- Compile a filter expression. -/
def compile (expr : Expr) (context : FilterContext) (auth : AuthContext) : Result CompiledFilter :=
  compileWithRoot expr context auth (.quoted context.table)

end LazyPock
