import LazyPock.Query.Context

/-!
# The sort parameter

`crates/db/src/query/sort.rs`: `-created,title` parsed to sort keys and compiled to an `order by`
body over the whitelisted columns.

## Main definitions

* `SortField`, `SortSpec.parse`, `SortSpec.defaultSpec`, `SortSpec.compile`.
-/

namespace LazyPock

open Text

/-- One sort key. -/
structure SortField where
  /-- Dotted field path. -/
  path : List String
  descending : Bool
deriving DecidableEq, Repr

namespace SortSpec

/-- `MAX_SORT_FIELDS` -/
def maxSortFields : Nat := 8

def validateSegment (path segment : String) : Result Unit :=
  match segment.toList with
  | [] => .error (.invalid ("malformed sort field " ++ debug path))
  | first :: rest =>
    if !(isAsciiAlphabetic first || first = '_') then
      .error (.invalid ("malformed sort field " ++ debug path ++ ": `" ++ segment ++
        "` must start with a letter"))
    else match rest.find? fun c => !(isAsciiAlphanumeric c || c = '_') with
      | some bad =>
        .error (.invalid ("malformed sort field " ++ debug path ++ ": unexpected " ++
          debugQuoted bad))
      | none => .ok ()

/-- The direction a key's sign asks for, and the path behind it. -/
def splitSign (raw : String) : Bool × String :=
  match raw.toList with
  | '-' :: rest => (true, String.ofList rest)
  | '+' :: rest => (false, String.ofList rest)
  | _ => (false, raw)

/-- The keys of the pieces between commas; `index` counts them. -/
def parseKeys : (index : Nat) → List String → Result (List SortField)
  | _, [] => .ok []
  | index, raw :: pieces => do
    let raw := trim raw
    if raw = "" then parseKeys (index + 1) pieces
    else do
      let (descending, path) := splitSign raw
      failIf (path = "") (.invalid ("sort key " ++ toString (index + 1) ++
        " is missing a field name"))
      let segments := splitOn '.' path
      segments.forM (validateSegment path)
      let fields ← parseKeys (index + 1) pieces
      .ok (⟨segments, descending⟩ :: fields)

/-- Parse a `sort` value. -/
def parse (input : String) : Result (List SortField) := do
  let fields ← parseKeys 0 (splitOn ',' input)
  failIf (fields = []) (.invalid "sort must name at least one field")
  failIf (maxSortFields < fields.length)
    (.invalid ("too many sort fields: " ++ toString fields.length ++ " (maximum " ++
      toString maxSortFields ++ ")"))
  .ok fields

/-- The default ordering. -/
def defaultSpec : Result (List SortField) := parse "-created"

/-- The column and direction of a sort key. -/
def compileKey (context : FilterContext) (field : SortField) : Result (String × Bool) :=
  match field.path with
  | [column] =>
    if context.hasColumn column then .ok (column, field.descending)
    else .error (.invalid ("unknown sort field " ++ debug column ++ " in collection " ++
      debug context.table))
  | path =>
    .error (.unsupported ("sorting by `" ++ join "." path ++
      "` is not supported yet: sorting through a relation needs a join"))

/-- The columns and directions of a sort specification. -/
def compileKeys (context : FilterContext) (fields : List SortField) :
    Result (List (String × Bool)) := fields.mapM (compileKey context)

/-- One key of an `order by` body. -/
def keySql (key : String × Bool) : String :=
  Sql.quoteIdent key.1 ++ " " ++ if key.2 then "desc" else "asc"

/-- Compile a sort specification into an `order by` body. -/
def compile (fields : List SortField) (context : FilterContext) : Result String := do
  failIf (fields = []) (.internal "sort specification has no fields")
  let keys ← compileKeys context fields
  .ok (join ", " (keys.map keySql))

end SortSpec

end LazyPock
