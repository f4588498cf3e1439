import LazyPock.Core.Assoc
import LazyPock.Sql.Numerals

/-!
# Columns and the rows they are read from

A piece of a statement as its text, with the qualified columns and the subqueries marked in it. A
column is marked with the nesting level of the row it was written for; Postgres reads it from the
nearest row in scope under the qualifier's name. The two differ where an inner row takes the name
of an outer one.

## Main definitions

* `Sql.Ref.key`: the name a qualifier is looked up by.
* `Sql.Source`, `Sql.Bindings`.
* `Sql.Fragment`, with `sql` and `references`.
* `Sql.Reference.row?`, `Sql.Reference.Resolves`, `Sql.Reference.Reads`.
* `Sql.Scalar.marked`, `Sql.Pred.marked`.

## Main results

* `Sql.Pred.sql_marked`: marking an expression leaves its text.
-/

namespace LazyPock.Sql

/-! ### Scopes -/

/-- Postgres folds a name without quotes to lower case. -/
def foldCase (name : String) : String := String.ofList (name.toList.map asciiLower)

/-- The name a qualifier is looked up by. -/
def Ref.key : Ref → String
  | quoted name => name
  | bare ident => foldCase ident.name

/-- A table in a `from` clause, with its alias. -/
structure Source where
  table : String
  row : Option Ident

/-- The name the rows of a table are in scope under. -/
def Source.key (source : Source) : String :=
  match source.row with
  | some row => foldCase row.name
  | none => source.table

def Source.text (source : Source) : String :=
  match source.row with
  | some row => quoteIdent source.table ++ " " ++ row.name
  | none => quoteIdent source.table

/-- A row in scope: how many queries it stands inside of, and the table it is of. -/
structure RowVar where
  level : Nat
  table : String
deriving DecidableEq

/-- The rows in scope under their names, the innermost first. -/
abbrev Bindings := List (String × RowVar)

/-- The scope inside a query over one table. -/
def Bindings.enter (scope : Bindings) (source : Source) : Bindings :=
  (source.key, ⟨scope.length, source.table⟩) :: scope

@[simp] theorem Bindings.length_enter (scope : Bindings) (source : Source) :
    (scope.enter source).length = scope.length + 1 := rfl

@[simp] theorem Bindings.lookup_enter_self (scope : Bindings) (source : Source) :
    Assoc.lookup source.key (scope.enter source) = some ⟨scope.length, source.table⟩ := by
  simp only [enter, Assoc.lookup, ↓reduceIte]

/-- A row under another name is still in scope. -/
theorem Bindings.lookup_enter_of_ne {key : String} {scope : Bindings} {source : Source}
    (h : source.key ≠ key) :
    Assoc.lookup key (scope.enter source) = Assoc.lookup key scope := by
  simp only [enter, Assoc.lookup, h, ↓reduceIte]

/-! ### Fragments -/

/-- A piece of a statement. -/
inductive Fragment where
  /-- Text without qualified columns. -/
  | text (value : String)
  /-- A qualified column, written for the row `level` queries deep. -/
  | column (row : Ref) (name : String) (level : Nat)
  | append (left right : Fragment)
  /-- The select list of a query over one table, and what follows the table: the row is in scope in
  both. -/
  | query (source : Source) (select rest : Fragment)

namespace Fragment

instance : Append Fragment := ⟨append⟩

/-- The text of a statement. -/
def sql : Fragment → String
  | text value => value
  | column row name _ => row.text ++ "." ++ quoteIdent name
  | append left right => left.sql ++ right.sql
  | query source select rest => select.sql ++ source.text ++ rest.sql

/-- The fragments one after the other, `separator` between them. -/
def join (separator : String) : List Fragment → Fragment
  | [] => text ""
  | [fragment] => fragment
  | fragment :: rest => fragment ++ (text separator ++ join separator rest)

@[simp] theorem sql_text (value : String) : (text value).sql = value := rfl

@[simp] theorem sql_column (row : Ref) (name : String) (level : Nat) :
    (column row name level).sql = row.text ++ "." ++ quoteIdent name := rfl

@[simp] theorem sql_append (left right : Fragment) :
    (left ++ right).sql = left.sql ++ right.sql := rfl

@[simp] theorem sql_query (source : Source) (select rest : Fragment) :
    (query source select rest).sql = select.sql ++ source.text ++ rest.sql := rfl

theorem sql_join (separator : String) (fragments : List Fragment) :
    (join separator fragments).sql = Text.join separator (fragments.map sql) := by
  fun_induction join separator fragments with
  | case1 => rfl
  | case2 fragment => rfl
  | case3 fragment rest hrest ih =>
    obtain ⟨next, rest, rfl⟩ := List.exists_cons_of_ne_nil hrest
    simp only [sql_append, sql_text, ih, List.map_cons, Text.join, String.append_assoc]

end Fragment

/-! ### References -/

/-- A qualified column where it stands. -/
structure Reference where
  scope : Bindings
  qualifier : Ref
  column : String
  /-- The level of the row it was written for. -/
  level : Nat

namespace Reference

/-- The row Postgres reads the column from: the nearest one under the qualifier's name. -/
def row? (reference : Reference) : Option RowVar :=
  Assoc.lookup reference.qualifier.key reference.scope

/-- The column is read from the row it was written for. -/
def Resolves (reference : Reference) : Prop :=
  reference.row?.map RowVar.level = some reference.level

instance : DecidablePred Resolves := fun reference =>
  inferInstanceAs (Decidable (reference.row?.map RowVar.level = some reference.level))

/-- What holds of the column in the table it is read from. -/
def Reads (H : String → String → Prop) (reference : Reference) : Prop :=
  ∃ row, reference.row? = some row ∧ H row.table reference.column

theorem reads_iff_of_lookup {H : String → String → Prop} {scope : Bindings} {qualifier : Ref}
    {column : String} {level : Nat} {row : RowVar}
    (h : Assoc.lookup qualifier.key scope = some row) :
    Reads H ⟨scope, qualifier, column, level⟩ ↔ H row.table column := by
  simp only [Reads, row?, h, Option.some_inj, exists_eq_left']

/-- A column resolves where the row of its name is at its level. -/
theorem resolves_iff_of_lookup {scope : Bindings} {qualifier : Ref} {column : String} {level : Nat}
    {row : RowVar} (h : Assoc.lookup qualifier.key scope = some row) :
    Resolves ⟨scope, qualifier, column, level⟩ ↔ row.level = level := by
  simp only [Resolves, row?, h, Option.map_some, Option.some_inj]

end Reference

/-- The qualified columns of a fragment that stands in a scope. -/
def Fragment.references (scope : Bindings) : Fragment → List Reference
  | text _ => []
  | column row name level => [⟨scope, row, name, level⟩]
  | append left right => left.references scope ++ right.references scope
  | query source select rest =>
    select.references (scope.enter source) ++ rest.references (scope.enter source)

namespace Fragment

@[simp] theorem references_text (scope : Bindings) (value : String) :
    (text value).references scope = [] := rfl

@[simp] theorem references_column (scope : Bindings) (row : Ref) (name : String) (level : Nat) :
    (column row name level).references scope = [⟨scope, row, name, level⟩] := rfl

@[simp] theorem references_append (scope : Bindings) (left right : Fragment) :
    (left ++ right).references scope = left.references scope ++ right.references scope := rfl

@[simp] theorem references_query (scope : Bindings) (source : Source) (select rest : Fragment) :
    (query source select rest).references scope =
      select.references (scope.enter source) ++ rest.references (scope.enter source) := rfl

/-- The columns of joined fragments are the columns of each. -/
theorem mem_references_join {scope : Bindings} {separator : String} {fragments : List Fragment}
    {r : Reference} :
    r ∈ (join separator fragments).references scope ↔
      ∃ fragment ∈ fragments, r ∈ fragment.references scope := by
  fun_induction join separator fragments with
  | case1 => simp only [references_text, List.not_mem_nil, false_and, exists_false]
  | case2 fragment => simp only [List.mem_singleton, exists_eq_left]
  | case3 fragment rest hrest ih =>
    simp only [references_append, references_text, List.mem_append, List.not_mem_nil, false_or,
      ih, List.mem_cons, exists_eq_or_imp]

end Fragment

/-! ### Expressions -/

/-- A scalar expression, its columns written for the row at `level`. -/
@[grind =]
def Scalar.marked (level : Nat) : Scalar → Fragment
  | column (some row) name => .column row name level
  | callWith schema name argument =>
    .text (schema.name ++ "." ++ name.name ++ "(") ++ (argument.marked level ++ .text ")")
  | cast inner type => inner.marked level ++ .text ("::" ++ type.sql)
  | concat left right => left.marked level ++ (.text " || " ++ right.marked level)
  | other => .text other.text

/-- A boolean expression, the left sides of its comparisons written for the row at `left` and the
right sides for the row at `right`: the condition that joins a subquery compares a column of its
own row with one of the row outside. -/
@[grind =]
def Pred.marked (left right : Nat) : Pred → Fragment
  | true => .text "true"
  | isNull value => value.marked left ++ .text " is null"
  | isNotNull value => value.marked left ++ .text " is not null"
  | compare a op b => a.marked left ++ (.text (" " ++ op.sql ++ " ") ++ b.marked right)
  | ilike negated a pattern =>
    a.marked left ++ (.text (if negated then " not ilike " else " ilike ") ++
      (pattern.marked right ++ .text " escape '\\'"))
  | eqAny a array => a.marked left ++ (.text " = any(" ++ (array.marked right ++ .text ")"))
  | not inner => .text "not (" ++ (inner.marked left right ++ .text ")")
  | and a b => .text "(" ++ (a.marked left right ++ (.text " and " ++
      (b.marked left right ++ .text ")")))
  | or a b => .text "(" ++ (a.marked left right ++ (.text " or " ++
      (b.marked left right ++ .text ")")))
  | guarded guard inner => guard.marked left right ++ (.text " and (" ++
      (inner.marked left right ++ .text ")"))
  | existsIn table row join inner =>
    .text "exists (" ++ (.query ⟨table, row⟩ (.text "select 1 from ") (.text " where " ++
      (join.marked (right + 1) right ++ (.text " and " ++
        inner.marked (right + 1) (right + 1)))) ++ .text ")")

theorem Scalar.sql_marked (level : Nat) (value : Scalar) : (value.marked level).sql = value.text := by
  induction value with
  | column row name => cases row <;> rfl
  | callWith schema name argument ih =>
    simp only [marked, Fragment.sql_append, Fragment.sql_text, ih, text_callWith,
      String.append_assoc]
  | cast inner type ih =>
    simp only [marked, Fragment.sql_append, Fragment.sql_text, ih, text_cast, String.append_assoc]
  | concat left right ihl ihr =>
    simp only [marked, Fragment.sql_append, Fragment.sql_text, ihl, ihr, text_concat,
      String.append_assoc]
  | _ => rfl

/-- **Marking an expression leaves its text.** -/
theorem Pred.sql_marked (left right : Nat) (pred : Pred) :
    (pred.marked left right).sql = pred.text := by
  induction pred generalizing left right with
  | true => rfl
  | existsIn table row join inner ihj ihi =>
    simp only [marked, Fragment.sql_append, Fragment.sql_query, Fragment.sql_text, Source.text,
      ihj, ihi, text_existsIn, ← String.append_assoc]
    rfl
  | not inner ih =>
    simp only [marked, Fragment.sql_append, Fragment.sql_text, ih, text_not, String.append_assoc]
  | and a b iha ihb | or a b iha ihb | guarded a b iha ihb =>
    simp only [marked, Fragment.sql_append, Fragment.sql_text, iha, ihb, text_and, text_or,
      text_guarded, String.append_assoc]
  | _ =>
    simp only [marked, Fragment.sql_append, Fragment.sql_text, Scalar.sql_marked, text_isNull,
      text_isNotNull, text_compare, text_ilike, text_eqAny, String.append_assoc]

end LazyPock.Sql
