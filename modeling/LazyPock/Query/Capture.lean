import LazyPock.Query.References

/-!
# Names captured in generated statements

Where a column of a generated subquery is read from another row than the one it was written for.
The aliases of a statement are numbered and never repeat on the way into a subquery, so only the
root can be hidden; it is where the root is a collection's own table and the collection is called
like an alias. An expanded relation reads its parent's column beside its own row, and only the
relations of the first level read the root's.

## Main results

* `resolves_objectFragment_iff`: the documents whose columns are all read as written.
* `resolves_compileAt_iff`: the comparisons of which the same holds.
* `names_resolve_iff`: the statements over a collection's own table.
-/

namespace LazyPock

open Text Sql

section Resolution

variable {context : FilterContext} {level : ℕ} {row : Ref} {scope : Bindings} {table : String}

/-- **When the columns of a document are read as written**: no relation of its first level takes the
name of its row. -/
theorem resolves_objectFragment_iff {levels counter n : ℕ} {selection : FieldSelection}
    {expand : ExpandSpec} {document : Fragment}
    (h : objectFragment (levels + 1) level context row selection expand counter =
      .ok (document, n))
    (hrow : Assoc.lookup row.key scope = some ⟨level, table⟩) (hlength : scope.length = level + 1) :
    (∀ r ∈ document.references scope, r.Resolves) ↔
      EachExpanded levels context expand counter fun _ _ k => row.key ≠ "r" ++ toString k := by
  induction levels generalizing level context row selection expand counter document n scope table with
  | zero =>
    rw [forall_references_objectFragment h fun _ _ _ _ _ _ _ _ hbelow => by cases hbelow]
    exact and_iff_right fun _ _ => (Reference.resolves_iff_of_lookup hrow).mpr rfl
  | succ levels ih =>
    rw [forall_references_objectFragment h]
    · exact and_iff_right fun _ _ => (Reference.resolves_iff_of_lookup hrow).mpr rfl
    intro name relation k below next _ _ _ hbelow
    have hown : Assoc.lookup (Ref.bare (expandAlias k)).key
        (scope.enter ⟨relation.table, expandAlias k⟩) = some ⟨level + 1, relation.table⟩ := by
      rw [← hlength]
      exact Bindings.lookup_enter_self scope ⟨relation.table, expandAlias k⟩
    -- Below, the parent is the row just entered, and later aliases have higher numbers.
    have hdeeper : ∀ r ∈ below.references (scope.enter ⟨relation.table, expandAlias k⟩),
        r.Resolves := by
      refine (ih hbelow hown (by rw [Bindings.length_enter, hlength])).mpr ?_
      intro before name' after _ relation' _
      rw [key_expandAlias, ne_eq, append_toString_inj]
      omega
    rw [forall_references_expandFragment, Reference.resolves_iff_of_lookup hown,
      Reference.resolves_iff_of_lookup hown]
    constructor
    · rintro ⟨-, -, hparent, -⟩ hname
      have hhidden : Assoc.lookup row.key (scope.enter ⟨relation.table, expandAlias k⟩) =
          some ⟨level + 1, relation.table⟩ := by rw [hname, ← key_expandAlias, hown]
      rw [Reference.resolves_iff_of_lookup hhidden] at hparent
      exact absurd hparent (Nat.succ_ne_self level)
    · intro hname
      refine ⟨hdeeper, rfl, ?_, fun _ => rfl⟩
      have hseen : Assoc.lookup row.key (scope.enter ⟨relation.table, expandAlias k⟩) =
          some ⟨level, table⟩ := by
        rw [Bindings.lookup_enter_of_ne _, hrow]
        exact fun hkey => hname (hkey.symm.trans (key_expandAlias k))
      exact (Reference.resolves_iff_of_lookup hseen).mpr rfl

/-- **When the columns of a comparison are read as written**: its path has no hop, or its first one
does not take the name of the row. -/
theorem resolves_compileAt_iff {column : String} {op : CompareOp} {operand : Operand}
    {swapped : Bool} {auth : AuthContext} {params after : List String} {hops : List String}
    {pred : Pred}
    (h : compileAt column op operand swapped auth params hops context row level = .ok (pred, after))
    (hrow : Assoc.lookup row.key scope = some ⟨level, table⟩) (hlength : scope.length = level + 1) :
    (∀ r ∈ (pred.marked level level).references scope, r.Resolves) ↔
      (row.key = "rt" ++ toString (level + 1) → hops = []) := by
  induction hops generalizing level context row pred scope table with
  | nil =>
    rw [(compileAt_nil_eq_ok h).2, List.forall_mem_singleton, Reference.resolves_iff_of_lookup hrow]
    simp
  | cons hop hops ih =>
    obtain ⟨relation, inner, -, hinner, hall⟩ := compileAt_cons_eq_ok h
    have hown : Assoc.lookup (Ref.bare (relationAlias (level + 1))).key
        (scope.enter ⟨relation.table, relationAlias (level + 1)⟩) =
          some ⟨level + 1, relation.table⟩ := by
      rw [← hlength]
      exact Bindings.lookup_enter_self scope ⟨relation.table, relationAlias scope.length⟩
    have hdeeper : ∀ r ∈ (inner.marked (level + 1) (level + 1)).references
        (scope.enter ⟨relation.table, relationAlias (level + 1)⟩), r.Resolves := by
      refine (ih hinner hown (by rw [Bindings.length_enter, hlength])).mpr fun hkey => ?_
      rw [key_relationAlias, append_toString_inj] at hkey
      omega
    rw [hall]
    simp only [Reference.resolves_iff_of_lookup hown, true_and, reduceCtorEq, imp_false]
    constructor
    · rintro ⟨hparent, -⟩ hname
      have hhidden : Assoc.lookup row.key (scope.enter ⟨relation.table, relationAlias (level + 1)⟩)
          = some ⟨level + 1, relation.table⟩ := by rw [hname, ← key_relationAlias, hown]
      rw [Reference.resolves_iff_of_lookup hhidden] at hparent
      exact absurd hparent (Nat.succ_ne_self level)
    · intro hname
      refine ⟨?_, hdeeper⟩
      have hseen : Assoc.lookup row.key (scope.enter ⟨relation.table, relationAlias (level + 1)⟩) =
          some ⟨level, table⟩ := by
        rw [Bindings.lookup_enter_of_ne _, hrow]
        exact fun hkey => hname (hkey.symm.trans (key_relationAlias (level + 1)))
      exact (Reference.resolves_iff_of_lookup hseen).mpr rfl

end Resolution

/-! ### Statements over a collection's own table -/

/-- The scope of a filter compiled against the table itself. -/
def tableScope (table : String) : Bindings := Bindings.enter [] ⟨table, none⟩

/-- A comparison over the table itself. -/
theorem resolves_path_iff {context : FilterContext} {column : String} {op : CompareOp}
    {operand : Operand} {swapped : Bool} {auth : AuthContext} {params after hops : List String}
    {pred : Pred}
    (h : compileAt column op operand swapped auth params hops context (.quoted context.table) 0 =
      .ok (pred, after)) :
    (∀ r ∈ (pred.marked 0 0).references (tableScope context.table), r.Resolves) ↔
      (context.table = "rt1" → (hops ++ [column]).length ≤ 1) := by
  have hone : "rt" ++ toString (0 + 1) = "rt1" := by decide
  have hlength : (hops ++ [column]).length ≤ 1 ↔ hops = [] := by
    cases hops <;> simp
  unfold tableScope
  rw [resolves_compileAt_iff h (Bindings.lookup_enter_self [] ⟨context.table, none⟩) rfl, hlength, hone]
  rfl

/-- **When generated subqueries capture no name**: a document read from the collection's own table
resolves unless a relation of the first level gets the collection's name as its alias, and a filter
compiled against the table unless the table is called `rt1` and a path goes through a relation. -/
theorem names_resolve_iff (collection : Collection) (context : FilterContext) :
    (∀ selection expand sql, getOneSql collection context selection expand = .ok sql →
      ∃ fragment, getOneFragment collection context selection expand = .ok fragment ∧
        fragment.sql = sql ∧
        ((∀ r ∈ fragment.references [], r.Resolves) ↔
          EachExpanded maxExpandDepth context expand 0 fun _ _ k =>
            collection.name ≠ "r" ++ toString k)) ∧
    ∀ expr auth compiled, compile expr context auth = .ok compiled →
      (compiled.pred.marked 0 0).sql = compiled.sql ∧
      ((∀ r ∈ (compiled.pred.marked 0 0).references (tableScope context.table), r.Resolves) ↔
        (context.table = "rt1" → ∀ path ∈ expr.paths, path.length ≤ 1)) := by
  refine ⟨fun selection expand sql h => ?_, fun expr auth compiled h => ⟨Pred.sql_marked 0 0 _, ?_⟩⟩
  · obtain ⟨fragment, hfragment, hsql⟩ := getOneFragment_of_sql h
    obtain ⟨document, n, hobject, hall⟩ := forall_references_getOneFragment hfragment
    refine ⟨fragment, hfragment, hsql, ?_⟩
    rw [hall]
    exact resolves_objectFragment_iff hobject
      (Bindings.lookup_enter_self [] ⟨collection.name, none⟩) rfl
  · obtain ⟨⟨pred, after⟩, hpred, hcompiled⟩ := bind_eq_ok.mp h
    cases hcompiled
    have hiff := forall_references_compileExpr
      (P := fun segments => context.table = "rt1" → segments.length ≤ 1) hpred
      fun hat => resolves_path_iff hat
    rw [hiff]
    exact ⟨fun h htable path hpath => h path hpath htable,
      fun h path hpath htable => h htable path hpath⟩

/-! ### Collections called like an alias -/

/-- Authors, with a name. -/
def authors : Collection where
  id := "c1"
  name := "authors"
  collectionType := .base
  options := .object []
  rules := .object []
  fields := [⟨"f1", "c1", "name", .text, false, false, .object [], 0⟩]

/-- A collection of posts under some name, each post with its author. -/
def posts (name : String) : Collection where
  id := "c2"
  name := name
  collectionType := .base
  options := .object []
  rules := .object []
  fields := [⟨"f2", "c2", "author", .relation, false, false,
    .object [("collectionId", .string "c1")], 0⟩]

/-- `expand=author` -/
def authorExpanded : ExpandSpec := ⟨[("author", .none)], false⟩

/-- `author.name = "Ada"` -/
def byAda : Expr := .compare (.path ["author", "name"]) .eq (.value (.text "Ada"))

/-- The statement that reads one of the posts with its author. -/
def getOnePost (name : String) : Result Fragment := do
  let context ← FilterContext.forCollection (posts name) [authors, posts name]
  getOneFragment (posts name) context .all authorExpanded

/-- The filter over the posts, compiled against their table. -/
def filterPosts (name : String) : Result CompiledFilter := do
  let context ← FilterContext.forCollection (posts name) [authors, posts name]
  compile byAda context ⟨none, none, none, none, []⟩

/-- **A collection called `r1` is hidden by its first expanded relation**, and one called `rt1` by
the first hop of a filter's path. -/
theorem aliases_hide_root :
    ((posts "r1").validate = .ok () ∧
      ∃ fragment, getOnePost "r1" = .ok fragment ∧ ∃ r ∈ fragment.references [], ¬ r.Resolves) ∧
    ((posts "rt1").validate = .ok () ∧
      ∃ compiled, filterPosts "rt1" = .ok compiled ∧
        ∃ r ∈ (compiled.pred.marked 0 0).references (tableScope "rt1"), ¬ r.Resolves) :=
  ⟨⟨by decide, exists_ok_of_any (by decide)⟩,
    by decide, exists_ok_of_any (by decide)⟩

/-- In a collection called `posts` both are read as written. -/
theorem names_resolve_posts :
    (∃ fragment, getOnePost "posts" = .ok fragment ∧ ∀ r ∈ fragment.references [], r.Resolves) ∧
      ∃ compiled, filterPosts "posts" = .ok compiled ∧
        ∀ r ∈ (compiled.pred.marked 0 0).references (tableScope "posts"), r.Resolves := by
  obtain ⟨context, hcontext, hsql, hfilter, htable⟩ : ∃ context,
      FilterContext.forCollection (posts "posts") [authors, posts "posts"] = .ok context ∧
      isOk (getOneSql (posts "posts") context .all authorExpanded) = true ∧
      isOk (compile byAda context ⟨none, none, none, none, []⟩) = true ∧
      context.table = "posts" := by
    apply exists_ok_of_any
    decide
  obtain ⟨sql, hsql⟩ := isOk_iff.mp hsql
  obtain ⟨compiled, hcompiled⟩ := isOk_iff.mp hfilter
  obtain ⟨hone, hwhere⟩ := names_resolve_iff (posts "posts") context
  obtain ⟨fragment, hfragment, -, hresolves⟩ := hone _ _ _ hsql
  have hname : ∀ k : ℕ, (posts "posts").name ≠ "r" ++ toString k := fun k h =>
    absurd (congrArg (fun s => s.toList.head?) h) (by simp [posts])
  refine ⟨⟨fragment, ?_, hresolves.mpr fun _ _ _ _ _ _ => hname _⟩, compiled, ?_, ?_⟩
  · rw [getOnePost, hcontext]
    exact hfragment
  · rw [filterPosts, hcontext]
    exact hcompiled
  · rw [← htable]
    refine (hwhere _ _ _ hcompiled).2.mpr fun h => ?_
    exact absurd (htable.symm.trans h) (by decide)

end LazyPock
