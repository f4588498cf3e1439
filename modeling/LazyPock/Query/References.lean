import LazyPock.Query.Document

/-!
# What generated statements refer to

The qualified columns of a document, level by level, and those of a compiled filter, hop by hop.
The relations expanded at one level are numbered by a counter that the levels below them move too,
so the alias of a relation is found by counting the relations that are expanded before it.

## Main definitions

* `expansions`: how many relations an expansion goes through, at any depth.
* `EachExpanded`: a property of the relations expanded at one level, with their aliases.
* `Expr.paths`: the paths of a filter.

## Main results

* `objectFragment_eq_ok`: the references of one level of a document.
* `compileAt_cons_eq_ok`, `references_compileOperator`: those of a comparison.
-/

namespace LazyPock

open Text Sql List

/-- A result that is there, with a property that can be decided of it. -/
theorem exists_ok_of_any {α : Type} {x : Result α} {P : α → Prop} [DecidablePred P]
    (h : x.toOption.any (fun a => decide (P a)) = true) : ∃ a, x = .ok a ∧ P a := by
  cases x with
  | error e => cases h
  | ok a => exact ⟨a, rfl, of_decide_eq_true h⟩

/-! ### Aliases -/

theorem foldCase_of_digits {head : List Char} (hhead : head.map asciiLower = head) (n : ℕ) :
    foldCase (String.ofList head ++ toString n) = String.ofList head ++ toString n := by
  have hdigits : (Nat.toDigits 10 n).map asciiLower = Nat.toDigits 10 n :=
    (map_congr_left fun c hc =>
      asciiLower_of_isAsciiDigit (isAsciiDigit_of_mem_toDigits hc)).trans (map_id _)
  have hlist : (String.ofList head ++ toString n).toList = head ++ Nat.toDigits 10 n := by
    simp [Nat.toList_repr]
  rw [foldCase, hlist, map_append, hhead, hdigits, ← hlist, String.ofList_toList]

/-- The alias of an expanded relation is in scope under its own text. -/
@[simp] theorem key_expandAlias (n : ℕ) : (Ref.bare (expandAlias n)).key = "r" ++ toString n :=
  foldCase_of_digits (show ['r'].map asciiLower = ['r'] by decide) n

/-- The alias of a relation hop is in scope under its own text. -/
@[simp] theorem key_relationAlias (n : ℕ) :
    (Ref.bare (relationAlias n)).key = "rt" ++ toString n :=
  foldCase_of_digits (show ['r', 't'].map asciiLower = ['r', 't'] by decide) n

/-! ### Documents -/

/-- The relations expanded for some names, with `below` those of one target. -/
def expansionsOf (below : FilterContext → ExpandSpec → ℕ) (context : FilterContext)
    (expand : ExpandSpec) : List String → ℕ
  | [] => 0
  | name :: names =>
    ((Assoc.lookup name context.relations).map fun relation =>
      below relation.context (expand.child name) + 1).getD 0 +
      expansionsOf below context expand names

/-- The relations an expansion goes through, down `levels` levels. -/
def expansions : (levels : ℕ) → FilterContext → ExpandSpec → ℕ
  | 0, _, _ => 0
  | levels + 1, context, expand =>
    expansionsOf (expansions levels) context expand (expand.relationsToExpand context)

/-- A property of the relations that one level of an expansion goes through: of each name, its
relation and the number of its alias, when `counter` aliases are taken before. -/
def EachExpanded (levels : ℕ) (context : FilterContext) (expand : ExpandSpec) (counter : ℕ)
    (P : String → RelationTarget FilterContext → ℕ → Prop) : Prop :=
  ∀ before name after, expand.relationsToExpand context = before ++ name :: after →
    ∀ relation, Assoc.lookup name context.relations = some relation →
      P name relation (counter + expansionsOf (expansions levels) context expand before + 1)

/-- Two properties that agree wherever a third holds. -/
theorem EachExpanded.congr {levels : ℕ} {context : FilterContext} {expand : ExpandSpec}
    {counter : ℕ} {P Q R : String → RelationTarget FilterContext → ℕ → Prop}
    (hR : EachExpanded levels context expand counter R)
    (h : ∀ name relation n, counter < n → name ∈ expand.relationsToExpand context →
      Assoc.lookup name context.relations = some relation → R name relation n →
        (P name relation n ↔ Q name relation n)) :
    EachExpanded levels context expand counter P ↔ EachExpanded levels context expand counter Q := by
  have hmem : ∀ before name after, expand.relationsToExpand context = before ++ name :: after →
      name ∈ expand.relationsToExpand context := fun before name after hsplit => by
    rw [hsplit]
    exact mem_append_right before mem_cons_self
  constructor
  · intro hP before name after hsplit relation hrelation
    exact (h name relation _ (by omega) (hmem before name after hsplit) hrelation
      (hR before name after hsplit relation hrelation)).mp
      (hP before name after hsplit relation hrelation)
  · intro hQ before name after hsplit relation hrelation
    exact (h name relation _ (by omega) (hmem before name after hsplit) hrelation
      (hR before name after hsplit relation hrelation)).mpr
      (hQ before name after hsplit relation hrelation)

section Fragments

variable {context : FilterContext} {parent : Ref} {level : ℕ} {selection : FieldSelection}
  {expand : ExpandSpec} {counter n : ℕ} {Q : Reference → Prop} {scope : Bindings}

variable {document : Fragment}

/-- **The references of an expanded relation**: those of its document, and the columns it is joined
and ordered by. -/
theorem forall_references_expandFragment {relation : RelationTarget FilterContext} {row : Ident} :
    (∀ r ∈ (expandFragment relation parent level row document).references scope, Q r) ↔
      (∀ r ∈ document.references (scope.enter ⟨relation.table, row⟩), Q r) ∧
      Q ⟨scope.enter ⟨relation.table, row⟩, .bare row, "id", level + 1⟩ ∧
      Q ⟨scope.enter ⟨relation.table, row⟩, parent, relation.column, level⟩ ∧
      (relation.multiple = true →
        Q ⟨scope.enter ⟨relation.table, row⟩, .bare row, "created", level + 1⟩) := by
  unfold expandFragment
  by_cases hmultiple : relation.multiple = true
  · simp only [hmultiple, ↓reduceIte, Fragment.references_append, Fragment.references_text,
      Fragment.references_query, Fragment.references_column, mem_append, not_mem_nil,
      mem_singleton, false_or, or_false, or_imp, forall_and, forall_eq, forall_const]
    tauto
  · simp only [hmultiple, Bool.false_eq_true, ↓reduceIte, Fragment.references_append,
      Fragment.references_text, Fragment.references_query, Fragment.references_column,
      mem_append, not_mem_nil, mem_singleton, false_or, or_false, or_imp,
      forall_and, forall_eq, false_imp_iff, and_true]

/-- One expanded relation, and the others after it. -/
theorem expandFragments_cons_eq_ok {child : FragmentBuilder} {name : String} {names : List String}
    {pairs : List Fragment}
    (h : expandFragments child context parent level selection expand (name :: names) counter =
      .ok (pairs, n)) :
    ∃ relation document next rest, Assoc.lookup name context.relations = some relation ∧
      child relation.context (.bare (expandAlias (counter + 1))) (selection.child name)
        (expand.child name) (counter + 1) = .ok (document, next) ∧
      expandFragments child context parent level selection expand names next = .ok (rest, n) ∧
      pairs = (.text (stringConstant name ++ ", ") ++
        expandFragment relation parent level (expandAlias (counter + 1)) document) :: rest := by
  obtain ⟨relation, hrelation, h⟩ := bind_eq_ok.mp h
  obtain ⟨⟨document, next⟩, hdocument, h⟩ := bind_eq_ok.mp h
  obtain ⟨⟨rest, last⟩, hrest, h⟩ := bind_eq_ok.mp h
  cases h
  exact ⟨relation, document, next, rest, okOr_eq_ok.mp hrelation, hdocument, hrest, rfl⟩

variable {child : FragmentBuilder} {below : FilterContext → ExpandSpec → ℕ}

theorem counter_expandFragments {names : List String} {pairs : List Fragment}
    (h : expandFragments child context parent level selection expand names counter =
      .ok (pairs, n))
    (hchild : ∀ {context row selection expand counter document n},
      child context row selection expand counter = .ok (document, n) →
        n = counter + below context expand) :
    n = counter + expansionsOf below context expand names := by
  induction names generalizing counter pairs with
  | nil =>
    cases h
    rfl
  | cons name names ih =>
    obtain ⟨relation, document, next, rest, hrelation, hdocument, hrest, -⟩ :=
      expandFragments_cons_eq_ok h
    have hnext := hchild hdocument
    have hn := ih hrest
    simp only [expansionsOf, hrelation, Option.map_some, Option.getD_some]
    omega

/-- **The references of the expanded relations**: those of each, under the alias that follows the
aliases of the relations before it. -/
theorem forall_references_expandFragments {names : List String} {pairs : List Fragment}
    (h : expandFragments child context parent level selection expand names counter =
      .ok (pairs, n))
    (hchild : ∀ {context row selection expand counter document n},
      child context row selection expand counter = .ok (document, n) →
        n = counter + below context expand) :
    (∀ pair ∈ pairs, ∀ r ∈ pair.references scope, Q r) ↔
      ∀ before name after, names = before ++ name :: after →
        ∀ relation, Assoc.lookup name context.relations = some relation →
        ∃ document next, child relation.context
            (.bare (expandAlias (counter + expansionsOf below context expand before + 1)))
            (selection.child name) (expand.child name)
            (counter + expansionsOf below context expand before + 1) = .ok (document, next) ∧
          ∀ r ∈ (expandFragment relation parent level
            (expandAlias (counter + expansionsOf below context expand before + 1))
            document).references scope, Q r := by
  induction names generalizing counter pairs with
  | nil =>
    cases h
    simp only [not_mem_nil, false_imp_iff, implies_true, nil_eq, append_eq_nil_iff,
      reduceCtorEq, and_false]
  | cons first names ih =>
    obtain ⟨relation, document, next, rest, hrelation, hdocument, hrest, rfl⟩ :=
      expandFragments_cons_eq_ok h
    have hnext := hchild hdocument
    have hcount : ∀ before, counter + expansionsOf below context expand (first :: before) + 1 =
        next + expansionsOf below context expand before + 1 := fun before => by
      simp only [expansionsOf, hrelation, Option.map_some, Option.getD_some]
      omega
    rw [forall_mem_cons, ih hrest]
    constructor
    · rintro ⟨hfirst, hothers⟩ before name after hsplit target htarget
      cases before with
      | nil =>
        obtain ⟨rfl, -⟩ := List.cons.inj hsplit
        obtain rfl : relation = target := Option.some.inj (hrelation.symm.trans htarget)
        exact ⟨document, next, hdocument, hfirst⟩
      | cons other before =>
        obtain ⟨hother, hnames⟩ := List.cons.inj hsplit
        rw [← hother, hcount before]
        exact hothers before name after hnames target htarget
    · intro hall
      refine ⟨?_, fun before name after hsplit target htarget => ?_⟩
      · obtain ⟨document', next', hdocument', hfirst⟩ := hall [] first names rfl relation hrelation
        obtain ⟨rfl, -⟩ := Prod.mk.inj (Except.ok.inj (hdocument.symm.trans hdocument'))
        exact hfirst
      · have := hall (first :: before) name after (by rw [hsplit]; rfl) target htarget
        rwa [hcount before] at this

theorem references_columnFragments {columns : List String} {row : Ref} {fragments : List Fragment}
    (h : columns.mapM (columnFragment context row level) = .ok fragments) :
    (∀ column ∈ columns, context.hasColumn column = true) ∧
      ((∀ fragment ∈ fragments, ∀ r ∈ fragment.references scope, Q r) ↔
        ∀ column ∈ columns, Q ⟨scope, row, column, level⟩) := by
  induction columns generalizing fragments with
  | nil =>
    cases h
    simp
  | cons column columns ih =>
    rw [mapM_cons] at h
    obtain ⟨fragment, hfragment, h⟩ := bind_eq_ok.mp h
    obtain ⟨rest, hrest, h⟩ := bind_eq_ok.mp h
    cases h
    obtain ⟨u, hcolumn, hfragment⟩ := bind_eq_ok.mp hfragment
    cases hfragment
    obtain ⟨hcolumns, hiff⟩ := ih hrest
    refine ⟨forall_mem_cons.mpr ⟨not_not.mp (failIf_eq_ok.mp hcolumn), hcolumns⟩, ?_⟩
    rw [forall_mem_cons, forall_mem_cons, hiff]
    simp only [Fragment.references_append, Fragment.references_text, Fragment.references_column,
      nil_append, mem_singleton, forall_eq]

/-- The references of a document are those of its pairs. -/
theorem forall_references_documentFragmentOf {columns expanded : List Fragment}
    {constants : List String} :
    (∀ r ∈ (documentFragmentOf (columns ++ constants.map .text ++
      expandKeyFragment expanded)).references scope, Q r) ↔
      (∀ fragment ∈ columns, ∀ r ∈ fragment.references scope, Q r) ∧
      ∀ pair ∈ expanded, ∀ r ∈ pair.references scope, Q r := by
  have hpairs : ∀ pairs : List Fragment,
      (∀ r ∈ (documentFragmentOf pairs).references scope, Q r) ↔
        ∀ pair ∈ pairs, ∀ r ∈ pair.references scope, Q r := fun pairs => by
    unfold documentFragmentOf
    split
    next h => simp [h]
    next h =>
      simp only [Fragment.references_append, Fragment.references_text, nil_append,
        append_nil, Fragment.mem_references_join]
      exact ⟨fun h pair hpair r hr => h r ⟨pair, hpair, hr⟩,
        fun h r ⟨pair, hpair, hr⟩ => h pair hpair r hr⟩
  have hkey : (∀ pair ∈ expandKeyFragment expanded, ∀ r ∈ pair.references scope, Q r) ↔
      ∀ pair ∈ expanded, ∀ r ∈ pair.references scope, Q r := by
    unfold expandKeyFragment
    split
    next h => simp [h]
    next h =>
      simp only [mem_singleton, forall_eq, Fragment.references_append,
        Fragment.references_text, nil_append, append_nil, Fragment.mem_references_join]
      exact ⟨fun h pair hpair r hr => h r ⟨pair, hpair, hr⟩,
        fun h r ⟨pair, hpair, hr⟩ => h pair hpair r hr⟩
  rw [hpairs, forall_mem_append, forall_mem_append, hkey]
  simp only [mem_map, forall_exists_index, and_imp, forall_apply_eq_imp_iff₂,
    Fragment.references_text, not_mem_nil, false_imp_iff, implies_true, and_true]

/-- How far a document moves the alias counter. -/
theorem counter_objectFragment {levels : ℕ} {row : Ref}
    (h : objectFragment levels level context row selection expand counter = .ok (document, n)) :
    n = counter + expansions levels context expand := by
  induction levels generalizing level context row selection expand counter document n with
  | zero => cases h
  | succ levels ih =>
    obtain ⟨columns, -, h⟩ := bind_eq_ok.mp h
    obtain ⟨⟨expanded, next⟩, hexpanded, h⟩ := bind_eq_ok.mp h
    cases h
    exact counter_expandFragments hexpanded ih

/-- **One level of a document**: its columns are columns of the collection, and its references are
these columns and those of each expanded relation. -/
theorem objectFragment_eq_ok {levels : ℕ} {row : Ref}
    (h : objectFragment (levels + 1) level context row selection expand counter =
      .ok (document, n)) :
    (∀ column ∈ selection.effectiveColumns context, context.hasColumn column = true) ∧
      ((∀ r ∈ document.references scope, Q r) ↔
        (∀ column ∈ selection.effectiveColumns context, Q ⟨scope, row, column, level⟩) ∧
        EachExpanded levels context expand counter fun name relation k =>
          ∃ below next, objectFragment levels (level + 1) relation.context
              (.bare (expandAlias k)) (selection.child name) (expand.child name) k =
                .ok (below, next) ∧
            ∀ r ∈ (expandFragment relation row level (expandAlias k) below).references scope,
              Q r) := by
  obtain ⟨columns, hcolumns, h⟩ := bind_eq_ok.mp h
  obtain ⟨⟨expanded, next⟩, hexpanded, h⟩ := bind_eq_ok.mp h
  cases h
  obtain ⟨hhas, hown⟩ := @references_columnFragments _ _ Q scope _ _ _ hcolumns
  refine ⟨hhas, ?_⟩
  rw [forall_references_documentFragmentOf, hown,
    forall_references_expandFragments hexpanded counter_objectFragment]
  rfl

theorem hasColumn_of_objectFragment {levels : ℕ} {row : Ref}
    (h : objectFragment (levels + 1) level context row selection expand counter =
      .ok (document, n)) :
    ∀ column ∈ selection.effectiveColumns context, context.hasColumn column = true :=
  (@objectFragment_eq_ok context level selection expand counter n (fun _ => True) [] document levels
    row h).1

/-- What the references of one level satisfy, relation by relation: `P` of a relation is what those
of its expansion do. -/
theorem forall_references_objectFragment {levels : ℕ} {row : Ref}
    {P : String → RelationTarget FilterContext → ℕ → Prop}
    (h : objectFragment (levels + 1) level context row selection expand counter =
      .ok (document, n))
    (hP : ∀ name relation k below next, counter < k →
      name ∈ expand.relationsToExpand context →
      Assoc.lookup name context.relations = some relation →
      objectFragment levels (level + 1) relation.context (.bare (expandAlias k))
        (selection.child name) (expand.child name) k = .ok (below, next) →
      ((∀ r ∈ (expandFragment relation row level (expandAlias k) below).references scope, Q r) ↔
        P name relation k)) :
    (∀ r ∈ document.references scope, Q r) ↔
      (∀ column ∈ selection.effectiveColumns context, Q ⟨scope, row, column, level⟩) ∧
      EachExpanded levels context expand counter P := by
  have hbuilt := (@objectFragment_eq_ok context level selection expand counter n (fun _ => True) scope
    document levels row h).2.mp fun _ _ => trivial
  rw [(objectFragment_eq_ok h).2]
  refine and_congr_right fun _ => EachExpanded.congr hbuilt.2 ?_
  rintro name relation k hk hname hrelation ⟨below, next, hbelow, -⟩
  rw [← hP name relation k below next hk hname hrelation hbelow]
  constructor
  · rintro ⟨below', next', hbelow', hall⟩
    obtain ⟨rfl, -⟩ := Prod.mk.inj (Except.ok.inj (hbelow.symm.trans hbelow'))
    exact hall
  · exact fun hall => ⟨below, next, hbelow, hall⟩

end Fragments

/-! ### Filters -/

/-- The path of a side, if it is one. -/
def Side.path? : Side → Option (List String)
  | .path segments => some segments
  | .value _ => none

/-- The paths of a filter, from the left. -/
@[grind =]
def Expr.paths : Expr → List (List String)
  | .and left right => left.paths ++ right.paths
  | .or left right => left.paths ++ right.paths
  | .compare left _ right => left.path?.toList ++ right.path?.toList

section Filters

variable {row : Ref} {column columnType : String} {op : CompareOp} {operand : Operand}
  {swapped : Bool} {auth : AuthContext} {params after : List String} {pred : Pred} {level : ℕ}
  {scope : Bindings} {Q : Reference → Prop}

theorem references_pushParam {value : String} {type : PgType} {placed : Scalar × List String}
    (h : pushParam value type params = placed) :
    (placed.1.marked level).references scope = [] := by
  rw [← h]
  unfold pushParam
  dsimp only
  split <;> rfl

theorem references_comparePred {left right : Scalar} {r : Reference}
    (hleft : (left.marked level).references scope = [r])
    (hright : (right.marked level).references scope = []) :
    ((comparePred swapped left op right).marked level level).references scope = [r] := by
  cases swapped <;>
    simp only [comparePred, Pred.marked, Fragment.references_append, Fragment.references_text,
      hleft, hright, Bool.false_eq_true, ↓reduceIte, append_nil, nil_append]

/-- **A comparison refers to its column alone.** -/
theorem references_compileOperator
    (h : compileOperator (.column (some row) column) columnType op operand swapped auth params =
      .ok (pred, after)) :
    (pred.marked level level).references scope = [⟨scope, row, column, level⟩] := by
  have hcolumn : ((Scalar.column (some row) column).marked level).references scope =
      [⟨scope, row, column, level⟩] := rfl
  unfold compileOperator at h
  split at h
  · obtain ⟨p, hp, h⟩ := bind_eq_ok.mp h
    cases h
    cases op <;> cases hp <;> rfl
  · obtain ⟨_, -, h⟩ := bind_eq_ok.mp h
    cases op with
    | any | notAny =>
      obtain ⟨value, -, h⟩ := bind_eq_ok.mp h
      generalize hplaced : pushParam value .text params = placed at h
      cases h
      simp only [reduceCtorEq, ↓reduceIte, Pred.marked, Fragment.references_append,
        Fragment.references_text, references_pushParam hplaced, hcolumn, append_nil,
        nil_append]
    | like | notLike =>
      obtain ⟨value, -, h⟩ := bind_eq_ok.mp h
      generalize hplaced : pushParam (escapeLike value) .text params = placed at h
      cases h
      cases swapped <;>
        simp only [Bool.false_eq_true, ↓reduceIte, Pred.marked, Fragment.references_append,
          Fragment.references_text, Fragment.references_column, references_pushParam hplaced,
          contains, Scalar.marked, append_nil, nil_append]
    | eq | notEq | gt | gte | lt | lte =>
      dsimp only at h
      split at h
      · split at h
        · cases h
        · cases h
          exact references_comparePred hcolumn rfl
      · obtain ⟨value, -, h⟩ := bind_eq_ok.mp h
        generalize hplaced : pushParam value (castFor columnType) params = placed at h
        cases h
        exact references_comparePred hcolumn (references_pushParam hplaced)

theorem references_valueSql {type : PgType} {value : Scalar}
    (h : valueSql operand type auth params = .ok (value, after)) :
    (value.marked level).references scope = [] := by
  unfold valueSql at h
  split at h
  · cases h
    rfl
  · obtain ⟨text, -, h⟩ := bind_eq_ok.mp h
    exact references_pushParam (Except.ok.inj h)

/-- A comparison of two values refers to nothing. -/
theorem references_compileValues {left right : Operand}
    (h : compileValues left op right auth params = .ok (pred, after)) :
    (pred.marked level level).references scope = [] := by
  unfold compileValues at h
  split at h
  · cases h
  · cases op with
    | any | notAny => cases h
    | like | notLike =>
      obtain ⟨⟨haystack, next⟩, hhaystack, h⟩ := bind_eq_ok.mp h
      obtain ⟨needle, -, h⟩ := bind_eq_ok.mp h
      generalize hplaced : pushParam (escapeLike needle) .text next = placed at h
      cases h
      simp only [Pred.marked, Fragment.references_append, Fragment.references_text,
        references_valueSql hhaystack, references_pushParam hplaced, contains, Scalar.marked,
        append_nil]
    | eq | notEq | gt | gte | lt | lte =>
      obtain ⟨⟨leftSql, next⟩, hleft, h⟩ := bind_eq_ok.mp h
      obtain ⟨⟨rightSql, last⟩, hright, h⟩ := bind_eq_ok.mp h
      cases h
      simp only [Pred.marked, Fragment.references_append, Fragment.references_text,
        references_valueSql hleft, references_valueSql hright, append_nil]

/-- The end of a path: a column of the collection it ends in. -/
theorem compileAt_nil_eq_ok {context : FilterContext} {counter : ℕ}
    (h : compileAt column op operand swapped auth params [] context row counter =
      .ok (pred, after)) :
    context.hasColumn column = true ∧
      (pred.marked level level).references scope = [⟨scope, row, column, level⟩] := by
  obtain ⟨columnType, hcolumn, h⟩ := bind_eq_ok.mp h
  refine ⟨?_, references_compileOperator h⟩
  rw [FilterContext.hasColumn, okOr_eq_ok.mp hcolumn]
  rfl

/-- **One relation hop of a path**: the columns it is joined by, and the references of the rest. -/
theorem compileAt_cons_eq_ok {context : FilterContext} {hop : String} {hops : List String}
    (h : compileAt column op operand swapped auth params (hop :: hops) context row level =
      .ok (pred, after)) :
    ∃ relation inner, Assoc.lookup hop context.relations = some relation ∧
      compileAt column op operand swapped auth params hops relation.context
        (.bare (relationAlias (level + 1))) (level + 1) = .ok (inner, after) ∧
      ((∀ r ∈ (pred.marked level level).references scope, Q r) ↔
        let below := scope.enter ⟨relation.table, relationAlias (level + 1)⟩
        Q ⟨below, .bare (relationAlias (level + 1)), "id", level + 1⟩ ∧
        Q ⟨below, row, relation.column, level⟩ ∧
        ∀ r ∈ (inner.marked (level + 1) (level + 1)).references below, Q r) := by
  obtain ⟨relation, hrelation, h⟩ := bind_eq_ok.mp h
  obtain ⟨⟨inner, last⟩, hinner, h⟩ := bind_eq_ok.mp h
  cases h
  refine ⟨relation, inner, okOr_eq_ok.mp hrelation, hinner, ?_⟩
  unfold joinPred
  by_cases hmultiple : relation.multiple = true <;>
    simp only [hmultiple, Bool.false_eq_true, ↓reduceIte, Pred.marked, Scalar.marked,
      Fragment.references_append, Fragment.references_text, Fragment.references_query,
      Fragment.references_column, append_nil, nil_append, cons_append,
      forall_mem_cons]

/-- The references of a filter are those of its comparisons: `P` of each path is what its
references satisfy. -/
theorem forall_references_compileExpr {context : FilterContext} {P : List String → Prop}
    {expr : Expr}
    (h : compileExpr context auth row expr params = .ok (pred, after))
    (hpath : ∀ {hops column op operand swapped params pred after},
      compileAt column op operand swapped auth params hops context row 0 = .ok (pred, after) →
        ((∀ r ∈ (pred.marked 0 0).references scope, Q r) ↔ P (hops ++ [column]))) :
    (∀ r ∈ (pred.marked 0 0).references scope, Q r) ↔ ∀ path ∈ expr.paths, P path := by
  have hcompare : ∀ {path op operand swapped params pred after},
      compilePath path op operand swapped context auth row params = .ok (pred, after) →
        ((∀ r ∈ (pred.marked 0 0).references scope, Q r) ↔ P path) := fun {path} _ _ _ _ _ _ h => by
    unfold compilePath at h
    split at h
    · cases h
    · split at h
      · cases h
      next column hlast =>
        rw [hpath h, dropLast_append_getLast? column hlast]
  induction expr generalizing params pred after with
  | and left right ihl ihr | or left right ihl ihr =>
    obtain ⟨⟨leftPred, middle⟩, hleft, h⟩ := bind_eq_ok.mp h
    obtain ⟨⟨rightPred, last⟩, hright, h⟩ := bind_eq_ok.mp h
    cases h
    simp only [Pred.marked, Fragment.references_append, Fragment.references_text, nil_append,
      append_nil, forall_mem_append, ihl hleft, ihr hright, Expr.paths]
  | compare left op right =>
    cases left with
    | path path =>
      cases right with
      | path other => cases h
      | value operand => simpa [Expr.paths, Side.path?] using hcompare h
    | value operand =>
      cases right with
      | path path => simpa [Expr.paths, Side.path?] using hcompare h
      | value other =>
        have hnone : (pred.marked 0 0).references scope = [] := references_compileValues h
        simp [Expr.paths, Side.path?, hnone]

end Filters

/-! ### Statements -/

section Statements

variable {context : FilterContext} {auth : AuthContext} {Q : Reference → Prop} {scope : Bindings}

/-- The scope of a listing: the collection's rows as `p`. -/
def listScope (scope : Bindings) (context : FilterContext) : Bindings :=
  scope.enter ⟨context.table, rootAlias⟩

@[simp] theorem key_rootAlias : (Ref.bare rootAlias).key = "p" := by decide

theorem lookup_listScope :
    Assoc.lookup "p" (listScope scope context) = some ⟨scope.length, context.table⟩ := by
  rw [← key_rootAlias]
  exact Bindings.lookup_enter_self scope ⟨context.table, rootAlias⟩

theorem forall_references_whereFragment {conditions : List Fragment} :
    (∀ r ∈ (whereFragment conditions).references scope, Q r) ↔
      ∀ condition ∈ conditions, ∀ r ∈ condition.references scope, Q r := by
  unfold whereFragment
  split
  next h => simp [h]
  next h =>
    simp only [Fragment.mem_references_join]
    exact ⟨fun h c hc r hr => h r ⟨c, hc, hr⟩, fun h r ⟨c, hc, hr⟩ => h c hc r hr⟩

theorem forall_references_keysetFragments {page : Page} {params : List String} :
    (∀ condition ∈ (keysetFragments page params).1, ∀ r ∈ condition.references scope, Q r) ↔
      (page.after? ≠ none → Q ⟨scope, .bare rootAlias, "created", 0⟩ ∧
        Q ⟨scope, .bare rootAlias, "id", 0⟩) := by
  unfold keysetFragments
  cases page.after? with
  | none => simp
  | some cursor =>
    simp only [mem_singleton, forall_eq, rootColumn, Fragment.references_append,
      Fragment.references_text, Fragment.references_column, nil_append, append_nil,
      cons_append, forall_mem_cons, ne_eq, reduceCtorEq, not_false_eq_true, forall_const]

/-- **The references of a listing**: those of its document, of its filter, and the columns of its
cursor. -/
theorem forall_references_listFragment {query : ReadQuery} {fragment : Fragment}
    (h : listFragment query context auth = .ok fragment) :
    ∃ document n filtered params,
      objectFragment (maxExpandDepth + 1) 0 context (.bare rootAlias) query.selection query.expand
        0 = .ok (document, n) ∧
      filterFragments query.filter context auth = .ok (filtered, params) ∧
      ((∀ r ∈ fragment.references scope, Q r) ↔
        (∀ r ∈ document.references (listScope scope context), Q r) ∧
        (context.hasColumn "created" = true →
          Q ⟨listScope scope context, .bare rootAlias, "created", 0⟩) ∧
        Q ⟨listScope scope context, .bare rootAlias, "id", 0⟩ ∧
        (∀ condition ∈ filtered, ∀ r ∈ condition.references (listScope scope context), Q r) ∧
        (query.page.after? ≠ none →
          Q ⟨listScope scope context, .bare rootAlias, "created", 0⟩ ∧
          Q ⟨listScope scope context, .bare rootAlias, "id", 0⟩)) := by
  obtain ⟨⟨filtered, params⟩, hfiltered, h⟩ := bind_eq_ok.mp h
  obtain ⟨document, hdocument, h⟩ := bind_eq_ok.mp h
  obtain ⟨⟨document', n⟩, hobject, hrecord⟩ := bind_eq_ok.mp hdocument
  obtain ⟨orderBy, -, h⟩ := bind_eq_ok.mp h
  cases hrecord
  cases h
  refine ⟨document, n, filtered, params, hobject, hfiltered, ?_⟩
  have hcreated : (∀ r ∈ (if context.hasColumn "created" then rootColumn "created"
      else .text "null::timestamptz").references (listScope scope context), Q r) ↔
      (context.hasColumn "created" = true →
        Q ⟨listScope scope context, .bare rootAlias, "created", 0⟩) := by
    split
    next hcolumn => simp [rootColumn, hcolumn]
    next hcolumn => simp [hcolumn]
  simp only [Fragment.references_append, Fragment.references_text, Fragment.references_query,
    nil_append, append_nil, forall_mem_append]
  rw [← listScope, hcreated, forall_references_whereFragment, forall_mem_append,
    forall_references_keysetFragments]
  simp only [rootColumn, Fragment.references_column, forall_mem_singleton, and_assoc]

/-- The references of a count are those of its filter. -/
theorem forall_references_countFragment {filter : Option Expr} {fragment : Fragment}
    (h : countFragment filter context auth = .ok fragment) :
    ∃ filtered params, filterFragments filter context auth = .ok (filtered, params) ∧
      ((∀ r ∈ fragment.references scope, Q r) ↔
        ∀ condition ∈ filtered, ∀ r ∈ condition.references (listScope scope context), Q r) := by
  obtain ⟨⟨filtered, params⟩, hfiltered, h⟩ := bind_eq_ok.mp h
  cases h
  refine ⟨filtered, params, hfiltered, ?_⟩
  simp only [Fragment.references_append, Fragment.references_text, Fragment.references_query,
    nil_append]
  exact forall_references_whereFragment

/-- The references of a record's statement are those of its document. -/
theorem forall_references_getOneFragment {collection : Collection} {selection : FieldSelection}
    {expand : ExpandSpec} {fragment : Fragment}
    (h : getOneFragment collection context selection expand = .ok fragment) :
    ∃ document n, objectFragment (maxExpandDepth + 1) 0 context (.quoted collection.name) selection
        expand 0 = .ok (document, n) ∧
      ((∀ r ∈ fragment.references scope, Q r) ↔
        ∀ r ∈ document.references (scope.enter ⟨collection.name, none⟩), Q r) := by
  obtain ⟨document, hdocument, h⟩ := bind_eq_ok.mp h
  obtain ⟨⟨document', n⟩, hobject, hrecord⟩ := bind_eq_ok.mp hdocument
  cases hrecord
  cases h
  refine ⟨document, n, hobject, ?_⟩
  simp only [Fragment.references_append, Fragment.references_text, Fragment.references_query,
    nil_append, append_nil]

/-- The conditions of a filter refer to what its comparisons do. -/
theorem forall_references_filterFragments {filter : Option Expr} {filtered : List Fragment}
    {params : List String} (h : filterFragments filter context auth = .ok (filtered, params))
    (hpath : ∀ {hops column op operand swapped params pred after},
      compileAt column op operand swapped auth params hops context (.bare rootAlias) 0 =
        .ok (pred, after) → ∀ r ∈ (pred.marked 0 0).references scope, Q r) :
    ∀ condition ∈ filtered, ∀ r ∈ condition.references scope, Q r := by
  cases filter with
  | none =>
    cases h
    simp
  | some expr =>
    obtain ⟨compiled, hcompiled, h⟩ := bind_eq_ok.mp h
    obtain ⟨⟨pred, after⟩, hpred, hcompiled⟩ := bind_eq_ok.mp hcompiled
    cases hcompiled
    cases h
    rw [forall_mem_singleton]
    exact (forall_references_compileExpr (P := fun _ => True) hpred fun hat =>
      iff_true_intro (hpath hat)).mpr fun _ _ => trivial

end Statements

end LazyPock
