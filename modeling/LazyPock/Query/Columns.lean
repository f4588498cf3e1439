import LazyPock.Query.Capture

/-!
# The columns generated reads name

Which qualified columns of a generated read exist: each is looked up in the collection whose rows
its alias ranges over. What a request names is checked against the whitelist of its collection; what
the generator adds on its own is `id`, the column of a relation, and `created` for the order of an
expanded array, which a view need not have.

## Main definitions

* `FilterContext.BuiltFor`: a context of a collection, at some depth.
* `HasColumn`, `ReadsColumn`: a column that exists, a reference to one.
* `ListsCreated`: every array of an expansion is over rows that have `created`.

## Main results

* `FilterContext.builtFor_of_lookup`: the target of a relation.
* `readsColumn_objectFragment_iff`: the documents that name existing columns.
* `columns_exist_iff`: the reads that name existing columns.
-/

namespace LazyPock

open Text Sql Assoc

/-! ### Contexts and their collections -/

namespace FilterContext

/-- The columns of a collection before its fields. -/
def startColumns (collection : Collection) : List (String × String) :=
  if collection.collectionType = .view then [("id", "text")]
  else if collection.collectionType = .auth then
    [("created", "timestamptz"), ("email", "text"), ("id", "text"), ("updated", "timestamptz"),
      ("verified", "boolean")]
  else [("created", "timestamptz"), ("id", "text"), ("updated", "timestamptz")]

/-- A context of `collection`, at some depth. -/
def BuiltFor (all : List Collection) (collection : Collection) (context : FilterContext) : Prop :=
  ∃ levels, build all levels collection = .ok context

section Build

variable {all : List Collection} {collection : Collection} {context : FilterContext}
  {hop : Option (Collection → Result FilterContext)}

variable {columns : List (String × String)}

theorem startColumns_eq
    (h : implicitColumns (implicitFields collection) = .ok columns) :
    (if collection.collectionType = .auth then
      insert "verified" "boolean" (insert "email" "text" columns)
      else columns) = startColumns collection := by
  have himplicit : ∀ t : CollectionType,
      implicitColumns (("id", .text) ::
        if t ≠ .view then [("created", .autodate), ("updated", .autodate)] else []) =
      .ok (if t = .view then [("id", "text")]
        else [("created", "timestamptz"), ("id", "text"), ("updated", "timestamptz")]) := by
    intro t
    cases t <;> decide
  rw [implicitFields, himplicit, Except.ok.injEq] at h
  unfold startColumns
  rw [← h]
  cases collection.collectionType <;> decide

/-- A context is built from the fields of its collection, its relations one level shallower. -/
theorem exists_of_build {levels : ℕ} (h : build all levels collection = .ok context) :
    ∃ hop, (∀ b target context, hop = some b → b target = .ok context →
        BuiltFor all target context) ∧
      buildFields collection hop all collection.fields (startColumns collection) [] =
        .ok context := by
  unfold build at h
  obtain ⟨columns, hcolumns, h⟩ := bind_eq_ok.mp h
  rw [startColumns_eq hcolumns] at h
  cases levels with
  | zero => exact ⟨none, fun _ _ _ hb _ => absurd hb (by simp), h⟩
  | succ levels =>
    refine ⟨some (build all levels), fun b target context hb hbuild => ⟨levels, ?_⟩, h⟩
    rwa [Option.some.inj hb]

variable {relations : List (String × RelationTarget FilterContext)}

theorem table_of_buildFields {fields : List Field}
    (h : buildFields collection hop all fields columns relations = .ok context) :
    context.table = collection.name := by
  induction fields generalizing columns relations with
  | nil =>
    cases h
    rfl
  | cons field rest ih =>
    rw [buildFields] at h
    split at h
    · exact ih h
    · obtain ⟨columnType, -, h⟩ := bind_eq_ok.mp h
      obtain ⟨entry, -, h⟩ := bind_eq_ok.mp h
      exact ih h

/-- The columns of a context do not depend on how deep its relations go. -/
theorem columns_of_buildFields {other : FilterContext}
    {hop' : Option (Collection → Result FilterContext)} {fields : List Field}
    {relations' : List (String × RelationTarget FilterContext)}
    (h : buildFields collection hop all fields columns relations = .ok context)
    (h' : buildFields collection hop' all fields columns relations' = .ok other) :
    context.columns = other.columns := by
  induction fields generalizing columns relations relations' with
  | nil =>
    cases h
    cases h'
    rfl
  | cons field rest ih =>
    rw [buildFields] at h h'
    split at h
    next hskip =>
      rw [if_pos hskip] at h'
      exact ih h h'
    next hskip =>
      rw [if_neg hskip] at h'
      obtain ⟨columnType, htype, h⟩ := bind_eq_ok.mp h
      obtain ⟨columnType', htype', h'⟩ := bind_eq_ok.mp h'
      obtain rfl := Except.ok.inj (htype.symm.trans htype')
      obtain ⟨entry, -, h⟩ := bind_eq_ok.mp h
      obtain ⟨entry', -, h'⟩ := bind_eq_ok.mp h'
      exact ih h h'

theorem relationEntry_eq_some {field : Field} {relation : RelationTarget FilterContext}
    (h : relationEntry hop all field = .ok (some relation)) :
    ∃ b target, hop = some b ∧ target ∈ all ∧ b target = .ok relation.context ∧
      relation.table = target.name ∧ relation.column = field.name := by
  unfold relationEntry at h
  split at h
  · cases h
  · cases hop with
    | none => cases h
    | some b =>
      obtain ⟨targetId, -, h⟩ := bind_eq_ok.mp h
      cases htarget : all.find? fun c => c.id = targetId || c.name = targetId with
      | none => rw [htarget] at h; cases h
      | some target =>
        rw [htarget] at h
        obtain ⟨context, hcontext, h⟩ := bind_eq_ok.mp h
        cases h
        exact ⟨b, target, rfl, List.mem_of_find?_eq_some htarget, hcontext, rfl, rfl⟩

theorem relation_of_buildFields {fields : List Field} {name : String}
    {relation : RelationTarget FilterContext}
    (h : buildFields collection hop all fields columns relations = .ok context)
    (hrelation : lookup name context.relations = some relation) :
    lookup name relations = some relation ∨
      ∃ b target, hop = some b ∧ target ∈ all ∧ b target = .ok relation.context ∧
        relation.table = target.name ∧ relation.column = name ∧ context.hasColumn name = true := by
  induction fields generalizing columns relations with
  | nil =>
    cases h
    exact .inl hrelation
  | cons field rest ih =>
    rw [buildFields] at h
    split at h
    · exact ih h
    · obtain ⟨columnType, -, h⟩ := bind_eq_ok.mp h
      obtain ⟨entry, hentry, h⟩ := bind_eq_ok.mp h
      rcases ih h with hbefore | hnew
      · cases entry with
        | none => exact .inl hbefore
        | some added =>
          by_cases hname : name = field.name
          · subst hname
            obtain rfl : added = relation := by
              simpa only [lookup_insert_self, Option.some_inj] using hbefore
            obtain ⟨b, target, hb, htarget, hbuilt, htable, hcolumn⟩ := relationEntry_eq_some hentry
            refine .inr ⟨b, target, hb, htarget, hbuilt, htable, hcolumn, ?_⟩
            refine hasColumn_of_buildFields h ?_
            rw [lookup_insert_self]
            rfl
          · rw [lookup_insert_of_ne hname] at hbefore
            exact .inl hbefore
      · exact .inr hnew

/-- The credentials of an auth collection are never among its columns. -/
theorem lookup_credential_of_buildFields {fields : List Field} {column : String}
    (hauth : collection.collectionType.isAuth = true) (hcredential : column ∈ credentialColumns)
    (h : buildFields collection hop all fields columns relations = .ok context)
    (hnone : lookup column columns = none) : lookup column context.columns = none := by
  induction fields generalizing columns relations with
  | nil =>
    cases h
    exact hnone
  | cons field rest ih =>
    rw [buildFields] at h
    split at h
    · exact ih h hnone
    next hskip =>
      obtain ⟨columnType, -, h⟩ := bind_eq_ok.mp h
      obtain ⟨entry, -, h⟩ := bind_eq_ok.mp h
      refine ih h ?_
      have hne : column ≠ field.name := fun hname => by
        rw [hauth, ← hname, Bool.true_and, decide_eq_true_eq] at hskip
        exact hskip hcredential
      rwa [lookup_insert_of_ne hne]

theorem BuiltFor.table (h : BuiltFor all collection context) : context.table = collection.name := by
  obtain ⟨levels, h⟩ := h
  obtain ⟨hop, -, h⟩ := exists_of_build h
  exact table_of_buildFields h

/-- Every context of a collection has the same columns. -/
theorem BuiltFor.columns_eq {other : FilterContext} (h : BuiltFor all collection context)
    (h' : BuiltFor all collection other) : context.columns = other.columns := by
  obtain ⟨levels, h⟩ := h
  obtain ⟨levels', h'⟩ := h'
  obtain ⟨hop, -, h⟩ := exists_of_build h
  obtain ⟨hop', -, h'⟩ := exists_of_build h'
  exact columns_of_buildFields h h'

/-- Every collection has `id`. -/
theorem BuiltFor.hasColumn_id (h : BuiltFor all collection context) :
    context.hasColumn "id" = true := by
  obtain ⟨levels, h⟩ := h
  obtain ⟨hop, -, h⟩ := exists_of_build h
  refine hasColumn_of_buildFields h ?_
  unfold startColumns
  cases collection.collectionType <;> decide

/-- **The target of a relation** is a collection with its own context, and the relation is a column
of the collection it starts from. -/
theorem BuiltFor.relation {name : String} {relation : RelationTarget FilterContext}
    (h : BuiltFor all collection context)
    (hrelation : lookup name context.relations = some relation) :
    ∃ target ∈ all, BuiltFor all target relation.context ∧ relation.table = target.name ∧
      context.hasColumn relation.column = true := by
  obtain ⟨levels, h⟩ := h
  obtain ⟨hop, hhop, h⟩ := exists_of_build h
  rcases relation_of_buildFields h hrelation with hnone | hnew
  · cases hnone
  · obtain ⟨b, target, hb, htarget, hbuilt, htable, rfl, hcolumn⟩ := hnew
    exact ⟨target, htarget, hhop b target _ hb hbuilt, htable, hcolumn⟩

/-- **The credentials of an auth collection are not among its columns.** -/
theorem BuiltFor.hasColumn_credential {column : String} (h : BuiltFor all collection context)
    (hauth : collection.collectionType.isAuth = true) (hcredential : column ∈ credentialColumns) :
    context.hasColumn column = false := by
  obtain ⟨levels, h⟩ := h
  obtain ⟨hop, -, h⟩ := exists_of_build h
  have hauth' : collection.collectionType = .auth := of_decide_eq_true hauth
  have hstart : lookup column (startColumns collection) = none := by
    simp only [credentialColumns, List.mem_cons, List.not_mem_nil, or_false] at hcredential
    rcases hcredential with rfl | rfl <;> rw [startColumns, hauth'] <;> decide
  rw [hasColumn, lookup_credential_of_buildFields hauth hcredential h hstart]
  rfl

end Build

end FilterContext

/-! ### References to existing columns -/

/-- A collection of that name has the column. -/
def HasColumn (all : List Collection) (table column : String) : Prop :=
  ∃ collection ∈ all, collection.name = table ∧
    ∃ context, FilterContext.BuiltFor all collection context ∧ context.hasColumn column = true

/-- The row a reference is read from has the column. -/
abbrev ReadsColumn (all : List Collection) (r : Reference) : Prop := r.Reads (HasColumn all)

/-- A property of every relation an expansion goes through, down `levels` levels. -/
def EachRelation (P : RelationTarget FilterContext → Prop) :
    (levels : ℕ) → FilterContext → ExpandSpec → Prop
  | 0, _, _ => True
  | levels + 1, context, expand =>
    ∀ name ∈ expand.relationsToExpand context,
      ∀ relation, lookup name context.relations = some relation →
        P relation ∧ EachRelation P levels relation.context (expand.child name)

/-- Every array that an expansion builds is over rows that have `created`. -/
def ListsCreated (levels : ℕ) (context : FilterContext) (expand : ExpandSpec) : Prop :=
  EachRelation (fun relation => relation.multiple = true →
    relation.context.hasColumn "created" = true) levels context expand

theorem eachRelation_of_forall {P : RelationTarget FilterContext → Prop} (h : ∀ relation, P relation)
    (levels : ℕ) (context : FilterContext) (expand : ExpandSpec) :
    EachRelation P levels context expand := by
  induction levels generalizing context expand with
  | zero => exact trivial
  | succ levels ih => exact fun name _ relation _ => ⟨h relation, ih _ _⟩

/-- Two properties that agree on the relations between the collections. -/
theorem eachRelation_congr {all : List Collection} {P Q : RelationTarget FilterContext → Prop}
    (h : ∀ relation target, target ∈ all → FilterContext.BuiltFor all target relation.context →
      relation.table = target.name → (P relation ↔ Q relation))
    {levels : ℕ} {collection : Collection} {context : FilterContext} {expand : ExpandSpec}
    (hcontext : FilterContext.BuiltFor all collection context) :
    EachRelation P levels context expand ↔ EachRelation Q levels context expand := by
  induction levels generalizing collection context expand with
  | zero => exact Iff.rfl
  | succ levels ih =>
    refine forall₂_congr fun name _ => forall₂_congr fun relation hrelation => ?_
    obtain ⟨target, htarget, hbuilt, htable, -⟩ := hcontext.relation hrelation
    exact and_congr (h relation target htarget hbuilt htable) (ih hbuilt)

/-- A property that does not mention the alias is one of the names. -/
theorem eachExpanded_and_iff {levels : ℕ} {context : FilterContext} {expand : ExpandSpec}
    {counter : ℕ} {P : String → RelationTarget FilterContext → ℕ → Prop}
    {Q : String → RelationTarget FilterContext → Prop} :
    EachExpanded levels context expand counter (fun name relation k =>
        P name relation k ∧ Q name relation) ↔
      EachExpanded levels context expand counter P ∧
        ∀ name ∈ expand.relationsToExpand context,
          ∀ relation, lookup name context.relations = some relation → Q name relation := by
  constructor
  · intro h
    refine ⟨fun before name after hsplit relation hrelation =>
      (h before name after hsplit relation hrelation).1, fun name hname relation hrelation => ?_⟩
    obtain ⟨before, after, hsplit⟩ := List.append_of_mem hname
    exact (h before name after hsplit relation hrelation).2
  · rintro ⟨hP, hQ⟩ before name after hsplit relation hrelation
    refine ⟨hP before name after hsplit relation hrelation, hQ name ?_ relation hrelation⟩
    rw [hsplit]
    exact List.mem_append_right before List.mem_cons_self

section Existing

variable {all : List Collection} {scope : Bindings} {row : Ref}

theorem readsColumn_iff_of_lookup {qualifier : Ref} {column : String} {level : ℕ} {rowVar : RowVar}
    (h : lookup qualifier.key scope = some rowVar) :
    ReadsColumn all ⟨scope, qualifier, column, level⟩ ↔ HasColumn all rowVar.table column :=
  Reference.reads_iff_of_lookup h

variable (hnames : (all.map Collection.name).Nodup)
include hnames

variable {collection : Collection} {context : FilterContext}

/-- What a collection has is what its context has. -/
theorem hasColumn_iff {column : String}
    (hmem : collection ∈ all) (hcontext : FilterContext.BuiltFor all collection context) :
    HasColumn all collection.name column ↔ context.hasColumn column = true := by
  constructor
  · rintro ⟨other, hother, hname, built, hbuilt, hcolumn⟩
    obtain rfl := List.inj_on_of_nodup_map hnames hother hmem hname
    rwa [FilterContext.hasColumn, ← hbuilt.columns_eq hcontext]
  · exact fun h => ⟨collection, hmem, rfl, context, hcontext, h⟩

/-- What holds of every existing column holds of those of the row itself. -/
theorem reads_effectiveColumns {H : String → String → Prop}
    (hH : ∀ table column, HasColumn all table column → H table column)
    {levels level counter n : ℕ} {selection : FieldSelection} {expand : ExpandSpec}
    {document : Fragment} {rowLevel : ℕ}
    (h : objectFragment (levels + 1) level context row selection expand counter =
      .ok (document, n))
    (hmem : collection ∈ all) (hcontext : FilterContext.BuiltFor all collection context)
    (hrow : lookup row.key scope = some ⟨rowLevel, collection.name⟩) :
    ∀ column ∈ selection.effectiveColumns context,
      Reference.Reads H ⟨scope, row, column, level⟩ := by
  intro column hcolumn
  rw [Reference.reads_iff_of_lookup hrow]
  refine hH _ _ ((hasColumn_iff hnames hmem hcontext).mpr ?_)
  exact hasColumn_of_objectFragment h column hcolumn

/-- **What a document reads**: existing columns, `created` of the rows of its arrays, and where a
relation takes the name of the row, the relation's column in its target. -/
theorem reads_objectFragment_iff {H : String → String → Prop}
    (hH : ∀ table column, HasColumn all table column → H table column)
    {levels level counter n : ℕ} {selection : FieldSelection} {expand : ExpandSpec}
    {document : Fragment} {rowLevel : ℕ}
    (h : objectFragment (levels + 1) level context row selection expand counter =
      .ok (document, n))
    (hmem : collection ∈ all) (hcontext : FilterContext.BuiltFor all collection context)
    (hrow : lookup row.key scope = some ⟨rowLevel, collection.name⟩) :
    (∀ r ∈ document.references scope, r.Reads H) ↔
      EachExpanded levels context expand counter (fun _ relation k =>
        row.key = "r" ++ toString k → H relation.table relation.column) ∧
      EachRelation (fun relation => relation.multiple = true → H relation.table "created")
        (levels + 1) context expand := by
  induction levels generalizing level context row selection expand counter document n scope
    collection rowLevel with
  | zero =>
    have hown := reads_effectiveColumns hnames hH h hmem hcontext hrow
    refine (forall_references_objectFragment h ?_).trans
      ((and_iff_right hown).trans eachExpanded_and_iff)
    intro name relation k below next _ _ _ hbelow
    cases hbelow
  | succ levels ih =>
    have hown := reads_effectiveColumns hnames hH h hmem hcontext hrow
    refine (forall_references_objectFragment h ?_).trans
      ((and_iff_right hown).trans eachExpanded_and_iff)
    intro name relation k below next _ _ hrelation hbelow
    obtain ⟨target, htarget, hbuilt, htable, hcolumn⟩ := hcontext.relation hrelation
    have hkey : lookup (Ref.bare (expandAlias k)).key
        (scope.enter ⟨relation.table, expandAlias k⟩) = some ⟨scope.length, relation.table⟩ :=
      Bindings.lookup_enter_self scope ⟨relation.table, expandAlias k⟩
    -- Below, no alias repeats, so only the arrays are in question.
    have hbelowIff := ih hbelow htarget hbuilt (by rw [← htable]; exact hkey)
    have hfresh : EachExpanded levels relation.context (expand.child name) k
        (fun _ relation' k' => (Ref.bare (expandAlias k)).key = "r" ++ toString k' →
          H relation'.table relation'.column) := by
      intro before name' after _ relation' _ hname
      rw [key_expandAlias, append_toString_inj] at hname
      omega
    have hid : H relation.table "id" := by
      rw [htable]
      exact hH _ _ ((hasColumn_iff hnames htarget hbuilt).mpr hbuilt.hasColumn_id)
    have hparent : Reference.Reads H ⟨scope.enter ⟨relation.table, expandAlias k⟩, row,
        relation.column, level⟩ ↔
          (row.key = "r" ++ toString k → H relation.table relation.column) := by
      by_cases hname : row.key = "r" ++ toString k
      · have hhidden : lookup row.key (scope.enter ⟨relation.table, expandAlias k⟩) =
            some ⟨scope.length, relation.table⟩ := by rw [hname, ← key_expandAlias, hkey]
        rw [Reference.reads_iff_of_lookup hhidden]
        exact ⟨fun h _ => h, fun h => h hname⟩
      · have hseen : lookup row.key (scope.enter ⟨relation.table, expandAlias k⟩) =
            some ⟨rowLevel, collection.name⟩ := by
          rw [Bindings.lookup_enter_of_ne _, hrow]
          exact fun hkey => hname (hkey.symm.trans (key_expandAlias k))
        rw [Reference.reads_iff_of_lookup hseen]
        exact ⟨fun _ h => absurd h hname,
          fun _ => hH _ _ ((hasColumn_iff hnames hmem hcontext).mpr hcolumn)⟩
    rw [forall_references_expandFragment, hbelowIff, Reference.reads_iff_of_lookup hkey,
      Reference.reads_iff_of_lookup hkey, hparent]
    constructor
    · rintro ⟨⟨-, hlists⟩, -, hreference, hcreated⟩
      exact ⟨hreference, hcreated, hlists⟩
    · rintro ⟨hreference, hcreated, hlists⟩
      exact ⟨⟨hfresh, hlists⟩, hid, hreference, hcreated⟩

/-- **When the columns of a document exist**: the arrays of its expansion are over rows that have
`created`, and where a relation takes the name of the row, its target has the relation's column. -/
theorem readsColumn_objectFragment_iff {levels level counter n : ℕ} {selection : FieldSelection} {expand : ExpandSpec}
    {document : Fragment} {rowLevel : ℕ}
    (h : objectFragment (levels + 1) level context row selection expand counter =
      .ok (document, n))
    (hmem : collection ∈ all) (hcontext : FilterContext.BuiltFor all collection context)
    (hrow : lookup row.key scope = some ⟨rowLevel, collection.name⟩) :
    (∀ r ∈ document.references scope, ReadsColumn all r) ↔
      EachExpanded levels context expand counter (fun _ relation k =>
        row.key = "r" ++ toString k → relation.context.hasColumn relation.column = true) ∧
      ListsCreated (levels + 1) context expand := by
  have hhas : ∀ (relation : RelationTarget FilterContext) target column, target ∈ all →
      FilterContext.BuiltFor all target relation.context → relation.table = target.name →
      (HasColumn all relation.table column ↔ relation.context.hasColumn column = true) :=
    fun relation target column htarget hbuilt htable => by
      rw [htable, hasColumn_iff hnames htarget hbuilt]
  have hbuilt : EachExpanded levels context expand counter fun _ relation _ =>
      ∃ target ∈ all, FilterContext.BuiltFor all target relation.context ∧
        relation.table = target.name := by
    intro before name after _ relation hrelation
    obtain ⟨target, htarget, hbuilt, htable, -⟩ := hcontext.relation hrelation
    exact ⟨target, htarget, hbuilt, htable⟩
  rw [reads_objectFragment_iff hnames (fun _ _ => id) h hmem hcontext hrow]
  refine and_congr (EachExpanded.congr hbuilt ?_) (eachRelation_congr ?_ hcontext)
  · rintro name relation k - - - ⟨target, htarget, hbuilt, htable⟩
    exact imp_congr_right fun _ => hhas relation target _ htarget hbuilt htable
  · intro relation target htarget hbuilt htable
    exact imp_congr_right fun _ => hhas relation target _ htarget hbuilt htable

/-- **The columns of a comparison exist**, where its first hop does not take the name of the row. -/
theorem readsColumn_compileAt {column : String} {op : CompareOp} {operand : Operand} {swapped : Bool}
    {auth : AuthContext} {params after hops : List String} {pred : Pred} {level rowLevel : ℕ}
    (h : compileAt column op operand swapped auth params hops context row level = .ok (pred, after))
    (hmem : collection ∈ all) (hcontext : FilterContext.BuiltFor all collection context)
    (hrow : lookup row.key scope = some ⟨rowLevel, collection.name⟩)
    (hkey : row.key ≠ "rt" ++ toString (level + 1)) :
    ∀ r ∈ (pred.marked level level).references scope, ReadsColumn all r := by
  induction hops generalizing level context row pred scope collection rowLevel with
  | nil =>
    obtain ⟨hcolumn, hreferences⟩ := compileAt_nil_eq_ok h
    rw [hreferences, List.forall_mem_singleton, readsColumn_iff_of_lookup hrow,
      hasColumn_iff hnames hmem hcontext]
    exact hcolumn
  | cons hop hops ih =>
    obtain ⟨relation, inner, hrelation, hinner, hall⟩ := compileAt_cons_eq_ok h
    obtain ⟨target, htarget, hbuilt, htable, hcolumn⟩ := hcontext.relation hrelation
    have hown : lookup (Ref.bare (relationAlias (level + 1))).key
        (scope.enter ⟨relation.table, relationAlias (level + 1)⟩) =
          some ⟨scope.length, target.name⟩ := by
      rw [← htable]
      exact Bindings.lookup_enter_self scope ⟨relation.table, relationAlias (level + 1)⟩
    have hseen : lookup row.key (scope.enter ⟨relation.table, relationAlias (level + 1)⟩) =
        some ⟨rowLevel, collection.name⟩ := by
      rw [Bindings.lookup_enter_of_ne _, hrow]
      exact fun hname => hkey (hname.symm.trans (key_relationAlias (level + 1)))
    have hnext : (Ref.bare (relationAlias (level + 1))).key ≠
        "rt" ++ toString (level + 1 + 1) := by
      rw [key_relationAlias, ne_eq, append_toString_inj]
      omega
    rw [hall]
    refine ⟨?_, ?_, ih hinner htarget hbuilt hown hnext⟩
    · rw [readsColumn_iff_of_lookup hown, hasColumn_iff hnames htarget hbuilt]
      exact hbuilt.hasColumn_id
    · rw [readsColumn_iff_of_lookup hseen, hasColumn_iff hnames hmem hcontext]
      exact hcolumn

/-! ### Listings -/

omit hnames in
/-- The root of a listing is called like no alias. -/
theorem key_rootAlias_ne {head : String} (hhead : head.toList.head? = some 'r') (n : ℕ) :
    (Ref.bare rootAlias).key ≠ head ++ toString n := by
  intro hname
  have hfirst := congrArg (fun s : String => s.toList.head?) hname
  cases hlist : head.toList with
  | nil => rw [hlist] at hhead; cases hhead
  | cons c cs =>
    rw [hlist] at hhead
    simp [hlist, Option.some.inj hhead] at hfirst

variable {collection : Collection} {context : FilterContext} (hmem : collection ∈ all)
  (hcontext : FilterContext.BuiltFor all collection context)
include hmem hcontext

omit hnames hmem in
theorem lookup_rootAlias :
    lookup (Ref.bare rootAlias).key (listScope [] context) = some ⟨0, collection.name⟩ := by
  rw [key_rootAlias, lookup_listScope, hcontext.table]
  rfl

theorem readsColumn_rootColumn {column : String} (hcolumn : context.hasColumn column = true) :
    ReadsColumn all ⟨listScope [] context, .bare rootAlias, column, 0⟩ := by
  rw [readsColumn_iff_of_lookup (lookup_rootAlias hcontext), hasColumn_iff hnames hmem hcontext]
  exact hcolumn

/-- The columns of a listing's filter exist. -/
theorem readsColumn_filterFragments {filter : Option Expr} {auth : AuthContext}
    {filtered : List Fragment} {params : List String}
    (h : filterFragments filter context auth = .ok (filtered, params)) :
    ∀ condition ∈ filtered, ∀ r ∈ condition.references (listScope [] context), ReadsColumn all r :=
  forall_references_filterFragments h fun hat =>
    readsColumn_compileAt hnames hat hmem hcontext (lookup_rootAlias hcontext)
      (key_rootAlias_ne (by decide) _)

end Existing

/-! ### Reads -/

/-- **When generated reads name existing columns**: a listing that is paged by offset, exactly when
the arrays of its expansion are over rows with `created`; a record's statement, when besides no
relation of the first level gets the collection's name as its alias, or its target has the column
of the relation too. -/
theorem columns_exist_iff {all : List Collection} (hnames : (all.map Collection.name).Nodup)
    {collection : Collection} (hmem : collection ∈ all) {context : FilterContext}
    (hcontext : FilterContext.forCollection collection all = .ok context) :
    (∀ query request auth built, query.page = .offset request →
      buildList query context auth = .ok built →
      ∃ fragment, listFragment query context auth = .ok fragment ∧ fragment.sql = built.sql ∧
        ((∀ r ∈ fragment.references [], ReadsColumn all r) ↔
          ListsCreated (maxExpandDepth + 1) context query.expand)) ∧
    ∀ selection expand sql, getOneSql collection context selection expand = .ok sql →
      ∃ fragment, getOneFragment collection context selection expand = .ok fragment ∧
        fragment.sql = sql ∧
        ((∀ r ∈ fragment.references [], ReadsColumn all r) ↔
          EachExpanded maxExpandDepth context expand 0 (fun _ relation k =>
            collection.name = "r" ++ toString k →
              relation.context.hasColumn relation.column = true) ∧
          ListsCreated (maxExpandDepth + 1) context expand) := by
  have hbuilt : FilterContext.BuiltFor all collection context := ⟨maxPathDepth, hcontext⟩
  constructor
  · intro query request auth built hpage h
    obtain ⟨fragment, hfragment, hsql⟩ := listFragment_of_built h
    obtain ⟨document, n, filtered, params, hobject, hfiltered, hall⟩ :=
      forall_references_listFragment hfragment
    have hdocument := readsColumn_objectFragment_iff hnames hobject hmem hbuilt
      (lookup_rootAlias hbuilt)
    have hfree : EachExpanded maxExpandDepth context query.expand 0 (fun _ relation k =>
        (Ref.bare rootAlias).key = "r" ++ toString k →
          relation.context.hasColumn relation.column = true) :=
      fun _ _ _ _ _ _ hname => absurd hname (key_rootAlias_ne (by decide) _)
    have hoffset : query.page.after? = none := by rw [hpage]; rfl
    refine ⟨fragment, hfragment, hsql, ?_⟩
    rw [hall, hdocument]
    constructor
    · exact fun h => h.1.2
    · intro hlists
      exact ⟨⟨hfree, hlists⟩, readsColumn_rootColumn hnames hmem hbuilt,
        readsColumn_rootColumn hnames hmem hbuilt hbuilt.hasColumn_id,
        readsColumn_filterFragments hnames hmem hbuilt hfiltered, fun h => absurd hoffset h⟩
  · intro selection expand sql h
    obtain ⟨fragment, hfragment, hsql⟩ := getOneFragment_of_sql h
    obtain ⟨document, n, hobject, hall⟩ := forall_references_getOneFragment hfragment
    refine ⟨fragment, hfragment, hsql, ?_⟩
    rw [hall]
    exact readsColumn_objectFragment_iff hnames hobject hmem hbuilt
      (Bindings.lookup_enter_self [] ⟨collection.name, none⟩)

/-! ### Arrays over a view -/

/-- A view with nothing but its `id`. -/
def reports : Collection where
  id := "c3"
  name := "reports"
  collectionType := .view
  options := .object []
  rules := .object []
  fields := [⟨"f3", "c3", "id", .text, false, false, .object [], 1⟩]

/-- Boards, each with up to two reports. -/
def boards : Collection where
  id := "c4"
  name := "boards"
  collectionType := .base
  options := .object []
  rules := .object []
  fields := [⟨"f4", "c4", "shown", .relation, false, false,
    .object [("collectionId", .string "c3"), ("maxSelect", .number (.posInt 2))], 0⟩]

/-- The statement that reads one of the boards with its reports. -/
def getOneBoard : Result Fragment := do
  let context ← FilterContext.forCollection boards [boards, reports]
  getOneFragment boards context .all ⟨[("shown", .none)], false⟩

/-- **An array over a view without `created` is ordered by it all the same.** -/
theorem array_reads_missing_created :
    boards.validate = .ok () ∧ ∃ fragment, getOneBoard = .ok fragment ∧
      ∃ r ∈ fragment.references [], ¬ ReadsColumn [boards, reports] r := by
  obtain ⟨fragment, hfragment, r, hr, hrow, hcolumn⟩ : ∃ fragment, getOneBoard = .ok fragment ∧
      ∃ r ∈ fragment.references [], r.row? = some ⟨1, "reports"⟩ ∧ r.column = "created" := by
    apply exists_ok_of_any
    decide
  obtain ⟨context, hcontext, hmissing⟩ : ∃ context,
      FilterContext.forCollection reports [boards, reports] = .ok context ∧
      context.hasColumn "created" = false := by
    apply exists_ok_of_any
    decide
  refine ⟨by decide, fragment, hfragment, r, hr, ?_⟩
  rintro ⟨row, hrow', hreads⟩
  obtain rfl := Option.some.inj (hrow.symm.trans hrow')
  have hbuilt : FilterContext.BuiltFor [boards, reports] reports context :=
    ⟨maxPathDepth, hcontext⟩
  rw [hcolumn, show (⟨1, "reports"⟩ : RowVar).table = reports.name from rfl,
    hasColumn_iff (by decide) (by simp) hbuilt, hmissing] at hreads
  cases hreads

/-- The newest posts by Ada with their author, thirty to a page. -/
def postsByAda : ReadQuery where
  selection := .all
  expand := authorExpanded
  filter := some byAda
  sort := [⟨["created"], true⟩]
  page := .offset ⟨1, 30, false⟩

/-- Posts with their author are read from columns that exist. -/
theorem columns_exist_posts :
    ∃ context, FilterContext.forCollection (posts "posts") [authors, posts "posts"] = .ok context ∧
      (∃ fragment, listFragment postsByAda context ⟨none, none, none, none, []⟩ = .ok fragment ∧
        ∀ r ∈ fragment.references [], ReadsColumn [authors, posts "posts"] r) ∧
      ∃ fragment, getOneFragment (posts "posts") context .all authorExpanded = .ok fragment ∧
        ∀ r ∈ fragment.references [], ReadsColumn [authors, posts "posts"] r := by
  obtain ⟨context, hcontext, hlist, hone, hauthor⟩ : ∃ context,
      FilterContext.forCollection (posts "posts") [authors, posts "posts"] = .ok context ∧
      isOk (buildList postsByAda context ⟨none, none, none, none, []⟩) = true ∧
      isOk (getOneSql (posts "posts") context .all authorExpanded) = true ∧
      (lookup "author" context.relations).any (fun relation => !relation.multiple) = true := by
    apply exists_ok_of_any
    decide
  obtain ⟨built, hbuilt⟩ := isOk_iff.mp hlist
  obtain ⟨sql, hsql⟩ := isOk_iff.mp hone
  have hlists : ListsCreated (maxExpandDepth + 1) context authorExpanded := by
    intro name hname relation hrelation
    obtain rfl : name = "author" := by simpa [ExpandSpec.relationsToExpand, authorExpanded] using hname
    rw [hrelation] at hauthor
    have hsingle : relation.multiple = false := by simpa using hauthor
    refine ⟨fun h => absurd (hsingle.symm.trans h) (by decide), ?_⟩
    intro name hname
    simp [ExpandSpec.relationsToExpand, ExpandSpec.child, authorExpanded, lookup,
      ExpandSpec.none] at hname
  have hname : ∀ k : ℕ, (posts "posts").name ≠ "r" ++ toString k := fun k h =>
    absurd (congrArg (fun s => s.toList.head?) h) (by simp [posts])
  have hiff := columns_exist_iff (by decide) (by simp) hcontext
  obtain ⟨list, hlist, -, hreads⟩ := hiff.1 postsByAda _ _ built rfl hbuilt
  obtain ⟨record, hrecord, -, hreads'⟩ := hiff.2 _ _ sql hsql
  exact ⟨context, hcontext, ⟨list, hlist, hreads.mpr hlists⟩, record, hrecord,
    hreads'.mpr ⟨fun _ _ _ _ _ _ h => absurd h (hname _), hlists⟩⟩

end LazyPock
