import LazyPock.Query.Columns
import LazyPock.Schema.ViewBuilder

/-!
# Credentials behind the query layer

Which generated statements read `password_hash` or `token_key` of an auth collection. The whitelist
of a collection leaves its credentials out at every depth, so a column that exists by it is none.
The one reference that is not checked against the whitelist of the row it is read from is the column
of a relation whose target's alias hides the collection itself. A view is generated from the fields
of the collections, of which only the visible ones may be named.

## Main definitions

* `AuthTable`, `ReadsCredential`.
* `SchemaSound`: what the database keeps true of the collections.

## Main results

* `credentials_unreachable_iff`: what the generated statements read.
-/

namespace LazyPock

open Text Sql

/-- The table of an auth collection. -/
def AuthTable (all : List Collection) (table : String) : Prop :=
  ∃ collection ∈ all, collection.name = table ∧ collection.collectionType.isAuth = true

/-- A reference to a credential column, read from a row of an auth collection. -/
def ReadsCredential (all : List Collection) (r : Reference) : Prop :=
  ∃ row, r.row? = some row ∧ r.column ∈ credentialColumns ∧ AuthTable all row.table

/-- A column that is no credential of the table. -/
def NoCredential (all : List Collection) (table column : String) : Prop :=
  column ∈ credentialColumns → ¬ AuthTable all table

/-- **What the database keeps true of the collections**: names are unique, a collection's fields
have distinct names, and a field called `id` (a column of a view) is neither hidden nor a
password. -/
structure SchemaSound (all : List Collection) : Prop where
  names : (all.map Collection.name).Nodup
  fields : ∀ collection ∈ all, (collection.fields.map Field.name).Nodup
  ids : ∀ collection ∈ all, ∀ field ∈ collection.fields, field.name = "id" →
    ViewBuilder.isHidden field = false ∧ field.fieldType ≠ .password

section References

variable {all : List Collection} {scope : Bindings}

/-- A column that exists by the whitelist is no credential. -/
theorem noCredential_of_hasColumn (hnames : (all.map Collection.name).Nodup) {table column : String}
    (h : HasColumn all table column) : NoCredential all table column := by
  rintro hcredential ⟨other, hother, hotherName, hauth⟩
  obtain ⟨collection, hmem, hname, context, hbuilt, hcolumn⟩ := h
  obtain rfl := List.inj_on_of_nodup_map hnames hother hmem (hotherName.trans hname.symm)
  rw [hbuilt.hasColumn_credential hauth hcredential] at hcolumn
  cases hcolumn

theorem not_readsCredential_of_readsColumn (hnames : (all.map Collection.name).Nodup)
    {r : Reference} (h : ReadsColumn all r) : ¬ ReadsCredential all r := by
  rintro ⟨row, hrow, hcredential, hauth⟩
  obtain ⟨row', hrow', hcolumn⟩ := h
  obtain rfl := Option.some.inj (hrow.symm.trans hrow')
  exact noCredential_of_hasColumn hnames hcolumn hcredential hauth

theorem noCredential_created (table : String) : NoCredential all table "created" :=
  fun h => absurd h (by decide)

/-- **When a document reads no credential**: no relation that takes the name of the row is called
like a credential and targets an auth collection. -/
theorem credentials_objectFragment_iff (hnames : (all.map Collection.name).Nodup)
    {levels level counter n rowLevel : ℕ} {row : Ref} {collection : Collection}
    {context : FilterContext} {selection : FieldSelection} {expand : ExpandSpec}
    {document : Fragment}
    (h : objectFragment (levels + 1) level context row selection expand counter =
      .ok (document, n))
    (hmem : collection ∈ all) (hcontext : FilterContext.BuiltFor all collection context)
    (hrow : Assoc.lookup row.key scope = some ⟨rowLevel, collection.name⟩) :
    (∀ r ∈ document.references scope, ¬ ReadsCredential all r) ↔
      EachExpanded levels context expand counter fun _ relation k =>
        row.key = "r" ++ toString k → NoCredential all relation.table relation.column := by
  have hall : ∀ r ∈ document.references scope, r.Reads fun _ _ => True :=
    (reads_objectFragment_iff hnames (fun _ _ _ => trivial) h hmem hcontext hrow).mpr
      ⟨fun _ _ _ _ _ _ _ => trivial, eachRelation_of_forall (fun _ _ => trivial) _ _ _⟩
  have hreads : (∀ r ∈ document.references scope, ¬ ReadsCredential all r) ↔
      ∀ r ∈ document.references scope, r.Reads (NoCredential all) := by
    refine forall₂_congr fun r hr => ⟨fun h => ?_, ?_⟩
    · obtain ⟨row, hrow, -⟩ := hall r hr
      exact ⟨row, hrow, fun hcredential hauth => h ⟨row, hrow, hcredential, hauth⟩⟩
    · rintro ⟨row, hrow, hno⟩ ⟨row', hrow', hcredential, hauth⟩
      obtain rfl := Option.some.inj (hrow.symm.trans hrow')
      exact hno hcredential hauth
  rw [hreads, reads_objectFragment_iff hnames (fun _ _ => noCredential_of_hasColumn hnames) h hmem
    hcontext hrow]
  exact and_iff_left (eachRelation_of_forall (fun relation _ => noCredential_created _) _ _ _)

end References

/-! ### Statements -/

section Statements

variable {all : List Collection} (hnames : (all.map Collection.name).Nodup)
  {collection : Collection} (hmem : collection ∈ all) {context : FilterContext}
  (hcontext : FilterContext.BuiltFor all collection context) {auth : AuthContext}
include hnames hmem hcontext

theorem not_readsCredential_filterFragments {filter : Option Expr} {filtered : List Fragment}
    {params : List String} (h : filterFragments filter context auth = .ok (filtered, params)) :
    ∀ condition ∈ filtered, ∀ r ∈ condition.references (listScope [] context),
      ¬ ReadsCredential all r := fun condition hcondition r hr =>
  not_readsCredential_of_readsColumn hnames
    (readsColumn_filterFragments hnames hmem hcontext h condition hcondition r hr)

/-- **A listing reads no credential.** -/
theorem not_readsCredential_listFragment {query : ReadQuery} {fragment : Fragment}
    (h : listFragment query context auth = .ok fragment) :
    ∀ r ∈ fragment.references [], ¬ ReadsCredential all r := by
  obtain ⟨document, n, filtered, params, hobject, hfiltered, hall⟩ :=
    forall_references_listFragment h
  have hcursor : ∀ column, column ∉ credentialColumns →
      ¬ ReadsCredential all ⟨listScope [] context, .bare rootAlias, column, 0⟩ :=
    fun column hcolumn ⟨_, _, hcredential, _⟩ => hcolumn hcredential
  rw [hall]
  refine ⟨?_, fun _ => hcursor _ (by decide), hcursor _ (by decide),
    not_readsCredential_filterFragments hnames hmem hcontext hfiltered,
    fun _ => ⟨hcursor _ (by decide), hcursor _ (by decide)⟩⟩
  exact (credentials_objectFragment_iff hnames hobject hmem hcontext
    (lookup_rootAlias hcontext)).mpr fun _ _ _ _ _ _ hname =>
      absurd hname (key_rootAlias_ne (by decide) _)

/-- A count reads no credential. -/
theorem not_readsCredential_countFragment {filter : Option Expr} {fragment : Fragment}
    (h : countFragment filter context auth = .ok fragment) :
    ∀ r ∈ fragment.references [], ¬ ReadsCredential all r := by
  obtain ⟨filtered, params, hfiltered, hall⟩ := forall_references_countFragment h
  rw [hall]
  exact not_readsCredential_filterFragments hnames hmem hcontext hfiltered

/-- The keys of an order are no credentials. -/
theorem noCredential_compileKeys {sort : List SortField} {keys : List (String × Bool)}
    (h : SortSpec.compileKeys context sort = .ok keys) :
    ∀ key ∈ keys, NoCredential all collection.name key.1 := by
  intro key hkey
  obtain ⟨field, -, hfield⟩ := exists_of_mapM h hkey
  unfold SortSpec.compileKey at hfield
  split at hfield
  · split at hfield
    next hcolumn =>
      cases hfield
      exact noCredential_of_hasColumn hnames ((hasColumn_iff hnames hmem hcontext).mpr hcolumn)
    next => cases hfield
  · cases hfield

end Statements

/-- **When credentials are out of reach**: no listing, count or order reads one, and no view is
built from a hidden or password field. A record's statement reads none exactly when no relation of
its first level, hidden behind the collection's own name, is called like a credential and targets an
auth collection. -/
theorem credentials_unreachable_iff {all : List Collection} (hall : SchemaSound all)
    {collection : Collection} (hmem : collection ∈ all) {context : FilterContext}
    (hcontext : FilterContext.forCollection collection all = .ok context) :
    (∀ query auth built, buildList query context auth = .ok built →
      ∃ fragment, listFragment query context auth = .ok fragment ∧ fragment.sql = built.sql ∧
        ∀ r ∈ fragment.references [], ¬ ReadsCredential all r) ∧
    (∀ filter auth built, buildCount filter context auth = .ok built →
      ∃ fragment, countFragment filter context auth = .ok fragment ∧ fragment.sql = built.sql ∧
        ∀ r ∈ fragment.references [], ¬ ReadsCredential all r) ∧
    (∀ sort orderBy, SortSpec.compile sort context = .ok orderBy →
      ∃ keys, SortSpec.compileKeys context sort = .ok keys ∧
        orderBy = join ", " (keys.map SortSpec.keySql) ∧
        ∀ key ∈ keys, NoCredential all collection.name key.1) ∧
    (∀ selection expand sql, getOneSql collection context selection expand = .ok sql →
      ∃ fragment, getOneFragment collection context selection expand = .ok fragment ∧
        fragment.sql = sql ∧
        ((∀ r ∈ fragment.references [], ¬ ReadsCredential all r) ↔
          EachExpanded maxExpandDepth context expand 0 fun _ relation k =>
            collection.name = "r" ++ toString k →
              NoCredential all relation.table relation.column)) ∧
    ∀ spec sql, ViewBuilder.toQuery spec all = .ok sql →
      ∃ plan, ViewBuilder.buildPlan spec all = .ok plan ∧ ViewBuilder.render plan = sql ∧
        ∀ read ∈ plan.reads, ∃ source ∈ all, read.1 = some source.name ∧
          ∀ field ∈ source.fields, field.name = read.2 →
            ViewBuilder.isHidden field = false ∧ field.fieldType ≠ .password := by
  have hbuilt : FilterContext.BuiltFor all collection context := ⟨maxPathDepth, hcontext⟩
  have hnames := hall.names
  refine ⟨fun query auth built h => ?_, fun filter auth built h => ?_, fun sort orderBy h => ?_,
    fun selection expand sql h => ?_, fun spec sql h => ?_⟩
  · obtain ⟨fragment, hfragment, hsql⟩ := listFragment_of_built h
    exact ⟨fragment, hfragment, hsql,
      not_readsCredential_listFragment hnames hmem hbuilt hfragment⟩
  · obtain ⟨fragment, hfragment, hsql⟩ := countFragment_of_built h
    exact ⟨fragment, hfragment, hsql,
      not_readsCredential_countFragment hnames hmem hbuilt hfragment⟩
  · obtain ⟨_, -, h⟩ := bind_eq_ok.mp h
    obtain ⟨keys, hkeys, h⟩ := bind_eq_ok.mp h
    exact ⟨keys, hkeys, (Except.ok.inj h).symm, noCredential_compileKeys hnames hmem hbuilt hkeys⟩
  · obtain ⟨fragment, hfragment, hsql⟩ := getOneFragment_of_sql h
    refine ⟨fragment, hfragment, hsql, ?_⟩
    obtain ⟨document, n, hobject, hreferences⟩ := forall_references_getOneFragment hfragment
    rw [hreferences]
    exact credentials_objectFragment_iff hnames hobject hmem hbuilt
      (Bindings.lookup_enter_self [] ⟨collection.name, none⟩)
  · obtain ⟨plan, hplan, h⟩ := bind_eq_ok.mp h
    refine ⟨plan, hplan, Except.ok.inj h, fun read hread => ?_⟩
    obtain ⟨source, hsource, htable, hvisible⟩ := ViewBuilder.visible_of_reads hplan read hread
    refine ⟨source, hsource, htable, fun field hfield hname => ?_⟩
    rcases hvisible with hid | ⟨visible, hlookup, hhidden, hpassword⟩
    · exact hall.ids source hsource field hfield (hname.trans hid)
    · have hvisibleName : visible.name = read.2 := by simpa using List.find?_some hlookup
      obtain rfl := List.inj_on_of_nodup_map (hall.fields source hsource) hfield
        (List.mem_of_find?_eq_some hlookup) (hname.trans hvisibleName.symm)
      exact ⟨hhidden, hpassword⟩

/-! ### A relation called like a credential -/

/-- Users, an auth collection with its own fields. -/
def members : Collection where
  id := "c5"
  name := "members"
  collectionType := .auth
  options := .object []
  rules := .object []
  fields := [⟨"f5", "c5", "password_hash", .password, false, false,
    .object [("hidden", .bool true)], 0⟩]

/-- A collection whose one relation, called `password_hash`, points at the users. -/
def keyholders (name : String) : Collection where
  id := "c6"
  name := name
  collectionType := .base
  options := .object []
  rules := .object []
  fields := [⟨"f6", "c6", "password_hash", .relation, false, false,
    .object [("collectionId", .string "c5")], 0⟩]

/-- `expand=password_hash` -/
def keyExpanded : ExpandSpec := ⟨[("password_hash", .none)], false⟩

/-- The statement that reads one of the holders with its user. -/
def getOneKeyholder (name : String) : Result Fragment := do
  let context ← FilterContext.forCollection (keyholders name) [members, keyholders name]
  getOneFragment (keyholders name) context .all keyExpanded

/-- **A collection called `r1` reads a user's hash** for its own relation. -/
theorem captured_relation_reads_hash :
    (keyholders "r1").validate = .ok () ∧ ∃ fragment, getOneKeyholder "r1" = .ok fragment ∧
      ∃ r ∈ fragment.references [], ReadsCredential [members, keyholders "r1"] r := by
  obtain ⟨fragment, hfragment, r, hr, hrow, hcolumn⟩ : ∃ fragment,
      getOneKeyholder "r1" = .ok fragment ∧ ∃ r ∈ fragment.references [],
        r.row? = some ⟨1, "members"⟩ ∧ r.column = "password_hash" := by
    apply exists_ok_of_any
    decide
  refine ⟨by decide, fragment, hfragment, r, hr, ⟨1, "members"⟩, hrow, ?_, ?_⟩
  · rw [hcolumn]
    decide
  · exact ⟨members, by simp, rfl, rfl⟩

theorem schemaSound_keyholders : SchemaSound [members, keyholders "holders"] where
  names := by decide
  fields := by decide
  ids := by decide

/-- Called `holders`, the same collection reads none, in any of the statements. -/
theorem credentials_unreachable_holders :
    ∃ context, FilterContext.forCollection (keyholders "holders")
        [members, keyholders "holders"] = .ok context ∧
      (∃ fragment, getOneFragment (keyholders "holders") context .all keyExpanded = .ok fragment ∧
        ∀ r ∈ fragment.references [], ¬ ReadsCredential [members, keyholders "holders"] r) ∧
      ∃ plan, ViewBuilder.buildPlan (.object [("source", .string "members")])
        [members, keyholders "holders"] = .ok plan ∧ plan.reads ≠ [] ∧
        ∀ read ∈ plan.reads, ∃ source ∈ [members, keyholders "holders"],
          read.1 = some source.name ∧ ∀ field ∈ source.fields, field.name = read.2 →
            ViewBuilder.isHidden field = false ∧ field.fieldType ≠ .password := by
  obtain ⟨context, hcontext, hone⟩ : ∃ context,
      FilterContext.forCollection (keyholders "holders") [members, keyholders "holders"] =
        .ok context ∧
      isOk (getOneSql (keyholders "holders") context .all keyExpanded) = true := by
    apply exists_ok_of_any
    decide
  obtain ⟨sql, hsql⟩ := isOk_iff.mp hone
  obtain ⟨view, hview⟩ : ∃ view, ViewBuilder.toQuery (.object [("source", .string "members")])
      [members, keyholders "holders"] = .ok view := isOk_iff.mp (by decide)
  obtain ⟨-, -, -, hrecord, hbuilder⟩ :=
    credentials_unreachable_iff schemaSound_keyholders (by simp) hcontext
  obtain ⟨fragment, hfragment, -, hreads⟩ := hrecord _ _ sql hsql
  obtain ⟨plan, hplan, -, hvisible⟩ := hbuilder _ view hview
  refine ⟨context, hcontext, ⟨fragment, hfragment, hreads.mpr ?_⟩, plan, hplan, ?_, hvisible⟩
  · intro _ _ _ _ _ _ hname
    exact absurd (congrArg (fun s => s.toList.head?) hname) (by simp [keyholders])
  · obtain ⟨plan', hplan', hne⟩ : ∃ plan, ViewBuilder.buildPlan
        (.object [("source", .string "members")]) [members, keyholders "holders"] = .ok plan ∧
        plan.reads ≠ [] := by
      apply exists_ok_of_any
      decide
    obtain rfl := Except.ok.inj (hplan.symm.trans hplan')
    exact hne

end LazyPock
