import LazyPock.Schema.Collection
import Mathlib.Data.List.Nodup
import Mathlib.Data.List.Perm.Subperm

/-!
# The view builder

`crates/db/src/view_builder.rs`: the `select` statement of a view collection, generated from a spec
without code. A single relation is joined, a multiple one is aggregated in the select list; what may
be selected and sorted by is looked up in the fields of its collection, and a hidden or password
field is refused.

## Main definitions

* `ViewBuilder.Plan`: a validated spec.
* `ViewBuilder.buildPlan`, `ViewBuilder.render`, `ViewBuilder.toQuery`.
* `ViewBuilder.Plan.reads`: the columns a plan selects and sorts by, with their tables.
* `ViewBuilder.Visible`: a column that a spec may read.

## Main results

* `ViewBuilder.nodup_uniquifyAliases`: the output names are distinct.
* `ViewBuilder.visible_of_reads`: a plan reads visible columns only.
-/

namespace LazyPock.ViewBuilder

open Text List

/-- A declared relation, resolved against the provided collections. -/
structure Relation where
  /-- The name the spec refers to it by. -/
  aliasName : String
  /-- The relation field on the base collection. -/
  field : String
  /-- The target collection's name. -/
  target : String
  /-- Whether the field can hold more than one target row. -/
  multi : Bool

/-- Where an output column comes from. -/
inductive Origin where
  /-- A column on the base collection. -/
  | base
  /-- A column on a declared relation, by its index in the plan. -/
  | related (index : Nat)
deriving DecidableEq

/-- One selected column. -/
structure Output where
  origin : Origin
  /-- The column name on the collection it comes from. -/
  name : String
  /-- The name it is emitted as, after de-duplication. -/
  aliasName : String

inductive Direction where
  | asc
  | desc

/-- A validated spec, ready to render. -/
structure Plan where
  source : String
  relations : List Relation
  fields : List Output
  sort : List (Direction × String)
  limit : Option Int

/-! ### Names -/

/-- Whether a name is safe to quote as an identifier. -/
def isIdentifier (name : String) : Bool :=
  match name.toList with
  | [] => false
  | first :: rest =>
    (isAsciiAlphabetic first || first = '_') &&
      rest.all fun c => isAsciiAlphanumeric c || c = '_'

/-- Check a name that is already known to be a string. -/
def validateName (name label : String) : Result String := do
  failIf (¬ isIdentifier name) (.invalid (label ++ " '" ++ name ++
    "' must start with a letter or underscore and contain only letters, digits, and underscores"))
  .ok name

/-- Check an identifier, or explain what an identifier has to look like. -/
def validateIdentifier (value : Option Json) (label : String) : Result String := do
  let name ← okOr (.invalid (label ++ " is required")) (value.bind Json.asStr)
  validateName name label

/-- Find a collection by name. -/
def find (collections : List Collection) (name : String) : Option Collection :=
  collections.find? fun collection => collection.name = name

/-- Read a required collection name and resolve it. -/
def fetchCollection (collections : List Collection) (value : Option Json) (label : String) :
    Result Collection := do
  let name := (value.bind Json.asStr).getD ""
  failIf (name = "") (.invalid (label ++ " is required"))
  okOr (.invalid (label ++ " '" ++ name ++ "' does not exist")) (find collections name)

/-! ### Relations -/

/-- The relation field the spec named, which must exist and must be a relation. -/
def fetchRelationField (source : Collection) (value : Option Json) : Result Field := do
  let name := (value.bind Json.asStr).getD ""
  let field ← okOr (.invalid ("relation field '" ++ name ++ "' does not exist on '" ++
    source.name ++ "'")) (source.field name)
  failIf (field.fieldType ≠ .relation) (.invalid ("field '" ++ field.name ++ "' on '" ++
    source.name ++ "' is not a relation"))
  .ok field

/-- The collection a relation field points at. -/
def relationTarget (field : Field) : Result String :=
  okOr (.invalid ("relation field '" ++ field.name ++ "' has no target collection"))
    (((field.options.get "collection").bind Json.asStr).filter fun name => name ≠ "")

/-- Whether a relation holds more than one row, which decides join or aggregate. -/
def isMultiRelation (field : Field) : Bool :=
  ((field.options.get "maxSelect").bind Json.asI64).any fun max => 1 < max

/-- One declared relation, behind those declared before it. -/
def buildRelation (source : Collection) (collections : List Collection) (relations : List Relation)
    (item : Json) : Result Relation := do
  let aliasName ← validateIdentifier (item.get "alias") "relation alias"
  failIf (aliasName = source.name) (.invalid ("relation alias '" ++ aliasName ++
    "' conflicts with the source collection name"))
  failIf (relations.any fun relation => relation.aliasName = aliasName)
    (.invalid ("duplicate relation alias '" ++ aliasName ++ "'"))
  let field ← fetchRelationField source (item.get "field")
  let target ← relationTarget field
  failIf (find collections target).isNone
    (.invalid ("relation target '" ++ target ++ "' does not exist"))
  .ok ⟨aliasName, field.name, target, isMultiRelation field⟩

def buildRelations (value : Option Json) (source : Collection) (collections : List Collection) :
    Result (List Relation) :=
  match value with
  | none => .ok []
  | some value => do
    let items ← okOr (.invalid "relations must be a list") value.asArray
    items.foldlM (fun relations item => do
      let relation ← buildRelation source collections relations item
      .ok (relations ++ [relation])) []

/-! ### Fields -/

/-- Whether a field is hidden from the API. -/
def isHidden (field : Field) : Bool := ((field.options.get "hidden").bind Json.asBool).getD false

/-- A column the spec may select, or the reason it may not. -/
def fetchColumn (collection : Collection) (name : Option String) (label : String) :
    Result String := do
  let name ← okOr (.invalid (label ++ " name is required on '" ++ collection.name ++ "'")) name
  -- The built-in `id` is always selectable and is not in `fields`.
  if name = "id" then .ok "id"
  else do
    let field ← okOr (.invalid (label ++ " '" ++ name ++ "' does not exist on '" ++
      collection.name ++ "'")) (collection.field name)
    failIf (isHidden field) (.invalid (label ++ " '" ++ name ++ "' is hidden"))
    failIf (field.fieldType = .password)
      (.invalid (label ++ " '" ++ name ++ "' is a password field"))
    .ok field.name

/-- The output name: what the spec asked for, or the default. -/
def outputAlias (value : Option Json) (default : String) : Result String :=
  match value with
  | none | some .null => validateName default "output column name"
  | some (.string name) =>
    -- An empty name means "not given", the same as omitting it.
    validateName (if name = "" then default else name) "output column name"
  | some _ => .error (.invalid "output column name must be a string")

def buildField (source : Collection) (relations : List Relation) (collections : List Collection)
    (item : Json) : Result Output := do
  let fieldSource := ((item.get "source").bind Json.asStr).getD source.name
  let name := (item.get "name").bind Json.asStr
  if fieldSource = source.name then do
    let column ← fetchColumn source name "field"
    let aliasName ← outputAlias (item.get "as") column
    .ok ⟨.base, column, aliasName⟩
  else do
    let index ← okOr (.invalid ("unknown field source '" ++ fieldSource ++ "'"))
      (relations.findIdx? fun relation => relation.aliasName = fieldSource)
    let relation ← okOr (.internal "an index into the relations") relations[index]?
    let target ← okOr (.invalid ("relation target '" ++ relation.target ++ "' does not exist"))
      (find collections relation.target)
    let column ← fetchColumn target name "related field"
    let aliasName ← outputAlias (item.get "as") (relation.field ++ "_" ++ column)
    .ok ⟨.related index, column, aliasName⟩

def buildFields (value : Option Json) (source : Collection) (relations : List Relation)
    (collections : List Collection) : Result (List Output) :=
  match value with
  | none => .ok []
  | some value => do
    let items ← okOr (.invalid "fields must be a list") value.asArray
    items.mapM (buildField source relations collections)

/-- The `id` column is injected when the spec does not ask for it. -/
def ensureId (fields : List Output) : List Output :=
  if fields.any fun field => field.origin = .base && field.name = "id" && field.aliasName = "id" then
    fields
  else ⟨.base, "id", "id"⟩ :: fields

/-- The first of the candidates from `suffix` on that is not used, in at most `fuel` steps. -/
def freeCandidate (base : String) (used : List String) : (fuel suffix : Nat) → String → String
  | 0, _, candidate => candidate
  | fuel + 1, suffix, candidate =>
    if candidate ∈ used then
      freeCandidate base used fuel (suffix + 1) (base ++ "_" ++ toString suffix)
    else candidate

/-- `base`, `base_2`, `base_3`, …: the first that is not used. One of the first `used.length + 1`
candidates is not. -/
def freeAlias (base : String) (used : List String) : String :=
  freeCandidate base used used.length 2 base

/-- Rename output collisions. -/
def uniquifyAliases : (used : List String) → List Output → List Output
  | _, [] => []
  | used, field :: fields =>
    let aliasName := freeAlias field.aliasName used
    { field with aliasName := aliasName } :: uniquifyAliases (used ++ [aliasName]) fields

/-! ### Sort and limit -/

/-- The direction and the name of one sort key. -/
def splitKey (token : String) : Direction × String :=
  match stripPrefix "-" token with
  | some rest => (.desc, rest)
  | none => (.asc, (stripPrefix "+" token).getD token)

def buildSort (value : Option Json) (source : Collection) :
    Result (List (Direction × String)) :=
  match value with
  | none | some .null => .ok []
  | some value => do
    let sort ← okOr (.invalid "sort must be a string") value.asStr
    (((splitOn ',' sort).map trim).filter fun token => token ≠ "").mapM fun token => do
      let (direction, name) := splitKey token
      let column ← fetchColumn source (some (trim name)) "sort field"
      .ok (direction, column)

def buildLimit (value : Option Json) : Result (Option Int) :=
  match value with
  | none | some .null => .ok none
  | some value =>
    match value.asI64 with
    | some limit =>
      if 0 < limit then .ok (some limit) else .error (.invalid "limit must be a positive integer")
    | none => .error (.invalid "limit must be a positive integer")

/-- The plan of a spec. -/
def buildPlan (spec : Json) (collections : List Collection) : Result Plan := do
  failIf (¬ spec.isObject) (.invalid "the view builder spec must be an object")
  let source ← fetchCollection collections (spec.get "source") "source collection"
  let relations ← buildRelations (spec.get "relations") source collections
  let fields ← buildFields (spec.get "fields") source relations collections
  let sort ← buildSort (spec.get "sort") source
  let limit ← buildLimit (spec.get "limit")
  .ok ⟨source.name, relations, uniquifyAliases [] (ensureId fields), sort, limit⟩

/-! ### Rendering -/

/-- One output column as an expression. -/
def selectExpr (plan : Plan) (field : Output) : String :=
  let column := fun table name => Sql.quoteIdent table ++ "." ++ Sql.quoteIdent name
  match field.origin with
  | .base => column plan.source field.name
  | .related index =>
    match plan.relations[index]? with
    | none => ""
    | some relation =>
      if relation.multi then
        "(SELECT COALESCE(jsonb_agg(" ++ column "_agg" field.name ++ " ORDER BY " ++
          column "_agg" "id" ++ "), '[]'::jsonb) FROM " ++ Sql.quoteIdent relation.target ++
          " AS " ++ Sql.quoteIdent "_agg" ++ " WHERE " ++ column "_agg" "id" ++ "::text = ANY(" ++
          column plan.source relation.field ++ "))"
      else column relation.aliasName field.name

/-- The join of a single relation. -/
def joinLine (plan : Plan) (relation : Relation) : String :=
  "LEFT JOIN " ++ Sql.quoteIdent relation.target ++ " AS " ++ Sql.quoteIdent relation.aliasName ++
    " ON " ++ Sql.quoteIdent relation.aliasName ++ "." ++ Sql.quoteIdent "id" ++ "::text = " ++
    Sql.quoteIdent plan.source ++ "." ++ Sql.quoteIdent relation.field

def sortKey (plan : Plan) (key : Direction × String) : String :=
  Sql.quoteIdent plan.source ++ "." ++ Sql.quoteIdent key.2 ++ " " ++
    match key.1 with
    | .asc => "ASC"
    | .desc => "DESC"

/-- The statement of a plan. -/
def render (plan : Plan) : String :=
  let selected := plan.fields.map fun field =>
    "    " ++ selectExpr plan field ++ " AS " ++ Sql.quoteIdent field.aliasName
  join "\n" (["SELECT"] ++
    selected.zipIdx.map (fun (line, index) =>
      line ++ if index = selected.length - 1 then "" else ",") ++
    ["FROM " ++ Sql.quoteIdent plan.source] ++
    (plan.relations.filter fun relation => !relation.multi).map (joinLine plan) ++
    (if plan.sort.isEmpty then [] else ["ORDER BY " ++ join ", " (plan.sort.map (sortKey plan))]) ++
    match plan.limit with
    | some limit => ["LIMIT " ++ toString limit]
    | none => [])

/-- Generate the view SQL for a spec. -/
def toQuery (spec : Json) (collections : List Collection) : Result String := do
  let plan ← buildPlan spec collections
  .ok (render plan)

/-! ### Output names -/

theorem freeCandidate_mem {base : String} {used : List String} {fuel suffix : ℕ}
    {candidate : String} (h : freeCandidate base used fuel suffix candidate ∈ used) :
    candidate ∈ used ∧ ∀ i < fuel, base ++ "_" ++ toString (suffix + i) ∈ used := by
  induction fuel generalizing suffix candidate with
  | zero => exact ⟨h, fun i hi => absurd hi (Nat.not_lt_zero i)⟩
  | succ fuel ih =>
    rw [freeCandidate] at h
    split at h
    next hused =>
      obtain ⟨hfirst, hrest⟩ := ih h
      refine ⟨hused, fun i hi => ?_⟩
      cases i with
      | zero => exact hfirst
      | succ i =>
        have := hrest i (by omega)
        rwa [show suffix + 1 + i = suffix + (i + 1) by omega] at this
    next hfree => exact absurd h hfree

/-- **The alias given to a column is free**: as many candidates as there are names, and one more,
cannot all be used. -/
theorem freeAlias_notMem (base : String) (used : List String) : freeAlias base used ∉ used := by
  intro h
  obtain ⟨hbase, hothers⟩ := freeCandidate_mem h
  let candidates := base :: (List.range used.length).map fun i => base ++ "_" ++ toString (2 + i)
  have hnodup : candidates.Nodup := by
    refine nodup_cons.mpr ⟨fun hmem => ?_, ?_⟩
    · obtain ⟨i, -, hi⟩ := mem_map.mp hmem
      have := congrArg (fun s : String => s.toList.length) hi
      simp at this
    · refine List.Nodup.map (fun i j hij => ?_) nodup_range
      exact Nat.add_left_cancel (append_toString_inj.mp hij)
  have hsubset : candidates ⊆ used := by
    intro candidate hcandidate
    rcases mem_cons.mp hcandidate with rfl | hmem
    · exact hbase
    · obtain ⟨i, hi, rfl⟩ := mem_map.mp hmem
      exact hothers i (mem_range.mp hi)
  have hlength := (hnodup.subperm hsubset).length_le
  simp only [candidates, length_cons, length_map, length_range] at hlength
  omega

/-- The output names are distinct, and none is one used before. -/
theorem nodup_uniquifyAliases (used : List String) (fields : List Output) :
    ((uniquifyAliases used fields).map Output.aliasName).Nodup ∧
      ∀ field ∈ uniquifyAliases used fields, field.aliasName ∉ used := by
  induction fields generalizing used with
  | nil => exact ⟨nodup_nil, fun _ h => absurd h not_mem_nil⟩
  | cons field fields ih =>
    obtain ⟨hnodup, hfresh⟩ := ih (used ++ [freeAlias field.aliasName used])
    rw [uniquifyAliases, map_cons, nodup_cons, forall_mem_cons]
    refine ⟨⟨fun hmem => ?_, hnodup⟩, freeAlias_notMem _ _, fun other hother hused =>
      hfresh other hother (mem_append_left _ hused)⟩
    obtain ⟨other, hother, hname⟩ := mem_map.mp hmem
    refine hfresh other hother (mem_append_right _ ?_)
    rw [hname]
    exact mem_singleton_self _

/-! ### Visible columns -/

/-- A column that a spec may read: `id`, or a field that is neither hidden nor a password. -/
def Visible (collection : Collection) (column : String) : Prop :=
  column = "id" ∨ ∃ field, collection.field column = some field ∧ isHidden field = false ∧
    field.fieldType ≠ .password

/-- The table an output column is read from. -/
def Plan.table? (plan : Plan) : Origin → Option String
  | .base => some plan.source
  | .related index => plan.relations[index]?.map Relation.target

/-- The columns a plan selects and sorts by, with their tables; an aggregate sorts by its `id`. -/
def Plan.reads (plan : Plan) : List (Option String × String) :=
  plan.fields.map (fun field => (plan.table? field.origin, field.name)) ++
    plan.fields.map (fun field => (plan.table? field.origin, "id")) ++
    plan.sort.map fun key => (some plan.source, key.2)

theorem visible_of_fetchColumn {collection : Collection} {name : Option String} {label column : String}
    (h : fetchColumn collection name label = .ok column) : Visible collection column := by
  obtain ⟨name, -, h⟩ := bind_eq_ok.mp h
  split at h
  · exact .inl (Except.ok.inj h).symm
  · obtain ⟨field, hfield, h⟩ := bind_eq_ok.mp h
    obtain ⟨_, hhidden, h⟩ := bind_eq_ok.mp h
    obtain ⟨_, hpassword, h⟩ := bind_eq_ok.mp h
    cases h
    have hfield := okOr_eq_ok.mp hfield
    have hname : field.name = name := by
      have := List.find?_some hfield
      simpa using this
    refine .inr ⟨field, ?_, ?_, failIf_eq_ok.mp hpassword⟩
    · rw [hname, hfield]
    · simpa using failIf_eq_ok.mp hhidden

section Plans

variable {collections : List Collection} {source : Collection} {relations : List Relation}

theorem mem_of_find {name : String} {collection : Collection}
    (h : find collections name = some collection) :
    collection ∈ collections ∧ collection.name = name :=
  ⟨mem_of_find?_eq_some h, by simpa using List.find?_some h⟩

/-- An output column is read from its collection. -/
def Output.ReadsFrom (collections : List Collection) (source : Collection)
    (relations : List Relation) (output : Output) : Prop :=
  match output.origin with
  | .base => Visible source output.name
  | .related index => ∃ relation collection, relations[index]? = some relation ∧
      collection ∈ collections ∧ collection.name = relation.target ∧
      Visible collection output.name

theorem readsFrom_of_buildField {item : Json} {output : Output}
    (h : buildField source relations collections item = .ok output) :
    output.ReadsFrom collections source relations := by
  unfold buildField at h
  dsimp only at h
  split at h
  · obtain ⟨column, hcolumn, h⟩ := bind_eq_ok.mp h
    obtain ⟨aliasName, -, h⟩ := bind_eq_ok.mp h
    cases h
    exact visible_of_fetchColumn hcolumn
  · obtain ⟨index, -, h⟩ := bind_eq_ok.mp h
    obtain ⟨relation, hrelation, h⟩ := bind_eq_ok.mp h
    obtain ⟨target, htarget, h⟩ := bind_eq_ok.mp h
    obtain ⟨column, hcolumn, h⟩ := bind_eq_ok.mp h
    obtain ⟨aliasName, -, h⟩ := bind_eq_ok.mp h
    cases h
    obtain ⟨hmem, hname⟩ := mem_of_find (okOr_eq_ok.mp htarget)
    exact ⟨relation, target, okOr_eq_ok.mp hrelation, hmem, hname, visible_of_fetchColumn hcolumn⟩

theorem readsFrom_of_buildFields {value : Option Json} {outputs : List Output}
    (h : buildFields value source relations collections = .ok outputs) :
    ∀ output ∈ outputs, output.ReadsFrom collections source relations := by
  cases value with
  | none =>
    cases h
    simp
  | some value =>
    obtain ⟨items, -, h⟩ := bind_eq_ok.mp h
    intro output houtput
    obtain ⟨item, -, hitem⟩ := exists_of_mapM h houtput
    exact readsFrom_of_buildField hitem

theorem readsFrom_ensureId {outputs : List Output}
    (h : ∀ output ∈ outputs, output.ReadsFrom collections source relations) :
    ∀ output ∈ ensureId outputs, output.ReadsFrom collections source relations := by
  unfold ensureId
  split
  · exact h
  · exact forall_mem_cons.mpr ⟨.inl rfl, h⟩

theorem readsFrom_uniquifyAliases {outputs : List Output}
    (h : ∀ output ∈ outputs, output.ReadsFrom collections source relations) (used : List String) :
    ∀ output ∈ uniquifyAliases used outputs, output.ReadsFrom collections source relations := by
  induction outputs generalizing used with
  | nil => exact h
  | cons field fields ih =>
    obtain ⟨hfield, hfields⟩ := forall_mem_cons.mp h
    exact forall_mem_cons.mpr ⟨hfield, ih hfields _⟩

theorem visible_of_buildSort {value : Option Json} {sort : List (Direction × String)}
    (h : buildSort value source = .ok sort) : ∀ key ∈ sort, Visible source key.2 := by
  have hnone : (.ok [] : Result (List (Direction × String))) = .ok sort →
      ∀ key ∈ sort, Visible source key.2 := fun h => by
    cases h
    simp
  match value with
  | none => exact hnone h
  | some .null => exact hnone h
  | some (.bool _) | some (.number _) | some (.array _) | some (.object _) => cases h
  | some (.string text) =>
    intro key hkey
    obtain ⟨token, -, htoken⟩ := exists_of_mapM h hkey
    obtain ⟨column, hcolumn, htoken⟩ := bind_eq_ok.mp htoken
    cases htoken
    exact visible_of_fetchColumn hcolumn

/-- **A plan reads visible columns only**: each column it selects or sorts by is one of its
collection's that a spec may read. -/
theorem visible_of_reads {spec : Json} {plan : Plan} (h : buildPlan spec collections = .ok plan) :
    ∀ read ∈ plan.reads, ∃ collection ∈ collections, read.1 = some collection.name ∧
      Visible collection read.2 := by
  obtain ⟨_, -, h⟩ := bind_eq_ok.mp h
  obtain ⟨source, hsource, h⟩ := bind_eq_ok.mp h
  obtain ⟨relations, -, h⟩ := bind_eq_ok.mp h
  obtain ⟨fields, hfields, h⟩ := bind_eq_ok.mp h
  obtain ⟨sort, hsort, h⟩ := bind_eq_ok.mp h
  obtain ⟨limit, -, h⟩ := bind_eq_ok.mp h
  cases h
  obtain ⟨_, -, hfind⟩ := bind_eq_ok.mp hsource
  obtain ⟨hmem, -⟩ := mem_of_find (okOr_eq_ok.mp hfind)
  have houtputs := readsFrom_uniquifyAliases (readsFrom_ensureId (readsFrom_of_buildFields hfields)) []
  have htable : ∀ field ∈ uniquifyAliases [] (ensureId fields), ∃ collection ∈ collections,
      Plan.table? ⟨source.name, relations, uniquifyAliases [] (ensureId fields), sort, limit⟩
        field.origin = some collection.name ∧ Visible collection field.name := by
    intro field hfield
    have hreads := houtputs field hfield
    unfold Output.ReadsFrom at hreads
    cases horigin : field.origin with
    | base =>
      rw [horigin] at hreads
      exact ⟨source, hmem, rfl, hreads⟩
    | related index =>
      rw [horigin] at hreads
      obtain ⟨relation, collection, hrelation, hcollection, hname, hvisible⟩ := hreads
      refine ⟨collection, hcollection, ?_, hvisible⟩
      simp only [Plan.table?, hrelation, Option.map_some, hname]
  intro read hread
  simp only [Plan.reads, mem_append, mem_map] at hread
  rcases hread with (⟨field, hfield, rfl⟩ | ⟨field, hfield, rfl⟩) | ⟨key, hkey, rfl⟩
  · exact htable field hfield
  · obtain ⟨collection, hcollection, hname, -⟩ := htable field hfield
    exact ⟨collection, hcollection, hname, .inl rfl⟩
  · exact ⟨source, hmem, rfl, visible_of_buildSort hsort key hkey⟩

end Plans

end LazyPock.ViewBuilder
