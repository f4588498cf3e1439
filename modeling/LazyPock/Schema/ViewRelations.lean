import LazyPock.Query.ExpandDepth
import LazyPock.Schema.ViewBuilder

/-!
# Relations of the view builder

The view builder (`crates/db/src/view_builder.rs`) has its own readers for the options of a relation
field. It looks for the target under `collection` only and takes it for a name, where the rest of the
server also reads `collectionId` and accepts ids (`crates/db/src/types.rs`). It reads `maxSelect` as a
signed integer, where the rest reads an unsigned one.

## Main definitions

* `resolvedCollection`: the collection that a relation field points at.
* `ViewBuilder.namedTarget`: the name that the view builder reads.
* `ViewBuilder.ReadAlike`: options that both read alike.

## Main results

* `ViewBuilder.buildRelation_eq`: what the view builder makes of a field.
* `FilterContext.lookup_relation_eq`: what a context makes of it.
* `view_relation_iff`.
-/

namespace LazyPock

/-- The collection that a relation field points at, by id or by name. -/
def resolvedCollection (collections : List Collection) (options : Json) : Option Collection := do
  let targetId ← relationTarget options
  collections.find? fun candidate => candidate.id = targetId || candidate.name = targetId

/-- A field is found under its name. -/
theorem field_of_mem {collection : Collection} {field : Field}
    (hnodup : (collection.fields.map Field.name).Nodup) (hfield : field ∈ collection.fields) :
    collection.field field.name = some field := by
  obtain ⟨other, hother⟩ : ∃ other, collection.field field.name = some other :=
    Option.isSome_iff_exists.mp (List.find?_isSome.mpr ⟨field, hfield, by simp⟩)
  have hname : other.name = field.name := by simpa using List.find?_some hother
  rw [hother, List.inj_on_of_nodup_map hnodup (List.mem_of_find?_eq_some hother) hfield hname]

/-! ### The context's reading -/

namespace FilterContext

variable {collections : List Collection} {source : Collection} {context : FilterContext}

/-- **What a context makes of a relation field.** -/
theorem lookup_relation_eq {field : Field} (hnames : WellNamed source)
    (hcontext : forCollection source collections = .ok context) (hfield : field ∈ source.fields)
    (htype : field.fieldType = .relation) :
    (Assoc.lookup field.name context.relations).map (fun entry => (entry.table, entry.multiple)) =
      (resolvedCollection collections field.options).map fun target =>
        (target.name, field.isMultiple) := by
  unfold forCollection build at hcontext
  obtain ⟨columns, -, hbuild⟩ := bind_eq_ok.mp hcontext
  obtain ⟨entry, hentry, hlookup⟩ := lookup_relations_of_mem hbuild hnames.nodup hfield
    (hnames.relation field hfield htype)
  rw [relationEntry, if_neg (not_not.mpr htype)] at hentry
  obtain ⟨targetId, hid, hentry⟩ := bind_eq_ok.mp hentry
  rw [hlookup, resolvedCollection, okOr_eq_ok.mp hid]
  simp only [Option.bind_eq_bind, Option.bind_some]
  cases hfind : collections.find? fun c => c.id = targetId || c.name = targetId with
  | none =>
    rw [hfind, Except.ok.injEq] at hentry
    rw [← hentry]
    rfl
  | some target =>
    rw [hfind] at hentry
    obtain ⟨below, -, hentry⟩ := bind_eq_ok.mp hentry
    obtain rfl := Except.ok.inj hentry
    rfl

end FilterContext

/-! ### The view builder's reading -/

namespace ViewBuilder

/-- The name that the view builder reads as a target. -/
def namedTarget (options : Json) : Option String :=
  ((options.get "collection").bind Json.asStr).filter fun name => name ≠ ""

/-- A declared relation over a field, under a name that is free. -/
structure Declares (source : Collection) (relations : List Relation) (item : Json) (field : Field) :
    Prop where
  aliasName : ∃ name, item.get "alias" = some (.string name) ∧ isIdentifier name = true ∧
    name ≠ source.name ∧ ∀ relation ∈ relations, relation.aliasName ≠ name
  field : item.get "field" = some (.string field.name)

variable {collections : List Collection} {source : Collection} {relations : List Relation}
  {item : Json} {field : Field}

/-- **What the view builder makes of a relation field.** -/
theorem buildRelation_eq (hfield : source.field field.name = some field)
    (htype : field.fieldType = .relation) (hitem : Declares source relations item field) :
    (buildRelation source collections relations item).toOption.map
        (fun relation => (relation.target, relation.multi)) =
      ((namedTarget field.options).filter fun name => (find collections name).isSome).map
        fun name => (name, isMultiRelation field) := by
  obtain ⟨⟨name, halias, hname, hsource, hfree⟩, hread⟩ := hitem
  have hidentifier : validateIdentifier (item.get "alias") "relation alias" = .ok name := by
    rw [halias, validateIdentifier]
    exact show (do let name ← okOr _ (some name); validateName name _) = _ by
      simp [okOr, validateName, hname, failIf, bind, Except.bind]
  have hfetch : fetchRelationField source (item.get "field") = .ok field := by
    rw [hread, fetchRelationField]
    simp [Json.asStr, hfield, htype, okOr, failIf, bind, Except.bind]
  have hfresh : ¬ (relations.any fun relation => relation.aliasName = name) = true := by
    simpa using hfree
  rw [buildRelation, hidentifier, hfetch]
  simp only [bind, Except.bind, failIf, if_neg hsource, if_neg hfresh]
  change (relationTarget field >>= _).toOption.map _ = _
  rw [relationTarget, ← namedTarget]
  cases hnamed : namedTarget field.options with
  | none => rfl
  | some target =>
    simp only [okOr, bind, Except.bind, Option.filter_some]
    cases find collections target <;> rfl

/-- Where both readings of `maxSelect` are the same. -/
theorem isMultiRelation_eq_iff :
    isMultiRelation field = field.isMultiple ↔
      ∀ n, optionU64 field.options "maxSelect" = some n → n < 2 ^ 63 := by
  unfold isMultiRelation Field.isMultiple isMultiple optionU64
  cases field.options.get "maxSelect" with
  | none => simp
  | some value =>
    cases value with
    | null | bool | string | array | object => simp [Json.asI64, Json.asU64]
    | number n =>
      cases n with
      | posInt n =>
        by_cases hn : n < 9223372036854775808
        · simp only [Option.bind_some, Json.asI64, Json.asU64, Nat.reducePow, hn, ↓reduceIte,
            Option.any_some, Option.getD_some, Option.some.injEq, forall_eq', iff_true]
          exact decide_eq_decide.mpr Nat.one_lt_cast
        · have hone : 1 < n := by omega
          simp [Json.asI64, Json.asU64, hn, hone]
      | negInt n =>
        simp [Json.asI64, Json.asU64]
        omega
      | float x => simp [Json.asI64, Json.asU64]

/-- **Options that both read alike**: either both resolve no target, or the field names its target
under `collection` and `maxSelect` is a signed integer where it is one. -/
def ReadAlike (collections : List Collection) (field : Field) : Prop :=
  match resolvedCollection collections field.options with
  | none => ∀ name, namedTarget field.options = some name → find collections name = none
  | some target => namedTarget field.options = some target.name ∧
      ∀ n, optionU64 field.options "maxSelect" = some n → n < 2 ^ 63

end ViewBuilder

section Readings

open ViewBuilder

/-- **When the view builder resolves a relation as a context does.** -/
theorem view_relation_iff {collections : List Collection} {source : Collection}
    {context : FilterContext} {relations : List ViewBuilder.Relation} {item : Json} {field : Field}
    (hnames : WellNamed source)
    (hcontext : FilterContext.forCollection source collections = .ok context)
    (hfield : field ∈ source.fields) (htype : field.fieldType = .relation)
    (hitem : Declares source relations item field) :
    (buildRelation source collections relations item).toOption.map
        (fun relation => (relation.target, relation.multi)) =
      (Assoc.lookup field.name context.relations).map (fun entry => (entry.table, entry.multiple)) ↔
      ReadAlike collections field := by
  have hread : source.field field.name = some field := field_of_mem hnames.nodup hfield
  rw [buildRelation_eq hread htype hitem, FilterContext.lookup_relation_eq hnames hcontext hfield htype,
    ReadAlike]
  cases hresolved : resolvedCollection collections field.options with
  | none =>
    simp only [Option.map_none, Option.map_eq_none_iff, Option.filter_eq_none_iff,
      Option.not_isSome_iff_eq_none]
  | some target =>
    have hmem : target ∈ collections := by
      obtain ⟨_, -, hfind⟩ := Option.bind_eq_some_iff.mp hresolved
      exact List.mem_of_find?_eq_some hfind
    have hfind : (find collections target.name).isSome = true :=
      List.find?_isSome.mpr ⟨target, hmem, by simp⟩
    simp only [Option.map_some, Option.map_eq_some_iff, Option.filter_eq_some_iff, Prod.mk.injEq]
    rw [← isMultiRelation_eq_iff]
    constructor
    · rintro ⟨name, ⟨hnamed, -⟩, rfl, hmulti⟩
      exact ⟨hnamed, hmulti⟩
    · rintro ⟨hnamed, hmulti⟩
      exact ⟨target.name, ⟨hnamed, hfind⟩, rfl, hmulti⟩

end Readings

section Spellings

/-- A collection of people with a manager, whose target is spelled in some way. -/
def managed (options : List (String × Json)) : Collection where
  id := "c_people"
  name := "people"
  collectionType := .base
  options := .object []
  rules := .object []
  fields := [⟨"manager", "c_people", "manager", .relation, false, false, .object options, 0⟩]

theorem wellNamed_managed (options : List (String × Json)) : WellNamed (managed options) := by
  have hvalid : validateIdentifier "field name" "manager" = .ok () := by decide
  refine ⟨List.nodup_singleton _, fun field hfield => ?_, fun field _ _ hcredential => ?_⟩
  · rw [List.mem_singleton.mp hfield]
    exact hvalid
  · cases hcredential.1

/-- A declared relation over the manager. -/
def boss : Json := .object [("alias", .string "boss"), ("field", .string "manager")]

theorem declares_boss (options : List (String × Json)) (field : Field)
    (hfield : field ∈ (managed options).fields) :
    ViewBuilder.Declares (managed options) [] boss field := by
  rw [List.mem_singleton.mp hfield]
  exact ⟨⟨"boss", rfl, by decide, by simp [managed], by simp⟩, rfl⟩

theorem view_relation_iff_named :
    ∃ context, FilterContext.forCollection (managed [("collection", .string "people")])
        [managed [("collection", .string "people")]] = .ok context ∧
      ∀ field ∈ (managed [("collection", .string "people")]).fields,
        ((ViewBuilder.buildRelation (managed [("collection", .string "people")])
            [managed [("collection", .string "people")]] [] boss).toOption.map
            (fun relation => (relation.target, relation.multi)) =
          (Assoc.lookup field.name context.relations).map
            (fun entry => (entry.table, entry.multiple)) ↔
          ViewBuilder.ReadAlike [managed [("collection", .string "people")]] field) := by
  obtain ⟨context, hcontext⟩ := isOk_iff.mp
    (by decide : isOk (FilterContext.forCollection (managed [("collection", .string "people")])
      [managed [("collection", .string "people")]]) = true)
  refine ⟨context, hcontext, fun field hfield => ?_⟩
  have htype : field.fieldType = .relation := by
    rw [List.mem_singleton.mp hfield]
  exact view_relation_iff (wellNamed_managed _) hcontext hfield htype (declares_boss _ field hfield)

/-- **A relation the view builder refuses**: its target is spelled `collectionId`. -/
theorem view_relation_by_id :
    ¬ ∀ (collections : List Collection) (source : Collection) (context : FilterContext)
      (relations : List ViewBuilder.Relation) (item : Json) (field : Field), WellNamed source →
      FilterContext.forCollection source collections = .ok context → field ∈ source.fields →
      field.fieldType = .relation → ViewBuilder.Declares source relations item field →
      (ViewBuilder.buildRelation source collections relations item).toOption.map
          (fun relation => (relation.target, relation.multi)) =
        (Assoc.lookup field.name context.relations).map
          (fun entry => (entry.table, entry.multiple)) := by
  intro hall
  obtain ⟨context, hcontext, hfound⟩ := exists_ok_of_any
    (x := FilterContext.forCollection (managed [("collectionId", .string "c_people")])
      [managed [("collectionId", .string "c_people")]])
    (P := fun context => (Assoc.lookup "manager" context.relations).isSome = true)
    (by decide)
  have hrefused : (ViewBuilder.buildRelation (managed [("collectionId", .string "c_people")])
      [managed [("collectionId", .string "c_people")]] [] boss).toOption.isNone = true := by
    decide
  have hsame := hall _ _ context [] boss _ (wellNamed_managed _) hcontext List.mem_cons_self rfl
    (declares_boss _ _ List.mem_cons_self)
  rw [Option.isNone_iff_eq_none.mp hrefused] at hsame
  rw [Option.map_none, eq_comm, Option.map_eq_none_iff] at hsame
  rw [hsame] at hfound
  cases hfound

end Spellings

end LazyPock
