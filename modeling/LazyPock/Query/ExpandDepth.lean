import LazyPock.Query.Columns
import LazyPock.Query.Expansion

/-!
# How deep an expansion goes

Three limits meet in an `expand` path. The context of a collection is built to `MAX_PATH_DEPTH` levels
of relations, the parser refuses a path of more than `MAX_EXPAND_DEPTH` segments, and the document is
built to one level more than that. A path through existing relations is looked up in the context
first, so it is refused as soon as it leaves the levels that were built.

## Main definitions

* `relatedCollection`, `leadsTo`: the collections that relation fields lead to.
* `WellNamed`: what validated fields are named.

## Main results

* `follow_build_iff`: the paths of a context.
* `exists_objectTree`: the expansions that a document can be built for.
* `expand_depth_iff`.
-/

namespace LazyPock

open Text Sql Assoc

/-! ### Paths in a schema -/

/-- The collection that a relation field of a collection points at. -/
def relatedCollection (all : List Collection) (collection : Collection) (name : String) :
    Option Collection := do
  let field ← collection.field name
  if field.fieldType = .relation then do
    let targetId ← relationTarget field.options
    all.find? fun candidate => candidate.id = targetId || candidate.name = targetId
  else none

/-- The collection that a path of relation fields leads to. -/
def leadsTo (all : List Collection) : Collection → List String → Option Collection :=
  Paths.follow (relatedCollection all)

/-- Fields with distinct valid names, no relation named as a credential of an auth collection. -/
structure WellNamed (collection : Collection) : Prop where
  nodup : (collection.fields.map Field.name).Nodup
  valid : ∀ field ∈ collection.fields, validateIdentifier "field name" field.name = .ok ()
  relation : ∀ field ∈ collection.fields, field.fieldType = .relation →
    ¬ (collection.collectionType.isAuth = true ∧ field.name ∈ credentialColumns)

section Build

variable {all : List Collection} {collection : Collection} {context : FilterContext}

open FilterContext

/-- A field that comes no more leaves the relations as they are. -/
theorem lookup_relations_of_notMem {hop : Option (Collection → Result FilterContext)}
    {fields : List Field} {columns : List (String × String)}
    {relations : List (String × RelationTarget FilterContext)} {name : String}
    (h : buildFields collection hop all fields columns relations = .ok context)
    (hname : name ∉ fields.map Field.name) :
    lookup name context.relations = lookup name relations := by
  induction fields generalizing columns relations with
  | nil =>
    cases h
    rfl
  | cons field rest ih =>
    rw [List.map_cons, List.mem_cons, not_or] at hname
    rw [buildFields] at h
    split at h
    · exact ih h hname.2
    · obtain ⟨columnType, -, h⟩ := bind_eq_ok.mp h
      obtain ⟨entry, -, h⟩ := bind_eq_ok.mp h
      rw [ih h hname.2]
      cases entry with
      | none => rfl
      | some relation => exact lookup_insert_of_ne hname.1 ..

/-- A field that is no credential has the entry of its relation. -/
theorem lookup_relations_of_mem {hop : Option (Collection → Result FilterContext)}
    {fields : List Field} {columns : List (String × String)}
    {relations : List (String × RelationTarget FilterContext)} {field : Field}
    (h : buildFields collection hop all fields columns relations = .ok context)
    (hnodup : (fields.map Field.name).Nodup) (hfield : field ∈ fields)
    (hcredential : ¬ (collection.collectionType.isAuth = true ∧ field.name ∈ credentialColumns)) :
    ∃ entry, relationEntry hop all field = .ok entry ∧
      lookup field.name context.relations = entry.or (lookup field.name relations) := by
  induction fields generalizing columns relations with
  | nil => exact absurd hfield List.not_mem_nil
  | cons first rest ih =>
    rw [List.map_cons, List.nodup_cons] at hnodup
    rw [buildFields] at h
    rcases List.mem_cons.mp hfield with rfl | hfield
    · rw [if_neg (by simpa using hcredential)] at h
      obtain ⟨columnType, -, h⟩ := bind_eq_ok.mp h
      obtain ⟨entry, hentry, h⟩ := bind_eq_ok.mp h
      refine ⟨entry, hentry, ?_⟩
      rw [lookup_relations_of_notMem h hnodup.1]
      cases entry with
      | none => rfl
      | some relation => exact lookup_insert_self ..
    · have hne : field.name ≠ first.name := fun heq =>
        hnodup.1 (heq ▸ List.mem_map_of_mem (f := Field.name) hfield)
      split at h
      · exact ih h hnodup.2 hfield
      · obtain ⟨columnType, -, h⟩ := bind_eq_ok.mp h
        obtain ⟨entry, -, h⟩ := bind_eq_ok.mp h
        obtain ⟨found, hfound, hlookup⟩ := ih h hnodup.2 hfield
        refine ⟨found, hfound, ?_⟩
        rw [hlookup]
        cases entry with
        | none => rfl
        | some relation => exact congrArg _ (lookup_insert_of_ne hne ..)

/-- What a relation field points at. -/
theorem relatedCollection_eq_some {name : String} {target : Collection} :
    relatedCollection all collection name = some target ↔ ∃ field targetId,
      collection.field name = some field ∧ field.fieldType = .relation ∧
        relationTarget field.options = some targetId ∧
        all.find? (fun candidate => candidate.id = targetId || candidate.name = targetId) =
          some target := by
  constructor
  · intro h
    obtain ⟨field, hfield, h⟩ := Option.bind_eq_some_iff.mp h
    split_ifs at h with htype
    obtain ⟨targetId, hid, h⟩ := Option.bind_eq_some_iff.mp h
    exact ⟨field, targetId, hfield, htype, hid, h⟩
  · rintro ⟨field, targetId, hfield, htype, hid, h⟩
    rw [relatedCollection, hfield]
    simp only [Option.bind_eq_bind, Option.bind_some, htype, ↓reduceIte, hid]
    exact h

/-- **The relations of a context** lead where the fields of its collection point, while there are
levels left. -/
theorem lookup_relations_of_build {levels : Nat} {name : String} {target : Collection}
    (hnames : WellNamed collection) (h : build all levels collection = .ok context)
    (htarget : relatedCollection all collection name = some target) :
    match levels with
    | 0 => lookup name context.relations = none
    | levels + 1 => ∃ relation, lookup name context.relations = some relation ∧
        build all levels target = .ok relation.context := by
  obtain ⟨field, targetId, hfield, htype, hid, hfind⟩ := relatedCollection_eq_some.mp htarget
  obtain rfl : field.name = name := by simpa using List.find?_some hfield
  have hmem : field ∈ collection.fields := List.mem_of_find?_eq_some hfield
  have hcredential := hnames.relation field hmem htype
  unfold build at h
  obtain ⟨columns, -, h⟩ := bind_eq_ok.mp h
  cases levels with
  | zero =>
    obtain ⟨entry, hentry, hlookup⟩ := lookup_relations_of_mem h hnames.nodup hmem hcredential
    rw [relationEntry, if_neg (not_not.mpr htype), Except.ok.injEq] at hentry
    rw [hlookup, ← hentry]
    rfl
  | succ levels =>
    obtain ⟨entry, hentry, hlookup⟩ := lookup_relations_of_mem h hnames.nodup hmem hcredential
    rw [relationEntry, if_neg (not_not.mpr htype), hid] at hentry
    simp only [okOr, bind, Except.bind, hfind] at hentry
    cases htargetContext : build all levels target with
    | error e =>
      rw [htargetContext] at hentry
      cases hentry
    | ok below =>
      rw [htargetContext] at hentry
      obtain rfl := Except.ok.inj hentry
      exact ⟨_, hlookup, htargetContext⟩

/-- **The paths of a context**: those of the schema, up to its depth. -/
theorem follow_build_iff {levels : Nat} {path : List String} {last : Collection}
    (hnames : WellNamed collection) (hall : ∀ c ∈ all, WellNamed c)
    (h : build all levels collection = .ok context)
    (hpath : leadsTo all collection path = some last) :
    (context.follow path).isSome = true ↔ path.length ≤ levels := by
  induction path generalizing levels collection context with
  | nil => exact iff_of_true rfl (Nat.zero_le _)
  | cons name rest ih =>
    obtain ⟨target, htarget, hrest⟩ := Paths.follow_cons_eq_some.mp hpath
    have hlookup := lookup_relations_of_build hnames h htarget
    obtain ⟨_, _, -, -, -, hfind⟩ := relatedCollection_eq_some.mp htarget
    have htargetNames := hall target (List.mem_of_find?_eq_some hfind)
    rw [FilterContext.follow, Paths.follow_cons]
    cases levels with
    | zero =>
      rw [hlookup]
      simp
    | succ levels =>
      obtain ⟨relation, hrelation, hbuild⟩ := hlookup
      rw [hrelation, List.length_cons, Nat.add_le_add_iff_right]
      exact ih htargetNames hbuild hrest

end Build

/-! ### Documents that can be built -/

theorem exists_lookup_of_mem {α : Type} {key : String} {entries : List (String × α)}
    (h : key ∈ entries.map Prod.fst) : ∃ value, lookup key entries = some value := by
  induction entries with
  | nil => exact absurd h List.not_mem_nil
  | cons entry rest ih =>
    obtain ⟨k, v⟩ := entry
    by_cases hk : k = key
    · exact ⟨v, if_pos hk⟩
    · rw [List.map_cons, List.mem_cons] at h
      obtain ⟨value, hvalue⟩ := ih (h.resolve_left (Ne.symm hk))
      exact ⟨value, by rw [lookup, if_neg hk, hvalue]⟩

section Documents

variable {context : FilterContext} {selection : FieldSelection} {expand : ExpandSpec}

/-- An expansion along relations of the context, of less than `levels` levels, without `*`. -/
structure Fits (levels : Nat) (context : FilterContext) (expand : ExpandSpec) : Prop where
  all_eq : ∀ path below, expand.follow path = some below → below.all = false
  reach : ∀ path, (expand.follow path).isSome = true →
    (context.follow path).isSome = true ∧ path.length < levels

theorem Fits.child {levels : Nat} {name : String} {below : ExpandSpec}
    {relation : RelationTarget FilterContext} (h : Fits (levels + 1) context expand)
    (hbelow : lookup name expand.nested = some below)
    (hrelation : lookup name context.relations = some relation) :
    Fits levels relation.context below := by
  have hfollow (path : List String) : expand.follow (name :: path) = below.follow path := by
    rw [ExpandSpec.follow_cons, hbelow, Option.bind_some]
  refine ⟨fun path last hlast => h.all_eq (name :: path) last ((hfollow path).trans hlast),
    fun path hpath => ?_⟩
  obtain ⟨hreach, hlength⟩ := h.reach (name :: path) (by rwa [hfollow])
  rw [FilterContext.follow, Paths.follow_cons, hrelation] at hreach
  exact ⟨hreach, Nat.lt_of_succ_lt_succ hlength⟩

/-- **The expansions that a document can be built for.** -/
theorem exists_objectTree {levels : Nat} (hknown : selection.Known context)
    (hfits : Fits levels context expand) (row : Ref) (counter : Nat) :
    ∃ built, objectTree levels context row selection expand counter = .ok built := by
  induction levels generalizing context selection expand row counter with
  | zero => exact absurd (hfits.reach [] rfl).2 (Nat.not_lt_zero _)
  | succ levels ih =>
    have hcolumns : ∀ column ∈ selection.effectiveColumns context, ∃ pair,
        columnPair context row column = .ok pair := by
      intro column hcolumn
      have hhas : context.hasColumn column = true := by
        unfold FieldSelection.effectiveColumns at hcolumn
        split_ifs at hcolumn
        · rw [List.mem_insertionSort] at hcolumn
          obtain ⟨type, htype⟩ := exists_lookup_of_mem hcolumn
          rw [FilterContext.hasColumn, htype]
          rfl
        · exact (FieldSelection.known_iff.mp hknown).1 column hcolumn
      exact ⟨_, by rw [columnPair, failIf, if_neg (not_not.mpr hhas)]; rfl⟩
    have htop : expand.all = false := hfits.all_eq [] expand rfl
    have hexpanded : ∀ names, (∀ name ∈ names, name ∈ expand.nested.map Prod.fst) → ∀ counter,
        ∃ built, expandTrees (objectTree levels) context selection expand names counter =
          .ok built := by
      intro names hnames
      induction names with
      | nil => exact fun counter => ⟨_, rfl⟩
      | cons name names ihNames =>
        intro counter
        rw [List.forall_mem_cons] at hnames
        obtain ⟨below, hbelow⟩ := exists_lookup_of_mem hnames.1
        have hpath : (expand.follow [name]).isSome = true := by
          rw [ExpandSpec.follow_cons, hbelow]
          rfl
        obtain ⟨target, htarget⟩ := Option.isSome_iff_exists.mp (hfits.reach [name] hpath).1
        obtain ⟨_, hrelation, -⟩ := Paths.follow_cons_eq_some.mp htarget
        obtain ⟨relation, hlookup, rfl⟩ := Option.map_eq_some_iff.mp hrelation
        have hchild : expand.child name = below := by
          rw [ExpandSpec.child, if_neg (by simp [htop]), hbelow, Option.getD_some]
        obtain ⟨⟨document, after⟩, hdocument⟩ := ih (hknown.child hlookup)
          (hfits.child hbelow hlookup) (.bare (expandAlias (counter + 1))) (counter + 1)
        obtain ⟨⟨rest, last⟩, hrest⟩ := ihNames hnames.2 after
        refine ⟨(.cons name relation (expandAlias (counter + 1)) document rest, last), ?_⟩
        rw [expandTrees, hlookup]
        simp only [okOr, bind, Except.bind, hchild, hdocument, hrest]
    obtain ⟨pairs, hpairs⟩ := exists_mapM hcolumns
    have hnames : expand.relationsToExpand context = expand.nested.map Prod.fst :=
      if_neg (by simp [htop])
    obtain ⟨⟨expanded, next⟩, hbuilt⟩ := hexpanded _ (fun _ hname => hname) counter
    refine ⟨(.node row (pairs ++ collectionPairs context selection) expanded, next), ?_⟩
    rw [objectTree, hpairs, hnames]
    simp only [bind, Except.bind, hbuilt]

end Documents

/-! ### Accepted paths -/

open Projection

/-- A path of relation fields is one of valid names. -/
theorem valid_of_leadsTo {all : List Collection} {collection last : Collection} {path : List String}
    (hnames : WellNamed collection) (hall : ∀ c ∈ all, WellNamed c)
    (hpath : leadsTo all collection path = some last) :
    ∀ name ∈ path, validateIdentifier "field name" name = .ok () := by
  induction path generalizing collection with
  | nil => simp
  | cons name rest ih =>
    obtain ⟨target, htarget, hrest⟩ := Paths.follow_cons_eq_some.mp hpath
    obtain ⟨field, _, hfield, -, -, hfind⟩ := relatedCollection_eq_some.mp htarget
    obtain rfl : field.name = name := by simpa using List.find?_some hfield
    exact List.forall_mem_cons.mpr ⟨hnames.valid field (List.mem_of_find?_eq_some hfield),
      ih (hall target (List.mem_of_find?_eq_some hfind)) hrest⟩

/-- The tree of an accepted path fits a document. -/
theorem fits_of_parse_join {context : FilterContext} {expand : ExpandSpec} {path : List String}
    (hvalid : ValidPath path) (h : ExpandSpec.parse (some (join "." path)) context = .ok expand) :
    Fits (maxExpandDepth + 1) context expand ∧
      ∀ raw ∈ ExpandSpec.requested (some (join "." path)), raw ≠ "*" := by
  have hread := ExpandSpec.readFrom_of_parse h
  have hrequested : ExpandSpec.requested (some (join "." path)) = [join "." path] := by
    simp only [ExpandSpec.requested, hvalid.present, hvalid.entries]
  have hsplit : splitOn '.' (join "." path) = path := hvalid.split_join
  have hstar : join "." path ≠ "*" := hvalid.join_ne_star
  have hnostar : ∀ raw ∈ ExpandSpec.requested (some (join "." path)), raw ≠ "*" := by
    simpa [hrequested] using hstar
  refine ⟨⟨fun p below hbelow => ?_, fun p hp => ?_⟩, hnostar⟩
  · by_cases hnil : p = []
    · subst hnil
      obtain rfl := Option.some.inj hbelow
      exact Bool.eq_false_iff.mpr fun htop => hnostar "*" (hread.all_iff.mp htop) rfl
    · exact hread.all_below p hnil below hbelow
  · by_cases hnil : p = []
    · subst hnil
      exact ⟨rfl, Nat.succ_pos _⟩
    · obtain ⟨raw, hraw, hne, hprefix⟩ := (hread.isSome_iff p hnil).mp hp
      obtain ⟨hreach, hlength⟩ := hread.path raw hraw hne
      obtain ⟨rest, hrest⟩ := hprefix
      rw [← hrest] at hreach hlength
      rw [List.length_append] at hlength
      rw [FilterContext.follow, Paths.follow_append] at hreach
      refine ⟨Option.isSome_of_isSome_bind hreach, by omega⟩

/-- **When the documented depth is the real one.** A path of relation fields of at most six segments is
accepted and rendered, and a longer one refused, exactly when it has at most four segments or more than
six. -/
theorem expand_depth_iff {all : List Collection} {collection last : Collection}
    {context : FilterContext} {path : List String} {fields : Option String}
    {selection : FieldSelection} {root : Ref} (hnames : ∀ c ∈ collection :: all, WellNamed c)
    (hcontext : FilterContext.forCollection collection all = .ok context) (hne : path ≠ [])
    (hpath : leadsTo all collection path = some last)
    (hselection : FieldSelection.parse fields context = .ok selection) :
    ((path.length ≤ maxExpandDepth → ∃ expand tree,
        ExpandSpec.parse (some (join "." path)) context = .ok expand ∧
        recordTree context root selection expand = .ok tree ∧
        recordDocument context root selection expand = .ok tree.text ∧
        Honoured context (some (join "." path)) tree) ∧
      (maxExpandDepth < path.length → ∀ expand,
        ExpandSpec.parse (some (join "." path)) context ≠ .ok expand)) ↔
      path.length ≤ maxPathDepth ∨ maxExpandDepth < path.length := by
  rw [List.forall_mem_cons] at hnames
  have hvalid : ValidPath path := ⟨hne, valid_of_leadsTo hnames.1 hnames.2 hpath⟩
  have haccepted : (∃ expand, ExpandSpec.parse (some (join "." path)) context = .ok expand) ↔
      path.length ≤ maxPathDepth ∧ path.length ≤ maxExpandDepth := by
    rw [ExpandSpec.parse_join hvalid, ExpandSpec.exists_insertPath hne,
      follow_build_iff hnames.1 hnames.2 hcontext hpath]
  have hdepths : maxPathDepth < maxExpandDepth := by decide
  constructor
  · rintro ⟨hrendered, -⟩
    by_cases hlength : path.length ≤ maxExpandDepth
    · obtain ⟨expand, _, hexpand, -⟩ := hrendered hlength
      exact .inl (haccepted.mp ⟨expand, hexpand⟩).1
    · exact .inr (not_le.mp hlength)
  · intro hlength
    refine ⟨fun hshort => ?_, fun hlong expand hexpand => ?_⟩
    · obtain ⟨expand, hexpand⟩ := haccepted.mpr ⟨hlength.resolve_right (not_lt.mpr hshort), hshort⟩
      obtain ⟨hfits, hnostar⟩ := fits_of_parse_join hvalid hexpand
      obtain ⟨⟨built, next⟩, hbuilt⟩ := exists_objectTree
        (FieldSelection.known_of_parse hselection) hfits root 0
      have htree : recordTree context root selection expand = .ok built := by
        rw [recordTree, hbuilt]
        rfl
      have hdocument : recordDocument context root selection expand = .ok built.text := by
        rw [recordDocument_eq_text, htree]
        rfl
      obtain ⟨tree, htree', -, hhonoured⟩ := honoured_of_parse hexpand hdocument
        fun ⟨hstar, _⟩ => hnostar "*" hstar rfl
      obtain rfl := Except.ok.inj (htree.symm.trans htree')
      exact ⟨expand, built, hexpand, htree, hdocument, hhonoured⟩
    · obtain ⟨_, hshort⟩ := haccepted.mp ⟨expand, hexpand⟩
      exact absurd hshort (not_le.mpr hlong)

section Managers

/-- People with a manager. -/
def people : Collection where
  id := "people"
  name := "people"
  collectionType := .base
  options := .object []
  rules := .object []
  fields := [⟨"manager", "people", "manager", .relation, false, false,
    .object [("collectionId", .string "people")], 0⟩]

theorem wellNamed_people : WellNamed people := by
  have hvalid : validateIdentifier "field name" "manager" = .ok () := by decide
  have hbase : people.collectionType.isAuth = false := by decide
  refine ⟨List.nodup_singleton _, fun field hfield => ?_, fun field _ _ hcredential => ?_⟩
  · rw [List.mem_singleton.mp hfield]
    exact hvalid
  · rw [hbase] at hcredential
    cases hcredential.1

theorem wellNamed_of_mem : ∀ c ∈ [people, people], WellNamed c := by
  intro c hc
  obtain rfl : c = people := by simpa using hc
  exact wellNamed_people

theorem expand_depth_iff_manager :
    ∃ context, FilterContext.forCollection people [people] = .ok context ∧
      ((["manager", "manager"].length ≤ maxExpandDepth → ∃ expand tree,
          ExpandSpec.parse (some (join "." ["manager", "manager"])) context = .ok expand ∧
          recordTree context (.bare rootAlias) .all expand = .ok tree ∧
          recordDocument context (.bare rootAlias) .all expand = .ok tree.text ∧
          Honoured context (some (join "." ["manager", "manager"])) tree) ∧
        (maxExpandDepth < ["manager", "manager"].length → ∀ expand,
          ExpandSpec.parse (some (join "." ["manager", "manager"])) context ≠ .ok expand) ↔
        ["manager", "manager"].length ≤ maxPathDepth ∨
          maxExpandDepth < ["manager", "manager"].length) := by
  have hpath : leadsTo [people] people ["manager", "manager"] = some people := by decide
  obtain ⟨context, hcontext⟩ := isOk_iff.mp
    (by decide : isOk (FilterContext.forCollection people [people]) = true)
  exact ⟨context, hcontext, expand_depth_iff wellNamed_of_mem hcontext (by simp) hpath
    (show FieldSelection.parse none context = .ok .all from rfl)⟩

/-- **A path of five relations is refused**, though six are documented. -/
theorem expand_five_refused :
    ¬ ∀ (all : List Collection) (collection last : Collection) (context : FilterContext)
      (path : List String) (fields : Option String) (selection : FieldSelection) (root : Ref),
      (∀ c ∈ collection :: all, WellNamed c) →
      FilterContext.forCollection collection all = .ok context → path ≠ [] →
      leadsTo all collection path = some last →
      FieldSelection.parse fields context = .ok selection → path.length ≤ maxExpandDepth →
      ∃ expand document, ExpandSpec.parse (some (join "." path)) context = .ok expand ∧
        recordDocument context root selection expand = .ok document := by
  intro hall
  have hpath : leadsTo [people] people (List.replicate 5 "manager") = some people := by
    decide
  obtain ⟨context, hcontext, hrefused⟩ := exists_ok_of_any
    (x := FilterContext.forCollection people [people])
    (P := fun context => isOk (ExpandSpec.parse (some (join "." (List.replicate 5 "manager")))
      context) = false) (by decide)
  obtain ⟨expand, _, hparse, -⟩ := hall [people] people people context (List.replicate 5 "manager")
    none .all (.bare rootAlias) wellNamed_of_mem hcontext (by simp) hpath rfl (by decide)
  rw [hparse] at hrefused
  cases hrefused

end Managers

end LazyPock
