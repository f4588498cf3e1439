import LazyPock.Schema.Ddl
import LazyPock.Schema.ViewBuilder

/-!
# The output columns of a built view

A view is addressed by its `id`, so the view builder (`crates/db/src/view_builder.rs`) adds the source's
own `id` unless the spec asks for it, and then numbers the names that are asked for twice. What it adds
stands first and keeps its name. Where the spec asks for the `id` itself, the first column that asks
for the name has it, whichever column that is. Names are only numbered, not shortened, and Postgres
compares their first 63 bytes.

## Main definitions

* `ViewBuilder.requestedName`: the name that an item of a spec asks for.
* `ViewBuilder.InUse`: the names that are in use behind some requested names.
* `ViewBuilder.IdFirst`, `ViewBuilder.Distinguishable`: the two conditions.
* `ViewBuilder.ExposesId`: what a view's columns should be.

## Main results

* `ViewBuilder.mem_uniquifyAliases_iff`: the output names are the names in use.
* `ViewBuilder.filter_id_uniquifyAliases`: the column that is named `id`.
* `view_columns_iff`.
-/

namespace LazyPock.ViewBuilder

open Text List

/-! ### Numbered names -/

/-- The `k`-th variant of a name. -/
def numbered (name : String) (k : ℕ) : String := name ++ "_" ++ toString k

/-- **The names in use** behind some requested names: each of them, and a numbered name when the name is
asked for once more while it and its lower numbers are in use. -/
inductive InUse : List String → String → Prop
  | asked {front : List String} {name : String} (h : name ∈ front) : InUse front name
  | numbered {front back : List String} {name : String} {k : ℕ} (hname : InUse front name)
      (hk : 2 ≤ k) (hlower : ∀ i, 2 ≤ i → i < k → InUse front (numbered name i)) :
      InUse (front ++ name :: back) (numbered name k)

/-- What one more request brings into use. -/
theorem inUse_append_iff {front : List String} {request name : String} :
    InUse (front ++ [request]) name ↔ InUse front name ∨ name = request ∨
      (InUse front request ∧ ∃ k, 2 ≤ k ∧
        (∀ i, 2 ≤ i → i < k → InUse front (numbered request i)) ∧ name = numbered request k) := by
  constructor
  · generalize hall : front ++ [request] = whole
    intro h
    cases h with
    | asked h =>
      rw [← hall, mem_append, mem_singleton] at h
      exact h.imp .asked .inl
    | @numbered first back other k hother hk hlower =>
      rcases eq_nil_or_concat back with rfl | ⟨back, last, rfl⟩
      · obtain ⟨rfl, hlast⟩ := append_inj' hall rfl
        obtain rfl := (List.cons.inj hlast).1
        exact .inr (.inr ⟨hother, k, hk, hlower, rfl⟩)
      · rw [concat_eq_append, ← cons_append, ← append_assoc] at hall
        obtain ⟨rfl, -⟩ := append_inj' hall rfl
        exact .inl (.numbered hother hk hlower)
  · rintro (h | rfl | ⟨h, k, hk, hlower, rfl⟩)
    · cases h with
      | asked h => exact .asked (mem_append_left _ h)
      | numbered hother hk hlower =>
        rw [append_assoc, cons_append]
        exact .numbered hother hk hlower
    · exact .asked (mem_append_right _ (List.mem_singleton_self _))
    · exact .numbered h hk hlower

theorem freeCandidate_eq (base : String) (used : List String) (fuel suffix : ℕ)
    (candidate : String) :
    freeCandidate base used fuel suffix candidate = candidate ∨
      (candidate ∈ used ∧ ∃ k, suffix ≤ k ∧
        freeCandidate base used fuel suffix candidate = numbered base k ∧
        ∀ i, suffix ≤ i → i < k → numbered base i ∈ used) := by
  induction fuel generalizing suffix candidate with
  | zero => exact .inl rfl
  | succ fuel ih =>
    rw [freeCandidate]
    split_ifs with hused
    · refine .inr ⟨hused, ?_⟩
      rcases ih (suffix + 1) (numbered base suffix) with heq | ⟨hfirst, k, hk, heq, hlower⟩
      · exact ⟨suffix, le_rfl, heq, fun i hi hlt => absurd hlt (not_lt.mpr hi)⟩
      · refine ⟨k, by omega, heq, fun i hi hlt => ?_⟩
        rcases Nat.eq_or_lt_of_le hi with rfl | hi
        · exact hfirst
        · exact hlower i hi hlt
    · exact .inl rfl

/-- **The name that is chosen** is the requested one, or its first number that is not used. -/
theorem freeAlias_eq (name : String) (used : List String) :
    (name ∉ used ∧ freeAlias name used = name) ∨
      (name ∈ used ∧ ∃ k, 2 ≤ k ∧ freeAlias name used = numbered name k ∧
        ∀ i, 2 ≤ i → i < k → numbered name i ∈ used) := by
  rcases freeCandidate_eq name used used.length 2 name with heq | hnumbered
  · have hfree := freeAlias_notMem name used
    rw [freeAlias, heq] at hfree
    exact .inl ⟨hfree, heq⟩
  · exact .inr hnumbered

/-- Choosing a name brings the same into use as asking for it. -/
theorem mem_append_freeAlias_iff {front used : List String}
    (hused : ∀ name, name ∈ used ↔ InUse front name) (request name : String) :
    name ∈ used ++ [freeAlias request used] ↔ InUse (front ++ [request]) name := by
  rw [mem_append, mem_singleton, inUse_append_iff, hused]
  simp only [← hused]
  rcases freeAlias_eq request used with ⟨hfree, heq⟩ | ⟨htaken, k, hk, heq, hlower⟩
  · rw [heq]
    refine or_congr_right ⟨.inl, fun h => h.resolve_right fun h => hfree h.1⟩
  · rw [heq]
    constructor
    · rintro (h | rfl)
      · exact .inl h
      · exact .inr (.inr ⟨htaken, k, hk, hlower, rfl⟩)
    · rintro (h | rfl | ⟨-, j, hj, hlower', rfl⟩)
      · exact .inl h
      · exact .inl htaken
      · -- the first free number is the least
        have hfree : numbered request k ∉ used := heq ▸ freeAlias_notMem request used
        rcases lt_trichotomy j k with hlt | rfl | hlt
        · exact .inl (hlower j hj hlt)
        · exact .inr rfl
        · exact absurd (hlower' k hk hlt) hfree

/-- **The output names are the names in use** behind the requested ones. -/
theorem mem_uniquifyAliases_iff {front used : List String} {fields : List Output}
    (hused : ∀ name, name ∈ used ↔ InUse front name) (name : String) :
    name ∈ used ++ (uniquifyAliases used fields).map Output.aliasName ↔
      InUse (front ++ fields.map Output.aliasName) name := by
  induction fields generalizing front used with
  | nil =>
    rw [uniquifyAliases, map_nil, append_nil, append_nil]
    exact hused name
  | cons field fields ih =>
    rw [uniquifyAliases, map_cons, map_cons, append_cons used,
      append_cons front]
    exact ih (mem_append_freeAlias_iff hused field.aliasName)

theorem not_inUse_nil (name : String) : ¬ InUse [] name := by
  generalize hnil : ([] : List String) = front
  intro h
  cases h with
  | asked h =>
    subst hnil
    cases h
  | numbered => exact absurd hnil (by simp)

/-! ### The column that is named `id` -/

theorem numbered_ne_id (name : String) (k : ℕ) : numbered name k ≠ "id" := by
  intro h
  have hmem : '_' ∈ (numbered name k).toList := by simp [numbered]
  rw [h] at hmem
  exact absurd hmem (by decide)

theorem freeAlias_eq_id_iff {name : String} {used : List String} :
    freeAlias name used = "id" ↔ name = "id" ∧ "id" ∉ used := by
  rcases freeAlias_eq name used with ⟨hfree, heq⟩ | ⟨htaken, k, -, heq, -⟩
  · rw [heq]
    constructor
    · rintro rfl
      exact ⟨rfl, hfree⟩
    · exact And.left
  · rw [heq]
    refine iff_of_false (numbered_ne_id name k) ?_
    rintro ⟨rfl, hfree⟩
    exact hfree htaken

/-- **The column that is named `id`** is the first that asks for the name. -/
theorem filter_id_uniquifyAliases (used : List String) (fields : List Output) :
    ((uniquifyAliases used fields).filter fun field => field.aliasName = "id") =
      if "id" ∈ used then [] else (fields.find? fun field => field.aliasName = "id").toList := by
  induction fields generalizing used with
  | nil => simp [uniquifyAliases]
  | cons field fields ih =>
    rw [uniquifyAliases, filter_cons, ih, List.find?_cons]
    by_cases hname : field.aliasName = "id"
    · by_cases hused : "id" ∈ used
      · have hne : freeAlias field.aliasName used ≠ "id" := fun heq =>
          (freeAlias_eq_id_iff.mp heq).2 hused
        simp [hne, hused]
      · have heq : freeAlias "id" used = "id" := freeAlias_eq_id_iff.mpr ⟨rfl, hused⟩
        have hsame : { field with aliasName := "id" } = field := by rw [← hname]
        simp [heq, hused, hname, hsame]
    · have hne : freeAlias field.aliasName used ≠ "id" := fun heq =>
        hname (freeAlias_eq_id_iff.mp heq).1
      simp [hne, hname, Ne.symm hne]

/-! ### What a spec asks for -/

section Requests

variable (spec : Json)

/-- The name of the source collection. -/
def sourceName : String := ((spec.get "source").bind Json.asStr).getD ""

/-- A list in a spec. -/
def specItems (key : String) : List Json := ((spec.get key).bind Json.asArray).getD []

def itemText (item : Json) (key : String) : String := ((item.get key).bind Json.asStr).getD ""

/-- Where the column of an item comes from. -/
def itemSource (item : Json) : String :=
  ((item.get "source").bind Json.asStr).getD (sourceName spec)

/-- The relation field behind the name of a declared relation. -/
def relationField (aliasName : String) : String :=
  (((specItems spec "relations").find? fun item => itemText item "alias" = aliasName).map
    fun item => itemText item "field").getD ""

/-- **The name that an item asks for**: what it gives, or the name of its column, behind that of its
relation. -/
def requestedName (item : Json) : String :=
  if itemText item "as" ≠ "" then itemText item "as"
  else if itemSource spec item = sourceName spec then itemText item "name"
  else relationField spec (itemSource spec item) ++ "_" ++ itemText item "name"

/-- An item that asks for the source's own `id` under its name. -/
def IsBaseId (item : Json) : Prop :=
  itemSource spec item = sourceName spec ∧ itemText item "name" = "id" ∧
    requestedName spec item = "id"

instance decidableIsBaseId (item : Json) : Decidable (IsBaseId spec item) :=
  inferInstanceAs (Decidable (_ ∧ _ ∧ _))

/-- The names that are asked for, with the `id` that is added. -/
def requestedNames : List String :=
  (if (specItems spec "fields").any fun item => IsBaseId spec item then [] else ["id"]) ++
    (specItems spec "fields").map (requestedName spec)

/-- **No other column asks for `id` first**: where an item asks for the source's own, the first that
asks for the name does. -/
def IdFirst : Prop :=
  (∃ item ∈ specItems spec "fields", IsBaseId spec item) →
    ∀ item, (specItems spec "fields").find? (fun item => requestedName spec item = "id") =
      some item → IsBaseId spec item

/-- A name as Postgres compares it. -/
def identifier (name : String) : String := Ddl.cut name maxIdentifierLen

/-- **No two names in use share their first 63 bytes.** -/
def Distinguishable : Prop :=
  ∀ a b, InUse (requestedNames spec) a → InUse (requestedNames spec) b →
    identifier a = identifier b → a = b

end Requests

/-- **What the columns of a view should be**: one is named `id`, and it is the source's own; all names
differ as identifiers; there are as many columns as were asked for, and at most one more. -/
structure ExposesId (requested : ℕ) (plan : Plan) : Prop where
  id : ∃ column, plan.fields.filter (fun field => field.aliasName = "id") = [column] ∧
    column.origin = .base ∧ column.name = "id"
  nodup : (plan.fields.map fun field => identifier field.aliasName).Nodup
  length_ge : requested ≤ plan.fields.length
  length_le : plan.fields.length ≤ requested + 1

section Built

variable {spec : Json} {source : Collection} {relations : List Relation}
  {collections : List Collection}

/-- A resolved relation has the name and the field of its item. -/
def Resolves (relation : Relation) (item : Json) : Prop :=
  relation.aliasName = itemText item "alias" ∧ relation.field = itemText item "field"

theorem resolves_of_buildRelation {item : Json} {relation : Relation}
    (h : buildRelation source collections relations item = .ok relation) :
    Resolves relation item := by
  obtain ⟨aliasName, halias, h⟩ := bind_eq_ok.mp h
  obtain ⟨_, -, h⟩ := bind_eq_ok.mp h
  obtain ⟨_, -, h⟩ := bind_eq_ok.mp h
  obtain ⟨field, hfield, h⟩ := bind_eq_ok.mp h
  obtain ⟨target, -, h⟩ := bind_eq_ok.mp h
  obtain ⟨_, -, h⟩ := bind_eq_ok.mp h
  obtain rfl := Except.ok.inj h
  obtain ⟨name, hname, halias⟩ := bind_eq_ok.mp halias
  obtain ⟨_, -, halias⟩ := bind_eq_ok.mp halias
  obtain rfl := Except.ok.inj halias
  obtain ⟨found, hfound, hfield⟩ := bind_eq_ok.mp hfield
  obtain ⟨_, -, hfield⟩ := bind_eq_ok.mp hfield
  obtain rfl := Except.ok.inj hfield
  refine ⟨?_, ?_⟩
  · rw [itemText, okOr_eq_ok.mp hname, Option.getD_some]
  · simpa [itemText] using List.find?_some (okOr_eq_ok.mp hfound)

/-- The declared relations, as they are resolved. -/
theorem resolves_of_buildRelations {value : Option Json}
    (h : buildRelations value source collections = .ok relations) :
    List.Forall₂ Resolves relations ((value.bind Json.asArray).getD []) := by
  cases value with
  | none =>
    obtain rfl := Except.ok.inj h
    exact .nil
  | some value =>
    obtain ⟨items, hitems, h⟩ := bind_eq_ok.mp h
    have hfold : ∀ (items done : List Json) (before : List Relation),
        List.Forall₂ Resolves before done →
        items.foldlM (fun relations item => do
          let relation ← buildRelation source collections relations item
          Except.ok (relations ++ [relation])) before = .ok relations →
        List.Forall₂ Resolves relations (done ++ items) := by
      intro items
      induction items with
      | nil =>
        intro done before hbefore hfold
        obtain rfl := Except.ok.inj hfold
        rwa [append_nil]
      | cons item rest ih =>
        intro done before hbefore hfold
        obtain ⟨next, hnext, hfold⟩ := bind_eq_ok.mp hfold
        obtain ⟨relation, hrelation, hnext⟩ := bind_eq_ok.mp hnext
        obtain rfl := Except.ok.inj hnext
        rw [append_cons]
        exact ih _ _ (rel_append hbefore (.cons (resolves_of_buildRelation hrelation) .nil)) hfold
    rw [Option.bind_some, okOr_eq_ok.mp hitems, Option.getD_some]
    exact hfold items [] [] .nil h

/-- The relation that a name refers to has the field of its item. -/
theorem field_of_findIdx? {items : List Json} (h : List.Forall₂ Resolves relations items)
    {name : String} {index : ℕ} {relation : Relation}
    (hindex : relations.findIdx? (fun relation => relation.aliasName = name) = some index)
    (hrelation : relations[index]? = some relation) :
    relation.field = ((items.find? fun item => itemText item "alias" = name).map
      fun item => itemText item "field").getD "" := by
  induction h generalizing index with
  | nil => cases hindex
  | @cons first item relations items hfirst _ ih =>
    rw [List.findIdx?_cons] at hindex
    rw [List.find?_cons]
    by_cases hname : first.aliasName = name
    · rw [if_pos (decide_eq_true hname), Option.some_inj] at hindex
      subst hindex
      obtain rfl := Option.some.inj hrelation
      have hitem : itemText item "alias" = name := hfirst.1.symm.trans hname
      simp [hitem, hfirst.2]
    · have hitem : itemText item "alias" ≠ name := fun heq => hname (hfirst.1.trans heq)
      rw [if_neg (by simpa using hname), Option.map_eq_some_iff] at hindex
      obtain ⟨next, hnext, rfl⟩ := hindex
      simpa [hitem] using ih hnext (by simpa using hrelation)

/-- A column has the name it was asked for under. -/
theorem eq_of_fetchColumn {collection : Collection} {name : Option String} {label column : String}
    (h : fetchColumn collection name label = .ok column) : name = some column := by
  obtain ⟨asked, hasked, h⟩ := bind_eq_ok.mp h
  rw [okOr_eq_ok.mp hasked]
  split_ifs at h with hid
  · rw [hid, Except.ok.inj h]
  · obtain ⟨field, hfield, h⟩ := bind_eq_ok.mp h
    obtain ⟨_, -, h⟩ := bind_eq_ok.mp h
    obtain ⟨_, -, h⟩ := bind_eq_ok.mp h
    obtain rfl := Except.ok.inj h
    have hname : field.name = asked := by simpa using List.find?_some (okOr_eq_ok.mp hfield)
    rw [hname]

theorem eq_of_outputAlias {item : Json} {default aliasName : String}
    (h : outputAlias (item.get "as") default = .ok aliasName) :
    aliasName = if itemText item "as" ≠ "" then itemText item "as" else default := by
  have hvalidate {name label : String} (h : validateName name label = .ok aliasName) :
      aliasName = name := by
    obtain ⟨_, -, h⟩ := bind_eq_ok.mp h
    exact (Except.ok.inj h).symm
  unfold outputAlias at h
  rw [itemText]
  split at h
  next hnone => rw [hnone]; simpa using hvalidate h
  next hnull => rw [hnull]; simpa [Json.asStr] using hvalidate h
  next name hname =>
    rw [hname, hvalidate h]
    by_cases hempty : name = "" <;> simp [Json.asStr, hempty]
  next => cases h

/-- **What an item is resolved to.** -/
theorem request_of_buildField {item : Json} {output : Output}
    (hsource : source.name = sourceName spec)
    (hrelations : List.Forall₂ Resolves relations (specItems spec "relations"))
    (h : buildField source relations collections item = .ok output) :
    output.aliasName = requestedName spec item ∧ output.name = itemText item "name" ∧
      (output.origin = .base ↔ itemSource spec item = sourceName spec) := by
  have hname {collection : Collection} {label column : String}
      (h : fetchColumn collection ((item.get "name").bind Json.asStr) label = .ok column) :
      itemText item "name" = column := by
    rw [itemText, eq_of_fetchColumn h, Option.getD_some]
  unfold buildField at h
  rw [hsource] at h
  dsimp only at h
  split_ifs at h with hbase
  · obtain ⟨column, hcolumn, h⟩ := bind_eq_ok.mp h
    obtain ⟨aliasName, halias, h⟩ := bind_eq_ok.mp h
    obtain rfl := Except.ok.inj h
    refine ⟨?_, (hname hcolumn).symm, iff_of_true rfl hbase⟩
    rw [requestedName, if_pos (show itemSource spec item = sourceName spec from hbase), hname hcolumn]
    exact eq_of_outputAlias halias
  · obtain ⟨index, hindex, h⟩ := bind_eq_ok.mp h
    obtain ⟨relation, hrelation, h⟩ := bind_eq_ok.mp h
    obtain ⟨target, -, h⟩ := bind_eq_ok.mp h
    obtain ⟨column, hcolumn, h⟩ := bind_eq_ok.mp h
    obtain ⟨aliasName, halias, h⟩ := bind_eq_ok.mp h
    obtain rfl := Except.ok.inj h
    refine ⟨?_, (hname hcolumn).symm, iff_of_false (by simp) hbase⟩
    have hfield : relation.field = relationField spec (itemSource spec item) :=
      field_of_findIdx? hrelations (okOr_eq_ok.mp hindex) (okOr_eq_ok.mp hrelation)
    rw [requestedName, if_neg (show ¬ itemSource spec item = sourceName spec from hbase),
      hname hcolumn, ← hfield]
    exact eq_of_outputAlias halias

/-- An output column is the one that an item asks for. -/
structure Requests (spec : Json) (output : Output) (item : Json) : Prop where
  aliasName : output.aliasName = requestedName spec item
  name : output.name = itemText item "name"
  origin : output.origin = .base ↔ itemSource spec item = sourceName spec

theorem Requests.isBaseId_iff {output : Output} {item : Json} (h : Requests spec output item) :
    (output.origin = .base ∧ output.name = "id" ∧ output.aliasName = "id") ↔
      IsBaseId spec item := by
  rw [h.origin, h.name, h.aliasName, IsBaseId]

theorem requests_of_buildFields {outputs : List Output} (hsource : source.name = sourceName spec)
    (hrelations : List.Forall₂ Resolves relations (specItems spec "relations"))
    (h : buildFields (spec.get "fields") source relations collections = .ok outputs) :
    List.Forall₂ (Requests spec) outputs (specItems spec "fields") := by
  have hmap : ∀ (items : List Json) (outputs : List Output),
      items.mapM (buildField source relations collections) = .ok outputs →
      List.Forall₂ (Requests spec) outputs items := by
    intro items
    induction items with
    | nil =>
      intro outputs h
      obtain rfl := Except.ok.inj h
      exact .nil
    | cons item rest ih =>
      intro outputs h
      rw [mapM_cons] at h
      obtain ⟨output, houtput, h⟩ := bind_eq_ok.mp h
      obtain ⟨others, hothers, h⟩ := bind_eq_ok.mp h
      obtain rfl := Except.ok.inj h
      obtain ⟨haliasName, hname, horigin⟩ := request_of_buildField hsource hrelations houtput
      exact .cons ⟨haliasName, hname, horigin⟩ (ih others hothers)
  unfold specItems
  cases hfields : spec.get "fields" with
  | none =>
    rw [hfields] at h
    obtain rfl := Except.ok.inj h
    exact .nil
  | some value =>
    rw [hfields] at h
    obtain ⟨items, hitems, h⟩ := bind_eq_ok.mp h
    rw [Option.bind_some, okOr_eq_ok.mp hitems, Option.getD_some]
    exact hmap items outputs h

section Requested

variable {outputs : List Output} {items : List Json}

theorem map_aliasName_of_requests (h : List.Forall₂ (Requests spec) outputs items) :
    outputs.map Output.aliasName = items.map (requestedName spec) := by
  induction h with
  | nil => rfl
  | cons hfirst _ ih => rw [map_cons, map_cons, hfirst.aliasName, ih]

theorem any_of_requests (h : List.Forall₂ (Requests spec) outputs items) :
    (outputs.any fun field => field.origin = .base && field.name = "id" && field.aliasName = "id") =
      items.any fun item => IsBaseId spec item := by
  induction h with
  | nil => rfl
  | cons hfirst _ ih =>
    rw [any_cons, any_cons, ih]
    congr 1
    rw [Bool.eq_iff_iff, decide_eq_true_iff, ← hfirst.isBaseId_iff]
    simp [and_assoc]

/-- The first column that asks for `id`, and the first item. -/
theorem find?_of_requests (h : List.Forall₂ (Requests spec) outputs items) :
    Option.Rel (Requests spec) (outputs.find? fun field => field.aliasName = "id")
      (items.find? fun item => requestedName spec item = "id") := by
  induction h with
  | nil => exact .none
  | cons hfirst _ ih =>
    rw [List.find?_cons, List.find?_cons, hfirst.aliasName]
    split
    · exact .some hfirst
    · exact ih

theorem map_aliasName_ensureId (h : List.Forall₂ (Requests spec) outputs (specItems spec "fields")) :
    (ensureId outputs).map Output.aliasName = requestedNames spec := by
  rw [ensureId, requestedNames, any_of_requests h]
  split_ifs
  · rw [map_aliasName_of_requests h, nil_append]
  · rw [map_cons, map_aliasName_of_requests h, singleton_append]

/-- **The `id` of a view** is the source's own exactly when no other column asks for it first. -/
theorem exists_id_iff (h : List.Forall₂ (Requests spec) outputs (specItems spec "fields")) :
    (∃ column, ((uniquifyAliases [] (ensureId outputs)).filter fun field => field.aliasName = "id") =
        [column] ∧ column.origin = .base ∧ column.name = "id") ↔ IdFirst spec := by
  rw [filter_id_uniquifyAliases, if_neg not_mem_nil]
  have hpresent := any_of_requests h
  unfold ensureId
  split_ifs with hany
  · rw [hpresent, any_eq_true] at hany
    obtain ⟨asked, hasked, hbase⟩ := hany
    have hbase : IsBaseId spec asked := of_decide_eq_true hbase
    obtain ⟨first, hfirst⟩ : ∃ first,
        ((specItems spec "fields").find? fun item => requestedName spec item = "id") = some first :=
      Option.isSome_iff_exists.mp (List.find?_isSome.mpr ⟨asked, hasked, by simpa using hbase.2.2⟩)
    have hrel := find?_of_requests h
    rw [hfirst] at hrel
    cases hfound : outputs.find? fun field => field.aliasName = "id" with
    | none =>
      rw [hfound] at hrel
      cases hrel
    | some output =>
      rw [hfound] at hrel
      obtain ⟨hrequests⟩ := hrel
      have hid : output.aliasName = "id" := by simpa using List.find?_some hfound
      have hiff : output.origin = .base ∧ output.name = "id" ↔ IsBaseId spec first := by
        rw [← hrequests.isBaseId_iff, and_iff_left hid]
      constructor
      · rintro ⟨column, hcolumn, hcolumnBase⟩ - item hitem
        obtain rfl : output = column := (List.cons.inj hcolumn).1
        obtain rfl := Option.some.inj (hfirst.symm.trans hitem)
        exact hiff.mp hcolumnBase
      · intro hidFirst
        exact ⟨output, rfl, hiff.mpr (hidFirst ⟨asked, hasked, hbase⟩ first hfirst)⟩
  · rw [hpresent] at hany
    refine iff_of_true ⟨⟨.base, "id", "id"⟩, by simp, rfl, rfl⟩ fun ⟨item, hitem, hbase⟩ => ?_
    exact absurd (any_eq_true.mpr ⟨item, hitem, decide_eq_true hbase⟩) hany

/-- **The names of a view** differ as identifiers exactly when those in use do. -/
theorem nodup_identifiers_iff
    (h : List.Forall₂ (Requests spec) outputs (specItems spec "fields")) :
    ((uniquifyAliases [] (ensureId outputs)).map fun field => identifier field.aliasName).Nodup ↔
      Distinguishable spec := by
  have hnodup := (nodup_uniquifyAliases [] (ensureId outputs)).1
  have hmem (name : String) : name ∈ (uniquifyAliases [] (ensureId outputs)).map Output.aliasName ↔
      InUse (requestedNames spec) name := by
    have hempty : ∀ name, name ∈ ([] : List String) ↔ InUse [] name := fun name =>
      iff_of_false not_mem_nil (not_inUse_nil name)
    rw [← map_aliasName_ensureId h]
    simpa using mem_uniquifyAliases_iff hempty name
  rw [← Function.comp_def identifier, ← map_map, nodup_map_iff_inj_on hnodup]
  simp only [hmem, Distinguishable]
  constructor
  · exact fun hall a b ha hb => hall a ha b hb
  · exact fun hall a ha b hb => hall a b ha hb

theorem length_uniquifyAliases (used : List String) (fields : List Output) :
    (uniquifyAliases used fields).length = fields.length := by
  induction fields generalizing used with
  | nil => rfl
  | cons field fields ih => rw [uniquifyAliases, length_cons, length_cons, ih]

theorem length_ensureId (outputs : List Output) :
    outputs.length ≤ (ensureId outputs).length ∧ (ensureId outputs).length ≤ outputs.length + 1 := by
  unfold ensureId
  split_ifs
  · omega
  · rw [length_cons]
    omega

end Requested

end Built

end LazyPock.ViewBuilder

namespace LazyPock

open ViewBuilder

/-- **When a built view exposes its rows' id** under distinct names: when no other column asks for `id`
before the source's own, and no two names in use share their first 63 bytes. -/
theorem view_columns_iff {spec : Json} {collections : List Collection} {sql : String}
    (h : toQuery spec collections = .ok sql) :
    (∃ plan, buildPlan spec collections = .ok plan ∧ sql = render plan ∧
      ExposesId (specItems spec "fields").length plan) ↔ IdFirst spec ∧ Distinguishable spec := by
  obtain ⟨plan, hplan, hsql⟩ := bind_eq_ok.mp h
  obtain rfl := Except.ok.inj hsql
  have hbuild := hplan
  obtain ⟨_, -, hbuild⟩ := bind_eq_ok.mp hbuild
  obtain ⟨source, hsource, hbuild⟩ := bind_eq_ok.mp hbuild
  obtain ⟨relations, hrelations, hbuild⟩ := bind_eq_ok.mp hbuild
  obtain ⟨outputs, houtputs, hbuild⟩ := bind_eq_ok.mp hbuild
  obtain ⟨sort, -, hbuild⟩ := bind_eq_ok.mp hbuild
  obtain ⟨limit, -, hbuild⟩ := bind_eq_ok.mp hbuild
  obtain rfl := Except.ok.inj hbuild
  obtain ⟨_, -, hfind⟩ := bind_eq_ok.mp hsource
  have hname : source.name = sourceName spec := (mem_of_find (okOr_eq_ok.mp hfind)).2
  have hrequests := requests_of_buildFields hname (resolves_of_buildRelations hrelations) houtputs
  have hlength := length_ensureId outputs
  rw [← exists_id_iff hrequests, ← nodup_identifiers_iff hrequests]
  constructor
  · rintro ⟨other, hother, -, hexposes⟩
    obtain rfl := Except.ok.inj (hplan.symm.trans hother)
    exact ⟨hexposes.id, hexposes.nodup⟩
  · rintro ⟨hid, hnodup⟩
    refine ⟨_, hplan, rfl, hid, hnodup, ?_, ?_⟩
    · rw [length_uniquifyAliases, ← hrequests.length_eq]
      exact hlength.1
    · rw [length_uniquifyAliases, ← hrequests.length_eq]
      exact hlength.2

section Specs

/-- A collection with a name. -/
def namedPeople : Collection where
  id := "c_people"
  name := "people"
  collectionType := .base
  options := .object []
  rules := .object []
  fields := [⟨"name", "c_people", "name", .text, false, false, .object [], 0⟩]

/-- A spec over it that selects some columns. -/
def selecting (fields : List (List (String × Json))) : Json :=
  .object [("fields", .array (fields.map Json.object)), ("source", .string "people")]

theorem view_columns_iff_name :
    ∃ sql, toQuery (selecting [[("name", .string "name")]]) [namedPeople] = .ok sql ∧
      ((∃ plan, buildPlan (selecting [[("name", .string "name")]]) [namedPeople] = .ok plan ∧
        sql = render plan ∧
        ExposesId (specItems (selecting [[("name", .string "name")]]) "fields").length plan) ↔
        IdFirst (selecting [[("name", .string "name")]]) ∧
          Distinguishable (selecting [[("name", .string "name")]])) := by
  obtain ⟨sql, hsql⟩ := isOk_iff.mp
    (by decide : isOk (toQuery (selecting [[("name", .string "name")]]) [namedPeople]) = true)
  exact ⟨sql, hsql, view_columns_iff hsql⟩

/-- **A view whose `id` is a name**: the name asks for `id` before the source's own does. -/
theorem view_id_shadowed :
    ¬ ∀ (spec : Json) (collections : List Collection) (sql : String),
      toQuery spec collections = .ok sql →
      ∃ plan, buildPlan spec collections = .ok plan ∧ sql = render plan ∧
        ExposesId (specItems spec "fields").length plan := by
  intro hall
  let spec := selecting [[("as", .string "id"), ("name", .string "name")], [("name", .string "id")]]
  have hplan : (buildPlan spec [namedPeople]).toOption.any (fun plan => decide
      ((plan.fields.map fun field => (field.name, field.aliasName)) =
        [("name", "id"), ("id", "id_2")])) = true := by
    decide
  obtain ⟨plan, hplan, hfields⟩ : ∃ plan, buildPlan spec [namedPeople] = .ok plan ∧
      (plan.fields.map fun field => (field.name, field.aliasName)) =
        [("name", "id"), ("id", "id_2")] := by
    cases hbuilt : buildPlan spec [namedPeople] with
    | error e =>
      rw [hbuilt] at hplan
      cases hplan
    | ok plan =>
      rw [hbuilt] at hplan
      exact ⟨plan, rfl, of_decide_eq_true hplan⟩
  obtain ⟨other, hother, -, hexposes⟩ := hall spec [namedPeople] (render plan) (by rw [toQuery, hplan]; rfl)
  obtain rfl := Except.ok.inj (hplan.symm.trans hother)
  obtain ⟨column, hcolumn, -, hname⟩ := hexposes.id
  have hmem : column ∈ plan.fields.filter fun field => field.aliasName = "id" := by
    rw [hcolumn]
    exact List.mem_singleton_self _
  obtain ⟨hin, hid⟩ := List.mem_filter.mp hmem
  have hpair := List.mem_map_of_mem (f := fun field : Output => (field.name, field.aliasName)) hin
  rw [hfields, hname, of_decide_eq_true hid] at hpair
  revert hpair
  decide

end Specs

end LazyPock
