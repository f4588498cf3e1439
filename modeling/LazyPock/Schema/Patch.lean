import LazyPock.Schema.Updates

/-!
# The body of a collection

What the admin endpoints of `crates/api/src/collections.rs` make of a collection that a client sends:
the flat rule keys are folded into `rules`, the index list and the definition of a view into
`options`, and the implicit columns are left out. The data layer replaces the stored `rules` and
`options` by what comes out, while its documentation has it leave absent keys as they were.

## Main definitions

* `Collections.normalizeCollectionBody`, `Collections.UpdateCollection.deserialize`.
* `Collections.patch`: `PATCH /api/collections/{name}`.
* `Collections.NamesRule`, `Collections.NamesOption`,
  `Collections.NamesField`: what a body names, flat or nested.
* `Collections.Framed`: what a body does not name is as it was.

## Main results

* `Collections.patch_framed_iff`: a patch changes only what it names exactly where it names
  every stored key of the objects it replaces.
-/

namespace LazyPock.Collections

open Machine Text Assoc

/-! ### Normalisation -/

/-- The flat rule keys the Studio's collection editor sends as siblings of `name`. -/
def ruleKeys : List String :=
  ["listRule", "viewRule", "createRule", "updateRule", "deleteRule", "manageRule"]

/-- The entries of an object under a key, none where there is no object. -/
def nested (key : String) (entries : List (String × Json)) : List (String × Json) :=
  ((lookup key entries).bind Json.asObject).getD []

/-- The index list and the definition of a view, folded into `options`. -/
def foldOptions (entries : List (String × Json)) : List (String × Json) :=
  let indexes := lookup "indexes" entries
  let query := lookup "viewQuery" entries
  let builder := lookup "viewBuilder" entries
  -- An index list that is `null` is not stored, but it counts as a change.
  let options := insertSome "view_builder" builder (insertSome "view_query" query
    (insertSome "indexes" (indexes.filter fun value => !value.isNull) (nested "options" entries)))
  let rest := erase "viewBuilder" (erase "viewQuery" (erase "indexes" entries))
  if indexes.isSome || query.isSome || builder.isSome then
    insert "options" (.object options) rest
  else rest

/-- A flat rule key of the body, moved to the rules. -/
def foldRule (acc : List (String × Json) × List (String × Json)) (key : String) :
    List (String × Json) × List (String × Json) :=
  (erase key acc.1, insertSome key (lookup key acc.1) acc.2)

/-- The flat rule keys, folded into `rules`. -/
def foldRules (entries : List (String × Json)) : List (String × Json) :=
  let (rest, rules) := ruleKeys.foldl foldRule (entries, nested "rules" entries)
  if rules = [] then rest else insert "rules" (.object rules) rest

/-- Whether an entry of `fields` is one of the implicit columns. -/
def isImplicit (field : Json) : Bool :=
  ((field.get "name").bind Json.asStr).any fun name => name ∈ systemColumns

/-- The implicit columns, which a client echoes back, are left out. -/
def dropImplicit (entries : List (String × Json)) : List (String × Json) :=
  match lookup "fields" entries with
  | some (.array fields) =>
    insert "fields" (.array (fields.filter fun field => !isImplicit field)) entries
  | _ => entries

/-- `normalize_collection_body`: the entries of the object the data layer reads. -/
def normalizeCollectionBody (body : Json) : Result (List (String × Json)) :=
  match body with
  | .object entries => .ok (dropImplicit (foldRules (foldOptions entries)))
  | _ => .error (.invalid "the collection must be a JSON object")

/-- A key that may be absent or `null`. -/
def optionalKey (key : String) (entries : List (String × Json)) : Option Json :=
  (lookup key entries).filter fun value => !value.isNull

/-- The declared fields, where there are any. -/
def declaredFields (entries : List (String × Json)) : Except String (Option (List CreateField)) :=
  match optionalKey "fields" entries with
  | none => .ok none
  | some (.array items) => do
    let fields ← items.mapM CreateField.deserialize
    .ok (some fields)
  | some other => CreateField.typeError other "a sequence"

/-- `UpdateCollection::deserialize`: keys it does not know are ignored, and a body does not reach
`delete_missing_fields`. -/
def UpdateCollection.deserialize (entries : List (String × Json)) : Except String UpdateCollection := do
  let fields ← declaredFields entries
  .ok ⟨optionalKey "rules" entries, optionalKey "options" entries, fields, false⟩

/-! ### The endpoint -/

variable (sha : String → String) (server : Server) (toQuery : Json → List Collection → Result String)

/-- The update that a body asks for. -/
def readUpdate (body : Json) : Result UpdateCollection := do
  let entries ← normalizeCollectionBody body
  (UpdateCollection.deserialize entries).mapError fun e => .invalid ("invalid collection: " ++ e)

/-- `PATCH /api/collections/{name}`, for a superuser. -/
def patch (name : String) (body : Json) (ids : ℕ → String) : Saga Db Error Collection := do
  let input ← Saga.lift (readUpdate body)
  Saga.read fun db => failIf (find db name).isNone (.notFound ("no collection named " ++ debug name))
  update sha server toQuery name input ids

/-! ### What a body names -/

/-- The flat spelling of a settings key, and the key. -/
def optionKeys : List (String × String) :=
  [("indexes", "indexes"), ("viewQuery", "view_query"), ("viewBuilder", "view_builder")]

/-- A rule is named flat, or in `rules`. -/
def NamesRule (body : Json) (key : String) : Prop :=
  (body.get key).isSome ∨ ((body.get "rules").bind (Json.get key)).isSome

instance (body : Json) (key : String) : Decidable (NamesRule body key) :=
  inferInstanceAs (Decidable ((body.get key).isSome ∨ ((body.get "rules").bind (Json.get key)).isSome))

/-- A settings key is named flat, or in `options`. -/
def NamesOption (body : Json) (key : String) : Prop :=
  (∃ flat, (flat, key) ∈ optionKeys ∧ (body.get flat).isSome) ∨
    ((body.get "options").bind (Json.get key)).isSome

/-- A field is named by an entry of `fields`. -/
def NamesField (body : Json) (name : String) : Prop :=
  ∃ items, body.get "fields" = some (.array items) ∧ ∃ item ∈ items, item.get "name" = some (.string name)

/-- The body has rules for the stored ones to be replaced by. -/
def ReplacesRules (body : Json) : Prop :=
  (∃ key ∈ ruleKeys, (body.get key).isSome) ∨ (body.getNonNull "rules").isSome

/-- The body has options for the stored ones to be replaced by. -/
def ReplacesOptions (body : Json) : Prop :=
  (∃ entry ∈ optionKeys, (body.get entry.1).isSome) ∨ (body.getNonNull "options").isSome

/-- **What a body does not name is as it was.** -/
structure Framed (body : Json) (before after : Collection) : Prop where
  rules : ∀ key ∈ ruleKeys, ¬ NamesRule body key → after.rules.get key = before.rules.get key
  options : ∀ key, ¬ NamesOption body key → after.options.get key = before.options.get key
  fields : ∀ f : Field, ¬ NamesField body f.name → (f ∈ after.fields ↔ f ∈ before.fields)

/-- Where the body replaces the rules or the options, it names every key that is stored in them. -/
structure NamesStored (body : Json) (before : Collection) : Prop where
  rules : ReplacesRules body → ∀ key ∈ ruleKeys, (before.rules.get key).isSome → NamesRule body key
  options : ReplacesOptions body → ∀ key, (before.options.get key).isSome → NamesOption body key

/-! ### What a body comes to -/

section Normalised

variable {entries normalised : List (String × Json)} {key : String}

theorem get_nested (outer : String) :
    lookup key (nested outer entries) =
      ((lookup outer entries).bind (Json.get key)) := by
  unfold nested
  cases lookup outer entries with
  | none => rfl
  | some value => cases value <;> rfl

/-- A key that no step of the normalisation is about. -/
theorem lookup_foldOptions_of_ne (hoptions : key ≠ "options") (hflat : ∀ e ∈ optionKeys, key ≠ e.1) :
    lookup key (foldOptions entries) = lookup key entries := by
  have hrest : lookup key (erase "viewBuilder" (erase "viewQuery"
      (erase "indexes" entries))) = lookup key entries := by
    rw [lookup_erase_of_ne (hflat ("viewBuilder", "view_builder") (by simp [optionKeys])),
      lookup_erase_of_ne (hflat ("viewQuery", "view_query") (by simp [optionKeys])),
      lookup_erase_of_ne (hflat ("indexes", "indexes") (by simp [optionKeys]))]
  unfold foldOptions
  dsimp only
  split_ifs
  · rw [lookup_insert_of_ne hoptions, hrest]
  · exact hrest

/-- Folding rule keys takes them from the body, where they are distinct and none of them is there
twice. -/
theorem lookup_foldl_foldRule (keys : List String) (hnodup : keys.Nodup)
    (acc : List (String × Json) × List (String × Json)) :
    (∀ key, lookup key (keys.foldl foldRule acc).1 =
        if key ∈ keys then none else lookup key acc.1) ∧
      ∀ key, lookup key (keys.foldl foldRule acc).2 =
        if key ∈ keys then (lookup key acc.1).or (lookup key acc.2)
        else lookup key acc.2 := by
  induction keys generalizing acc with
  | nil => simp
  | cons first rest ih =>
    obtain ⟨hfirst, hrest⟩ := List.nodup_cons.mp hnodup
    obtain ⟨hbody, hrules⟩ := ih hrest (foldRule acc first)
    constructor <;> intro key
    · rw [List.foldl_cons, hbody key, foldRule]
      by_cases heq : key = first
      · simp [heq, lookup_erase_self]
      · simp [heq, lookup_erase_of_ne heq]
    · rw [List.foldl_cons, hrules key, foldRule]
      by_cases heq : key = first
      · simp [heq, hfirst, lookup_insertSome_self]
      · simp [heq, lookup_erase_of_ne heq, lookup_insertSome_of_ne heq]

theorem nodup_ruleKeys : ruleKeys.Nodup := by decide

theorem lookup_foldRules_of_ne (hrules : key ≠ "rules") (hkey : key ∉ ruleKeys) :
    lookup key (foldRules entries) = lookup key entries := by
  obtain ⟨hbody, -⟩ := lookup_foldl_foldRule ruleKeys nodup_ruleKeys (entries, nested "rules" entries)
  unfold foldRules
  dsimp only
  split_ifs
  · rw [hbody key, if_neg hkey]
  · rw [lookup_insert_of_ne hrules, hbody key, if_neg hkey]

theorem lookup_dropImplicit_of_ne (h : key ≠ "fields") :
    lookup key (dropImplicit entries) = lookup key entries := by
  unfold dropImplicit
  split
  · rw [lookup_insert_of_ne h]
  · rfl

theorem bind_get_of_null {value : Option Json} (h : (value.filter fun v => !v.isNull) = none) :
    value.bind (Json.get key) = none := by
  cases value with
  | none => rfl
  | some v => cases v <;> simp_all [Json.isNull, Json.get]

theorem lookup_fields :
    lookup "fields" (foldRules (foldOptions entries)) = lookup "fields" entries := by
  rw [lookup_foldRules_of_ne (by decide) (by decide), lookup_foldOptions_of_ne (by decide) (by decide)]

/-- The rules with the flat keys among them. -/
theorem lookup_rules :
    ∃ rules : List (String × Json),
      (∀ key, lookup key rules = if key ∈ ruleKeys then
        (lookup key entries).or ((lookup "rules" entries).bind (Json.get key))
        else (lookup "rules" entries).bind (Json.get key)) ∧
      lookup "rules" (dropImplicit (foldRules (foldOptions entries))) =
        if rules = [] then lookup "rules" entries else some (.object rules) := by
  obtain ⟨hbody, hrules⟩ := lookup_foldl_foldRule ruleKeys nodup_ruleKeys
    (foldOptions entries, nested "rules" (foldOptions entries))
  have hsame : lookup "rules" (foldOptions entries) = lookup "rules" entries :=
    lookup_foldOptions_of_ne (by decide) (by decide)
  refine ⟨(ruleKeys.foldl foldRule (foldOptions entries, nested "rules" (foldOptions entries))).2,
    fun key => ?_, ?_⟩
  · rw [hrules key, get_nested, hsame]
    split_ifs with hkey
    · rw [lookup_foldOptions_of_ne (by rintro rfl; revert hkey; decide)
        (by rintro e he rfl; revert e; decide)]
    · rfl
  · rw [lookup_dropImplicit_of_ne (by decide), foldRules]
    dsimp only
    split_ifs
    · rw [hbody "rules", if_neg (by decide), hsame]
    · rw [lookup_insert_self]

/-- The options with the index list and the definition of a view among them. -/
theorem lookup_options :
    lookup "options" (dropImplicit (foldRules (foldOptions entries))) =
        lookup "options" entries ∧ (∀ e ∈ optionKeys, lookup e.1 entries = none) ∨
      (∃ e ∈ optionKeys, (lookup e.1 entries).isSome) ∧ ∃ options,
        lookup "options" (dropImplicit (foldRules (foldOptions entries))) =
          some (.object options) ∧
        ∀ key, (∀ e ∈ optionKeys, key = e.2 → lookup e.1 entries = none) →
          lookup key options = (lookup "options" entries).bind (Json.get key) := by
  rw [lookup_dropImplicit_of_ne (by decide), lookup_foldRules_of_ne (by decide) (by decide)]
  unfold foldOptions
  dsimp only
  split_ifs with hchanged
  · refine .inr ⟨?_, _, lookup_insert_self _ _ _, fun key hkey => ?_⟩
    · simpa [optionKeys, or_assoc] using hchanged
    · simp only [optionKeys, List.forall_mem_cons] at hkey
      obtain ⟨hindexes, hquery, hbuilder, -⟩ := hkey
      rw [← get_nested]
      by_cases h₁ : key = "view_builder"
      · rw [hbuilder h₁, insertSome, h₁, lookup_insertSome_of_ne (by decide),
          lookup_insertSome_of_ne (by decide)]
      · rw [lookup_insertSome_of_ne h₁]
        by_cases h₂ : key = "view_query"
        · rw [hquery h₂, insertSome, h₂, lookup_insertSome_of_ne (by decide)]
        · rw [lookup_insertSome_of_ne h₂]
          by_cases h₃ : key = "indexes"
          · rw [hindexes h₃, Option.filter_none, insertSome]
          · rw [lookup_insertSome_of_ne h₃]
  · simp only [Bool.or_eq_true, not_or, Option.not_isSome_iff_eq_none] at hchanged
    obtain ⟨⟨hindexes, hquery⟩, hbuilder⟩ := hchanged
    refine .inl ⟨?_, by simp [optionKeys, hindexes, hquery, hbuilder]⟩
    rw [lookup_erase_of_ne (by decide), lookup_erase_of_ne (by decide),
      lookup_erase_of_ne (by decide)]

end Normalised

/-! ### What an update is read as -/

section Read

variable {body : Json} {input : UpdateCollection}

theorem readUpdate_eq_ok :
    readUpdate body = .ok input ↔ ∃ entries, body = .object entries ∧
      declaredFields (dropImplicit (foldRules (foldOptions entries))) = .ok input.fields ∧
      input.rules = optionalKey "rules" (dropImplicit (foldRules (foldOptions entries))) ∧
      input.options = optionalKey "options" (dropImplicit (foldRules (foldOptions entries))) ∧
      input.deleteMissingFields = false := by
  unfold readUpdate
  rw [bind_eq_ok]
  simp only [mapError_eq_ok, UpdateCollection.deserialize, bind_eq_ok]
  constructor
  · rintro ⟨normalised, hbody, fields, hfields, hinput⟩
    cases body with
    | object entries =>
      obtain rfl := Except.ok.inj hbody
      obtain rfl := Except.ok.inj hinput
      exact ⟨entries, rfl, hfields, rfl, rfl, rfl⟩
    | null | bool _ | number _ | string _ | array _ => cases hbody
  · rintro ⟨entries, rfl, hfields, hrules, hoptions, hdelete⟩
    refine ⟨_, rfl, input.fields, hfields, ?_⟩
    rw [← hrules, ← hoptions, ← hdelete]

/-- The rules that replace the stored ones hold what the body names. -/
theorem rules_of_readUpdate (h : readUpdate body = .ok input) :
    (¬ ReplacesRules body → input.rules = none) ∧ (ReplacesRules body →
      ∃ rules, input.rules = some rules ∧
        ∀ key ∈ ruleKeys, ¬ NamesRule body key → rules.get key = none) := by
  obtain ⟨entries, rfl, -, hinput, -⟩ := readUpdate_eq_ok.mp h
  obtain ⟨rules, hlookup, hrules⟩ := @lookup_rules entries
  rw [hinput, optionalKey, hrules]
  have hunnamed : ∀ key ∈ ruleKeys, ¬ NamesRule (.object entries) key →
      lookup key rules = none ∧ (lookup "rules" entries).bind (Json.get key) = none := by
    intro key hkey hnamed
    simp only [NamesRule, Json.get_object, not_or, Option.not_isSome_iff_eq_none] at hnamed
    rw [hlookup key, if_pos hkey, hnamed.1, hnamed.2]
    exact ⟨rfl, rfl⟩
  split_ifs with hempty
  · -- No rule is named, so that the rules of the body, if it has any, are taken as they are.
    have hflat : ∀ key ∈ ruleKeys, lookup key entries = none := by
      intro key hkey
      have hnone := hlookup key
      rw [hempty, lookup_nil, if_pos hkey, eq_comm, Option.or_eq_none_iff] at hnone
      exact hnone.1
    have hreplaces : ReplacesRules (.object entries) ↔
        ((lookup "rules" entries).filter fun value => !value.isNull).isSome := by
      refine or_iff_right ?_
      rintro ⟨key, hkey, hsome⟩
      rw [Json.get_object, hflat key hkey] at hsome
      cases hsome
    rw [hreplaces]
    refine ⟨Option.not_isSome_iff_eq_none.mp, fun hsome => ?_⟩
    obtain ⟨value, hvalue⟩ := Option.isSome_iff_exists.mp hsome
    refine ⟨value, hvalue, fun key hkey hnamed => ?_⟩
    have hnone := (hunnamed key hkey hnamed).2
    rwa [(Option.filter_eq_some_iff.mp hvalue).1] at hnone
  · refine ⟨fun hnot => absurd (eq_nil_of_lookup fun key => ?_) hempty, fun _ => ⟨_, rfl,
      fun key hkey hnamed => (hunnamed key hkey hnamed).1⟩⟩
    simp only [ReplacesRules, not_or, not_exists, not_and, Json.getNonNull, Json.get_object,
      Option.not_isSome_iff_eq_none] at hnot
    obtain ⟨hflat, hnested⟩ := hnot
    have hnone : (lookup "rules" entries).bind (Json.get key) = none := bind_get_of_null hnested
    rw [hlookup key, hnone]
    split_ifs with hkey
    · rw [hflat key hkey, Option.or_none]
    · rfl

/-- The options that replace the stored ones hold what the body names. -/
theorem options_of_readUpdate (h : readUpdate body = .ok input) :
    (¬ ReplacesOptions body → input.options = none) ∧ (ReplacesOptions body →
      ∃ options, input.options = some options ∧
        ∀ key, ¬ NamesOption body key → options.get key = none) := by
  obtain ⟨entries, rfl, -, -, hinput, -⟩ := readUpdate_eq_ok.mp h
  rw [hinput, optionalKey]
  have hunnamed : ∀ key, ¬ NamesOption (.object entries) key →
      (∀ e ∈ optionKeys, key = e.2 → lookup e.1 entries = none) ∧
        (lookup "options" entries).bind (Json.get key) = none := by
    intro key hnamed
    simp only [NamesOption, Json.get_object, not_or, not_exists, not_and,
      Option.not_isSome_iff_eq_none] at hnamed
    exact ⟨fun e he heq => hnamed.1 e.1 (heq ▸ he), hnamed.2⟩
  rcases @lookup_options entries with ⟨hsame, hflat⟩ | ⟨hflat, options, hsame, hlookup⟩
  · have hreplaces : ReplacesOptions (.object entries) ↔
        ((lookup "options" entries).filter fun value => !value.isNull).isSome := by
      refine or_iff_right ?_
      rintro ⟨e, he, hsome⟩
      rw [Json.get_object, hflat e he] at hsome
      cases hsome
    rw [hreplaces, hsame]
    refine ⟨Option.not_isSome_iff_eq_none.mp, fun hsome => ?_⟩
    obtain ⟨value, hvalue⟩ := Option.isSome_iff_exists.mp hsome
    refine ⟨value, hvalue, fun key hnamed => ?_⟩
    have hnone := (hunnamed key hnamed).2
    rwa [(Option.filter_eq_some_iff.mp hvalue).1] at hnone
  · rw [hsame]
    refine ⟨fun hnot => absurd (.inl hflat) hnot, fun _ => ⟨_, rfl, fun key hnamed => ?_⟩⟩
    obtain ⟨hkey, hnone⟩ := hunnamed key hnamed
    rw [Json.get_object, hlookup key hkey, hnone]

/-- What is declared is read from the entries that are no implicit columns. -/
theorem declaredFields_eq_ok {entries : List (String × Json)} {fields : Option (List CreateField)}
    (h : declaredFields (dropImplicit (foldRules (foldOptions entries))) = .ok fields)
    {f : CreateField} (hf : f ∈ fields.getD []) :
    ∃ items, lookup "fields" entries = some (.array items) ∧
      ∃ item ∈ items, CreateField.deserialize item = .ok f := by
  rw [← lookup_fields]
  unfold declaredFields optionalKey dropImplicit at h
  split at h
  next hnone =>
    obtain rfl := Except.ok.inj h
    cases hf
  next items hitems =>
    split at hitems
    next stored hstored =>
      rw [lookup_insert_self] at hitems
      obtain rfl := Json.array.inj (Option.some.inj (Option.filter_eq_some_iff.mp hitems).1)
      obtain ⟨declared, hdeclared, h⟩ := bind_eq_ok.mp h
      obtain rfl := Except.ok.inj h
      obtain ⟨item, hitem, hread⟩ := exists_of_mapM hdeclared hf
      exact ⟨stored, hstored, item, List.mem_of_mem_filter hitem, hread⟩
    next hnone => exact absurd (Option.filter_eq_some_iff.mp hitems).1 (hnone items)
  next => cases h

/-- A declared field was named. -/
theorem fields_of_readUpdate (h : readUpdate body = .ok input) {f : CreateField}
    (hf : f ∈ input.fields.getD []) : NamesField body f.name := by
  obtain ⟨entries, rfl, hfields, -⟩ := readUpdate_eq_ok.mp h
  obtain ⟨items, hitems, item, hitem, hread⟩ := declaredFields_eq_ok hfields hf
  refine ⟨items, hitems, item, hitem, ?_⟩
  obtain ⟨value, hvalue, hname⟩ := Option.bind_eq_some_iff.mp (CreateField.name_of_deserialize hread)
  cases value with
  | string s => rw [hvalue, Option.some.inj hname]
  | null | bool _ | number _ | array _ | object _ => cases hname

end Read

/-! ### What a patch changes -/

section Framing

variable {sha server toQuery} {ids : ℕ → String} {name : String} {body : Json} {db after : Db}
  {existing updated : Collection}

theorem update_of_patch (h : patch sha server toQuery name body ids db = (.ok updated, after)) :
    ∃ input, readUpdate body = .ok input ∧
      update sha server toQuery name input ids db = (.ok updated, after) := by
  obtain ⟨input, hinput, h⟩ := Saga.lift_bind_eq_ok.mp h
  obtain ⟨_, start, hfound, h⟩ := Saga.bind_eq_ok.mp h
  obtain rfl : db = start := congrArg Prod.snd hfound
  exact ⟨input, hinput, h⟩

/-- A replacement keeps the entries that are not named exactly where none of these is stored. -/
theorem keeps_iff {keys Named : String → Prop} {Replaces : Prop} {replacement : Option Json} {old : Json}
    (hleft : ¬ Replaces → replacement = none)
    (hreplaced : Replaces → ∃ value, replacement = some value ∧
      ∀ key, keys key → ¬ Named key → value.get key = none) :
    (∀ key, keys key → ¬ Named key → (replacement.getD old).get key = old.get key) ↔
      (Replaces → ∀ key, keys key → (old.get key).isSome → Named key) := by
  constructor
  · intro hkept hreplaces key hkey hsome
    obtain ⟨value, hvalue, hnone⟩ := hreplaced hreplaces
    by_contra hnamed
    have hsame := hkept key hkey hnamed
    rw [hvalue, Option.getD_some, hnone key hkey hnamed] at hsame
    rw [← hsame] at hsome
    cases hsome
  · intro hstored key hkey hnamed
    by_cases hreplaces : Replaces
    · obtain ⟨value, hvalue, hnone⟩ := hreplaced hreplaces
      rw [hvalue, Option.getD_some, hnone key hkey hnamed]
      by_contra hsome
      exact hnamed (hstored hreplaces key hkey (Option.isSome_iff_ne_none.mpr (Ne.symm hsome)))
    · rw [hleft hreplaces, Option.getD_none]

/-- What a patch leaves of its collection. -/
theorem stored_of_patch (hget : get db name = .ok existing) (htype : existing.collectionType ≠ .view)
    (h : patch sha server toQuery name body ids db = (.ok updated, after)) :
    ∃ input, readUpdate body = .ok input ∧ ∃ stored ∈ after.collections, stored.id = existing.id ∧
      stored.rules = input.rules.getD existing.rules ∧
      stored.options = input.options.getD existing.options ∧
      ∀ f : Field, f.name ∉ (input.fields.getD []).map CreateField.name →
        (f ∈ stored.fields ↔ f ∈ existing.fields) := by
  obtain ⟨input, hinput, hupdate⟩ := update_of_patch h
  have hdelete : input.deleteMissingFields = false := by
    obtain ⟨-, -, -, -, -, hdelete⟩ := readUpdate_eq_ok.mp hinput
    exact hdelete
  have hspared := update_spared hget htype hdelete hupdate
  obtain ⟨before, hbefore, rfl, -⟩ := exists_of_get hget
  have hmem := List.mem_map_of_mem (f := fun c =>
      if c.id = (loadFields db before).id then
        { c with
          rules := input.rules.getD (loadFields db before).rules
          options := input.options.getD (loadFields db before).options }
      else c)
    (List.mem_map_of_mem (f := Db.sparedFields ((input.fields.getD []).map CreateField.name)) hbefore)
  dsimp only at hspared
  have hown : (Db.sparedFields ((input.fields.getD []).map CreateField.name) before).id =
      (loadFields db before).id := rfl
  rw [← Db.spared, ← hspared, if_pos hown] at hmem
  obtain ⟨stored, hstored, hsame⟩ := List.mem_map.mp hmem
  have hid := congrArg Collection.id hsame
  have hrules := congrArg Collection.rules hsame
  have hoptions := congrArg Collection.options hsame
  have hfields := congrArg Collection.fields hsame
  refine ⟨input, hinput, stored, hstored, hid, hrules, hoptions, fun f hf => ?_⟩
  rw [mem_fields_loadFields (c := before) htype]
  have hspares : ∀ c : Collection, f ∈ (Db.sparedFields ((input.fields.getD []).map CreateField.name)
      c).fields ↔ f ∈ c.fields := fun c => by
    simp only [Db.sparedFields, List.mem_filter, hf, not_false_eq_true, decide_true, and_true]
  rw [← hspares stored, hfields]
  exact hspares before

/-- **Which patches change only what they name**: those that name every stored key of the rules and
of the options they replace. The fields that are not named are always kept. -/
theorem patch_framed_iff (hget : get db name = .ok existing)
    (htype : existing.collectionType ≠ .view)
    (h : patch sha server toQuery name body ids db = (.ok updated, after)) :
    (∃ stored ∈ after.collections, stored.id = existing.id ∧ Framed body existing stored) ↔
      NamesStored body existing := by
  obtain ⟨input, hinput, stored, hstored, hid, hrules, hoptions, hfields⟩ := stored_of_patch hget htype h
  obtain ⟨hleft, hreplaced⟩ := rules_of_readUpdate hinput
  obtain ⟨hleft', hreplaced'⟩ := options_of_readUpdate hinput
  have hrule := @keeps_iff (· ∈ ruleKeys) _ _ _ existing.rules hleft hreplaced
  have hoption := @keeps_iff (fun _ => True) _ _ _ existing.options hleft' fun hreplaces =>
    (hreplaced' hreplaces).imp fun _ ⟨hvalue, hnone⟩ => ⟨hvalue, fun key _ => hnone key⟩
  rw [← hrules] at hrule
  rw [← hoptions] at hoption
  constructor
  · rintro ⟨other, hother, hsame, hframed⟩
    obtain rfl : other = stored :=
      List.inj_on_of_nodup_map after.keyed.ids hother hstored (hsame.trans hid.symm)
    exact ⟨hrule.mp hframed.rules, fun hreplaces key => hoption.mp
      (fun key _ => hframed.options key) hreplaces key trivial⟩
  · rintro ⟨hnamed, hnamed'⟩
    refine ⟨stored, hstored, hid, hrule.mpr hnamed, fun key => hoption.mpr
      (fun hreplaces key _ => hnamed' hreplaces key) key trivial, fun f hf => hfields f fun hmem => ?_⟩
    obtain ⟨declared, hdeclared, hname⟩ := List.mem_map.mp hmem
    exact hf (hname ▸ fields_of_readUpdate hinput hdeclared)

end Framing

/-! ### A rule that is lost -/

/-- A collection that anybody may list and view. -/
def openNotes : Db :=
  (create noSha .lenient noBuilder
    ⟨"notes", .base, [], .object [("listRule", .string ""), ("viewRule", .string "")], .object [], false⟩
    ⟨"n0", fun _ => "f", fun _ => "b"⟩ .empty).2

abbrev patchNotes (body : Json) : Result Collection × Db :=
  patch noSha .lenient noBuilder "notes" body (fun _ => "p") openNotes

/-- A patch that names both rules, one of them in each spelling, keeps everything else. -/
theorem patch_framed_notes : ∃ existing, get openNotes "notes" = .ok existing ∧
    ∃ stored ∈ (patchNotes (.object [("listRule", .null),
        ("rules", .object [("viewRule", .string "")])])).2.collections,
      stored.id = existing.id ∧
        Framed (.object [("listRule", .null), ("rules", .object [("viewRule", .string "")])]) existing
          stored := by
  obtain ⟨existing, hget⟩ := isOk_iff.mp (show isOk (get openNotes "notes") = true by decide)
  obtain ⟨updated, hpatch⟩ := isOk_iff.mp (show isOk (patchNotes (.object
    [("listRule", .null), ("rules", .object [("viewRule", .string "")])])).1 = true by decide)
  have hexisting : ((get openNotes "notes").toOption.map fun c => (c.collectionType, c.rules, c.options)) =
      some (.base, .object [("listRule", .string ""), ("viewRule", .string "")], .object []) := by
    decide
  rw [hget] at hexisting
  obtain ⟨htype, hrules, hoptions⟩ :
      existing.collectionType = .base ∧ existing.rules = _ ∧ existing.options = _ := by
    simpa [Except.toOption] using hexisting
  refine ⟨existing, hget, (patch_framed_iff hget (by simp [htype]) (Saga.apply_of_fst hpatch)).mpr ⟨?_, ?_⟩⟩
  · intro _ key hkey hsome
    rw [hrules] at hsome
    revert key
    decide
  · intro _ key hsome
    rw [hoptions] at hsome
    cases hsome

/-- **A patch of one rule loses another**: what is sent replaces the stored rules as a whole. -/
theorem patch_loses_rule : ∃ existing updated,
    get openNotes "notes" = .ok existing ∧ existing.collectionType ≠ .view ∧
      (patchNotes (.object [("listRule", .null)])).1 = .ok updated ∧
      ¬ ∃ stored ∈ (patchNotes (.object [("listRule", .null)])).2.collections,
        stored.id = existing.id ∧ Framed (.object [("listRule", .null)]) existing stored := by
  obtain ⟨existing, hget⟩ := isOk_iff.mp (show isOk (get openNotes "notes") = true by decide)
  obtain ⟨updated, hpatch⟩ := isOk_iff.mp
    (show isOk (patchNotes (.object [("listRule", .null)])).1 = true by decide)
  have hexisting : ((get openNotes "notes").toOption.map fun c =>
      (c.collectionType, c.rules.get "viewRule")) = some (.base, some (.string "")) := by
    decide
  rw [hget] at hexisting
  obtain ⟨htype, hrule⟩ : existing.collectionType = .base ∧ existing.rules.get "viewRule" = _ := by
    simpa [Except.toOption] using hexisting
  refine ⟨existing, updated, hget, by simp [htype], hpatch, ?_⟩
  rintro ⟨stored, hstored, -, hframed⟩
  have hgone : ((patchNotes (.object [("listRule", .null)])).2.collections.all fun c =>
      c.rules.get "viewRule" = none) = true := by
    decide
  have hnone := of_decide_eq_true (List.all_eq_true.mp hgone stored hstored)
  have hkept := hframed.rules "viewRule" (by decide) (by decide)
  rw [hnone, hrule] at hkept
  cases hkept

end LazyPock.Collections
