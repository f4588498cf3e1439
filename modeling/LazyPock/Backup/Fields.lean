import LazyPock.Schema.Collection

/-!
# Field definitions in an archive

`export` writes a field as its JSON and `field_to_create` reads it back
(`crates/db/src/backup.rs`). The JSON puts the field's own attributes beside `options`, and the
reader takes every key it does not know for a setting, so the two share one namespace: this module
works out which settings survive.

## Main definitions

* `fieldToCreate`: reading an archive's field object.
* `Field.reread`: the definition an exported field is read back as.
* `RoundTrips`: a definition survives an export and an import.

## Main results

* `fieldToCreate_toJson`: what is read back from an exported field.
* `columnType_reread`, `defaultSql_reread`: the column and its default are kept.
* `relationTarget_reread`: the relation target is kept only where the options already
  hold a `collectionId`, or name the owner.
* `roundTrips_iff`: exactly which definitions survive.
-/

namespace LazyPock

open Text Assoc

/-- Map an archive's field object onto the data layer's input; nothing for a field the server
owns. -/
def fieldToCreate (value : Json) (collectionType : CollectionType) : Result (Option CreateField) := do
  let name ← okOr (.invalid "an archive field has no name") ((value.get "name").bind Json.asStr)
  let system := ((value.get "system").bind Json.asBool).getD false
  if system || isBuiltinColumn collectionType name then .ok none
  else match CreateField.deserialize value with
    | .ok field => .ok (some field)
    | .error err => .error (.invalid ("the field " ++ debug name ++ " is invalid: " ++ err))

/-- The attributes of a field that its JSON writes beside the options and that the reader takes for
settings. -/
def Field.attributes (field : Field) : List (String × Json) :=
  [("collectionId", .string field.collectionId), ("id", .string field.id),
    ("sort_order", .ofInt field.position)]

/-- The options an exported field is read back with. -/
def Field.mergedOptions (field : Field) (options : List (String × Json)) : List (String × Json) :=
  insertAll field.attributes options

/-- The definition an exported field is read back as. -/
def Field.reread (field : Field) (options : List (String × Json)) : CreateField :=
  ⟨field.name, field.fieldType, field.required, field.isUnique, .object (field.mergedOptions options)⟩

/-- The field a definition is stored as. -/
def CreateField.stored (input : CreateField) (id collectionId : String) (position : Int) : Field :=
  ⟨id, collectionId, input.name, input.fieldType, input.required, input.unique, input.options,
    position⟩

section Reread

variable {field : Field} {options : List (String × Json)}

/-- An exported field reads back as its attributes and options merged, unless the server owns
it. -/
theorem fieldToCreate_toJson (hoptions : field.options = .object options) (t : CollectionType) :
    fieldToCreate field.toJson t =
      .ok (if isBuiltinColumn t field.name then none else some (field.reread options)) := by
  have hname : (field.toJson.get "name").bind Json.asStr = some field.name := rfl
  have hsystem : ((field.toJson.get "system").bind Json.asBool).getD false = false := rfl
  have hparse : FieldType.parse field.fieldType.asStr = .ok field.fieldType :=
    FieldType.parse_asStr field.fieldType
  have hread : CreateField.deserialize field.toJson = .ok (field.reread options) := by
    simp only [Field.toJson, hoptions, CreateField.deserialize, CreateField.stringKey,
      CreateField.boolKey, lookup]
    simp only [String.reduceEq, ↓reduceIte]
    simp only [bind, Except.bind, hparse]
    rfl
  unfold fieldToCreate
  rw [hname, hsystem, hread]
  cases hb : isBuiltinColumn t field.name <;> simp [bind, Except.bind, hb]

theorem sorted_mergedOptions (field : Field) (options : List (String × Json)) :
    Sorted (field.mergedOptions options) := by
  refine Sorted.insertAll ?_
  have h₁ : "collectionId" < "id" := by decide
  have h₂ : "id" < "sort_order" := by decide
  simp only [Field.attributes, Sorted, List.pairwise_cons, List.forall_mem_cons]
  exact ⟨⟨h₁, lt_trans h₁ h₂, by simp⟩, ⟨h₂, by simp⟩, by simp, .nil⟩

/-- The options win over the attributes. -/
theorem lookup_mergedOptions (field : Field) (hsorted : Sorted options) (key : String) :
    lookup key (field.mergedOptions options) =
      (lookup key options).or (lookup key field.attributes) :=
  lookup_insertAll hsorted key

/-- Only the keys of the attributes can differ after an export and an import. -/
theorem get_mergedOptions (field : Field) (hsorted : Sorted options) {key : String}
    (hkey : key ∈ "collection" :: optionKeys) :
    (Json.object (field.mergedOptions options)).get key = (Json.object options).get key := by
  have hne : key ≠ "collectionId" ∧ key ≠ "id" ∧ key ≠ "sort_order" := by
    revert key
    decide
  have hnone : lookup key field.attributes = none := by
    simp [Field.attributes, lookup, hne.1.symm, hne.2.1.symm, hne.2.2.symm]
  rw [Json.get_object, Json.get_object, lookup_mergedOptions field hsorted, hnone, Option.or_none]

/-- **The relation target after an export and an import.** The owner's id stands beside the options
under the name a relation's target has, and is taken for it unless the options hold one. -/
theorem relationTarget_reread (field : Field) (hsorted : Sorted options) :
    relationTarget (.object (field.mergedOptions options)) =
      if (lookup "collectionId" options).isSome ∨ field.collectionId = "" then
        relationTarget (.object options)
      else some field.collectionId := by
  have hid : (Json.object (field.mergedOptions options)).get "collectionId" =
      (lookup "collectionId" options).or (some (.string field.collectionId)) := by
    rw [Json.get_object, lookup_mergedOptions field hsorted]
    rfl
  have hcollection : (Json.object (field.mergedOptions options)).get "collection" =
      (Json.object options).get "collection" := get_mergedOptions field hsorted (by decide)
  unfold relationTarget
  rw [hid, hcollection, Json.get_object "collectionId"]
  cases hown : lookup "collectionId" options with
  | some v => simp
  | none =>
    by_cases hempty : field.collectionId = ""
    · simp [hempty, Json.asStr, Option.filter]
    · simp [hempty, Json.asStr]

theorem validateOptions_reread (hsorted : Sorted options)
    (hvalid : validateOptions field.fieldType (.object options) = .ok ()) :
    validateOptions field.fieldType (.object (field.mergedOptions options)) = .ok () := by
  have hkeys : ∀ key ∈ optionKeys, (Json.object (field.mergedOptions options)).get key =
      (Json.object options).get key := fun _ hkey =>
    get_mergedOptions field hsorted (List.mem_cons_of_mem _ hkey)
  rw [validateOptions_congr field.fieldType rfl rfl hkeys, hvalid]
  intro hrelation
  rw [hrelation] at hvalid
  have hsome := isSome_relationTarget_of_valid hvalid
  rw [relationTarget_reread field hsorted]
  split_ifs
  · rfl
  · simpa using hsome

/-- An export and an import keep the column type. -/
theorem columnType_reread (hsorted : Sorted options)
    (hvalid : validateOptions field.fieldType (.object options) = .ok ()) :
    columnType field.fieldType (.object (field.mergedOptions options)) =
      columnType field.fieldType (.object options) := by
  have hsame : columnTypeOf field.fieldType (.object (field.mergedOptions options)) =
      columnTypeOf field.fieldType (.object options) :=
    columnTypeOf_congr _ fun _ hkey =>
      get_mergedOptions field hsorted (List.mem_cons_of_mem _ (List.mem_append_left _ hkey))
  rw [columnType_eq_ok.mpr ⟨validateOptions_reread hsorted hvalid, hsame⟩,
    columnType_eq_ok.mpr ⟨hvalid, rfl⟩]

/-- An export and an import keep the declared default. -/
theorem defaultSql_reread (hsorted : Sorted options) :
    defaultSql field.fieldType (.object (field.mergedOptions options)) =
      defaultSql field.fieldType (.object options) :=
  defaultSql_congr _ fun _ hkey =>
    get_mergedOptions field hsorted (List.mem_cons_of_mem _ (List.mem_append_left _ hkey))

/-- Once the attributes are among the options, another export and import finds them there. -/
theorem mergedOptions_reread (hsorted : Sorted options) (id owner : String) (position : Int) :
    ((field.reread options).stored id owner position).mergedOptions (field.mergedOptions options) =
      field.mergedOptions options := by
  have hmerged := sorted_mergedOptions field options
  refine Sorted.ext (sorted_mergedOptions _ _) hmerged fun key => ?_
  rw [lookup_mergedOptions _ hmerged]
  cases hkey : lookup key (field.mergedOptions options) with
  | some v => rfl
  | none =>
    rw [lookup_mergedOptions field hsorted, Option.or_eq_none_iff] at hkey
    have hnone := hkey.2
    simp only [Field.attributes, lookup] at hnone ⊢
    split_ifs at hnone ⊢
    rfl

end Reread

/-! ### Which definitions survive -/

/-- A stored field is the same definition after an export and an import, and a second round trip
changes nothing. -/
def RoundTrips (field : Field) (t : CollectionType) : Prop :=
  ∃ g, fieldToCreate field.toJson t = .ok (some g) ∧
    g.name = field.name ∧ g.fieldType = field.fieldType ∧ g.required = field.required ∧
    g.unique = field.isUnique ∧
    relationTarget g.options = relationTarget field.options ∧
    columnType g.fieldType g.options = columnType field.fieldType field.options ∧
    defaultSql g.fieldType g.options = defaultSql field.fieldType field.options ∧
    ∀ id owner position, fieldToCreate (g.stored id owner position).toJson t = .ok (some g)

/-- **Which field definitions survive an export and an import.** A valid definition of a field the
server does not own survives exactly when its options hold a `collectionId` of their own, or the
field has no owner, or the owner is its target. Everything but the relation target survives
always. -/
theorem roundTrips_iff {field : Field} {options : List (String × Json)} {t : CollectionType}
    (hoptions : field.options = .object options) (hsorted : Sorted options)
    (hvalid : validateOptions field.fieldType field.options = .ok ())
    (hbuiltin : isBuiltinColumn t field.name = false) :
    RoundTrips field t ↔
      (lookup "collectionId" options).isSome ∨ field.collectionId = "" ∨
        relationTarget field.options = some field.collectionId := by
  have hread : fieldToCreate field.toJson t = .ok (some (field.reread options)) := by
    rw [fieldToCreate_toJson hoptions, hbuiltin]
    rfl
  have htarget := relationTarget_reread field hsorted
  have hagain : ∀ id owner position,
      fieldToCreate ((field.reread options).stored id owner position).toJson t =
        .ok (some (field.reread options)) := by
    intro id owner position
    have hname : isBuiltinColumn t ((field.reread options).stored id owner position).name = false :=
      hbuiltin
    have hmerged : ((field.reread options).stored id owner position).options =
        .object (field.mergedOptions options) := rfl
    have hsame : ((field.reread options).stored id owner position).reread
        (field.mergedOptions options) = field.reread options := by
      rw [Field.reread, mergedOptions_reread hsorted]
      rfl
    rw [fieldToCreate_toJson hmerged, hname, hsame]
    rfl
  rw [hoptions] at hvalid ⊢
  constructor
  · rintro ⟨g, hg, -, -, -, -, hsame, -⟩
    rw [hread, Except.ok.injEq, Option.some.injEq] at hg
    subst hg
    rw [hoptions] at hsame
    have hsame' : relationTarget (.object (field.mergedOptions options)) =
      relationTarget (.object options) := hsame
    rw [htarget] at hsame'
    split_ifs at hsame' with hcase
    · exact hcase.imp_right .inl
    · exact .inr (.inr hsame'.symm)
  · intro hcase
    refine ⟨field.reread options, hread, rfl, rfl, rfl, rfl, ?_, ?_, ?_, hagain⟩
    · rw [hoptions]
      refine htarget.trans ?_
      split_ifs with hown
      · rfl
      · rcases hcase with h | h | h
        · exact absurd (.inl h) hown
        · exact absurd (.inr h) hown
        · exact h.symm
    · rw [hoptions]
      exact columnType_reread hsorted hvalid
    · rw [hoptions]
      exact defaultSql_reread hsorted

/-- A relation of `posts` whose target is given by id. -/
def authorById : Field :=
  ⟨"f_author", "c_posts", "author", .relation, false, false,
    .object [("collectionId", .string "c_users")], 0⟩

/-- The same relation with its target given by name. -/
def authorByName : Field :=
  ⟨"f_author", "c_posts", "author", .relation, false, false,
    .object [("collection", .string "users")], 0⟩

theorem roundTrips_authorById : RoundTrips authorById .base :=
  (roundTrips_iff rfl (List.pairwise_singleton _ _) (by decide) (by decide)).mpr (.inl (by decide))

/-- The target given by name is replaced by the owner: `author` pointed at `users` and comes back
pointing at `posts`. -/
theorem not_roundTrips_authorByName : ¬ RoundTrips authorByName .base := by
  rintro ⟨g, hg, -, -, -, -, htarget, -⟩
  have hread : fieldToCreate authorByName.toJson .base =
      .ok (some (authorByName.reread [("collection", .string "users")])) :=
    fieldToCreate_toJson rfl .base
  rw [hread, Except.ok.injEq, Option.some.injEq] at hg
  subst hg
  exact absurd htarget (by decide)

end LazyPock
