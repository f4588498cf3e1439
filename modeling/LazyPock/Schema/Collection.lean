import LazyPock.Schema.Types

/-!
# Collections and fields

The stored collection and field of `crates/db/src/collections.rs`, their validation, the JSON a
field is written as, and the two shapes a field is read from: settings nested under `options`, or
beside the field's own keys.

The times a collection carries are left out: nothing modelled here reads them.

## Main definitions

* `Field`, `Collection`, `CreateField`, `CreateCollection`.
* `Field.validate`, `Collection.validate`.
* `Field.toJson`: the serialised field.
* `CreateField.deserialize`: reading a field back, both shapes merged.
* `isBuiltinColumn`, `undeclaredFields`.
-/

namespace LazyPock

open Text

/-! ### The stored model -/

/-- A field as stored. -/
structure Field where
  /-- Record id. -/
  id : String
  /-- Owning collection id. -/
  collectionId : String
  /-- Column name. -/
  name : String
  fieldType : FieldType
  /-- Whether the column is `not null`. -/
  required : Bool
  /-- Whether a unique index is maintained. -/
  isUnique : Bool
  /-- Type-specific settings. -/
  options : Json
  /-- Display position. -/
  position : Int
deriving DecidableEq

/-- A collection as stored. -/
structure Collection where
  id : String
  /-- The name, also the table or view name. -/
  name : String
  collectionType : CollectionType
  /-- Type-specific settings (view SQL, auth options, declared indexes). -/
  options : Json
  /-- Access rules keyed by action. -/
  rules : Json
  /-- Fields, in display order. -/
  fields : List Field
deriving DecidableEq

namespace Field

/-- Postgres column type for this field. -/
def columnType (field : Field) : Result Sql.PgType :=
  LazyPock.columnType field.fieldType field.options

/-- Whether the field stores multiple values. -/
def isMultiple (field : Field) : Bool := LazyPock.isMultiple field.options

/-- Whether the field asks for a plain (non-unique) index. -/
def isIndexed (field : Field) : Bool := optionBool field.options "indexed"

/-- Validate the field name and options for its collection type. -/
def validate (field : Field) (collectionType : CollectionType) : Result Unit := do
  validateFieldName field.name collectionType
  failIf (field.fieldType = .password)
    (.unsupported ("`password` is a built-in auth column (password_hash) and cannot be " ++
      "defined as an explicit field"))
  validateOptions field.fieldType field.options

end Field

namespace Collection

/-- Field lookup by name. -/
def field (collection : Collection) (name : String) : Option Field :=
  collection.fields.find? fun f => f.name = name

/-- The fields from `seen` on: no name twice, every field valid. -/
def validateFields (collection : Collection) : List String → List Field → Result Unit
  | _, [] => .ok ()
  | seen, f :: rest => do
    failIf (f.name ∈ seen)
      (.invalid ("duplicate field " ++ debug f.name ++ " in collection " ++ debug collection.name))
    f.validate collection.collectionType
    validateFields collection (f.name :: seen) rest

/-- Validate the collection and all of its fields. -/
def validate (collection : Collection) : Result Unit := do
  validateCollectionName collection.name
  match collection.options.get "realtime" with
  | some value =>
    failIf (¬ value.isBoolean)
      (.invalid ("the realtime option must be true or false, got " ++ value.render))
  | none => .ok ()
  validateFields collection [] collection.fields

end Collection

/-- Whether a column is lazypock's own and must never be dropped. -/
def isBuiltinColumn (collectionType : CollectionType) (name : String) : Bool :=
  name ∈ systemColumns || (collectionType = .auth && name ∈ authSystemColumns)

/-- The fields a declarative update would drop. -/
def undeclaredFields (collection : Collection) (declared : List String) : List Field :=
  (collection.fields.filter fun f => f.name ∉ declared).filter fun f =>
    !isBuiltinColumn collection.collectionType f.name

/-! ### Input -/

/-- Input for creating or adding a field. -/
structure CreateField where
  name : String
  fieldType : FieldType
  required : Bool
  unique : Bool
  options : Json
deriving DecidableEq

/-- Input for creating a collection. -/
structure CreateCollection where
  name : String
  collectionType : CollectionType
  fields : List CreateField
  rules : Json
  options : Json
  /-- Attach to a pre-existing table of the same name instead of failing. -/
  adoptExistingTable : Bool
deriving DecidableEq

/-! ### A field as JSON -/

def Json.ofInt (n : Int) : Json :=
  .number (if 0 ≤ n then .posInt n.toNat else .negInt ((-n).toNat - 1))

/-- `serde_json::to_value` of a field, keys in order. -/
def Field.toJson (field : Field) : Json :=
  .object [("collectionId", .string field.collectionId), ("id", .string field.id),
    ("name", .string field.name), ("options", field.options), ("required", .bool field.required),
    ("sort_order", .ofInt field.position), ("type", .string field.fieldType.asStr),
    ("unique", .bool field.isUnique)]

namespace CreateField

/-- How a value is described in a type error of the deserialiser. -/
def unexpected : Json → String
  | .null => "unit value"
  | .bool b => "boolean `" ++ (if b then "true" else "false") ++ "`"
  | .number (.float x) => "floating point `" ++ x.display ++ "`"
  | .number n => "integer `" ++ Json.renderNumber n ++ "`"
  | .string s => "string " ++ debug s
  | .array _ => "sequence"
  | .object _ => "map"

def typeError {α : Type} (value : Json) (expected : String) : Except String α :=
  .error ("invalid type: " ++ unexpected value ++ ", expected " ++ expected)

def stringKey (entries : List (String × Json)) (key : String) : Except String String :=
  match Assoc.lookup key entries with
  | some (.string s) => .ok s
  | some other => typeError other "a string"
  | none => .error ("missing field `" ++ key ++ "`")

/-- A boolean key, `false` when it is absent. -/
def boolKey (entries : List (String × Json)) (key : String) : Except String Bool :=
  match Assoc.lookup key entries with
  | some (.bool b) => .ok b
  | some other => typeError other "a boolean"
  | none => .ok false

/-- The keys of a field that are not settings. -/
def ownKeys : List String := ["name", "type", "required", "unique", "options"]

/-- Everything beside the field's own keys, which is the type's settings in PocketBase's shape. -/
def settings (entries : List (String × Json)) : List (String × Json) :=
  entries.filter fun e => e.1 ∉ ownKeys

/-- `CreateField::deserialize`: both shapes, the nested `options` winning where they overlap. -/
def deserialize (value : Json) : Except String CreateField :=
  match value with
  | .object entries => do
    let name ← stringKey entries "name"
    let raw ← stringKey entries "type"
    let fieldType ← match FieldType.parse raw with
      | .ok t => .ok t
      | .error e => .error e.display
    let required ← boolKey entries "required"
    let unique ← boolKey entries "unique"
    let options ← match Assoc.lookup "options" entries with
      | none | some .null => .ok none
      | some (.object o) => .ok (some o)
      | some other => typeError other "a map"
    let merged := match options with
      | some o => Assoc.insertAll (settings entries) o
      | none => settings entries
    .ok ⟨name, fieldType, required, unique, .object merged⟩
  | other => typeError other "struct Flat"

/-- What a field object is read as carries its name. -/
theorem name_of_deserialize {value : Json} {field : CreateField}
    (h : deserialize value = .ok field) :
    (value.get "name").bind Json.asStr = some field.name := by
  cases value with
  | object entries =>
    obtain ⟨name, hname, h⟩ := bind_eq_ok.mp h
    obtain ⟨raw, -, h⟩ := bind_eq_ok.mp h
    have hsame : field.name = name := by
      dsimp only at h
      split at h <;> obtain ⟨fieldType, -, h⟩ := bind_eq_ok.mp h <;>
        obtain ⟨required, -, h⟩ := bind_eq_ok.mp h <;>
        obtain ⟨unique, -, h⟩ := bind_eq_ok.mp h <;>
        split at h <;> obtain ⟨options, -, h⟩ := bind_eq_ok.mp h <;>
        exact (congrArg CreateField.name (Except.ok.inj h)).symm
    rw [Json.get_object, hsame]
    unfold stringKey at hname
    split at hname
    next s hs =>
      obtain rfl := Except.ok.inj hname
      rw [hs]
      rfl
    next => cases hname
    next => cases hname
  | null | bool _ | number _ | string _ | array _ => cases h

end CreateField

namespace Collections

/-! ### Validated definitions -/

variable {collection : Collection} {u : Unit}

theorem validateFields_eq_ok {fields : List Field} {seen : List String} (h : collection.validateFields seen fields = .ok u) :
    (fields.map Field.name).Nodup ∧ (∀ f ∈ fields, f.name ∉ seen) ∧
      ∀ f ∈ fields, f.validate collection.collectionType = .ok () := by
  induction fields generalizing seen with
  | nil => simp
  | cons field fields ih =>
    obtain ⟨_, hseen, h⟩ := bind_eq_ok.mp h
    obtain ⟨_, hvalid, h⟩ := bind_eq_ok.mp h
    rw [failIf_eq_ok] at hseen
    obtain ⟨hnodup, hrest, hvalids⟩ := ih h
    refine ⟨?_, ?_, List.forall_mem_cons.mpr ⟨hvalid, hvalids⟩⟩
    · refine List.nodup_cons.mpr ⟨fun hmem => ?_, hnodup⟩
      obtain ⟨f, hf, hname⟩ := List.mem_map.mp hmem
      exact hrest f hf (hname ▸ List.mem_cons_self)
    · refine List.forall_mem_cons.mpr ⟨hseen, fun f hf hmem => ?_⟩
      exact hrest f hf (List.mem_cons_of_mem _ hmem)

/-- The fields of a definition that is accepted: no name twice, every field valid. -/
theorem fields_of_validate (h : collection.validate = .ok u) :
    (collection.fields.map Field.name).Nodup ∧
      ∀ f ∈ collection.fields, f.validate collection.collectionType = .ok () := by
  obtain ⟨_, -, h⟩ := bind_eq_ok.mp h
  have hfields : collection.validateFields [] collection.fields = .ok u := by
    split at h
    · obtain ⟨_, -, h⟩ := bind_eq_ok.mp h
      exact h
    · exact h
  obtain ⟨hnodup, -, hvalid⟩ := validateFields_eq_ok hfields
  exact ⟨hnodup, hvalid⟩

/-- A valid field has no name of lazypock's own. -/
theorem name_of_validate {field : Field} {collectionType : CollectionType}
    (h : field.validate collectionType = .ok u) :
    field.name ∉ systemColumns ∧ (collectionType = .auth → field.name ∉ authSystemColumns) := by
  obtain ⟨_, hname, -⟩ := bind_eq_ok.mp h
  obtain ⟨_, -, hname⟩ := bind_eq_ok.mp hname
  obtain ⟨_, hsystem, hname⟩ := bind_eq_ok.mp hname
  rw [failIf_eq_ok] at hsystem hname
  exact ⟨hsystem, fun hauth hmem => hname ⟨hauth, hmem⟩⟩

end Collections

end LazyPock
