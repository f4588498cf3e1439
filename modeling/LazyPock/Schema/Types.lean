import LazyPock.Core.Error
import LazyPock.Core.Json
import LazyPock.Sql.Syntax

/-!
# Collection and field types

The domain types of `crates/db/src/types.rs`: collection types, field types, identifier
validation, option validation, declared defaults and the Postgres column type of a field.

## Main definitions

* `CollectionType`, `FieldType`.
* `validateIdentifier`, `validateFieldName`.
* `relationTarget`, `isMultiple`: how a relation's options are read.
* `validateOptions`, `defaultSql`, `columnType`,
  `zeroDefault`.

## Main results

* `columnType_eq_ok`: a column type exists exactly for options that validate.
* `FieldType.parse_asStr`: a wire name reads back as its type.
-/

namespace LazyPock

open Text

/-! ### Names -/

/-- `MAX_IDENTIFIER_LEN` -/
def maxIdentifierLen : Nat := 63

/-- Columns present on every collection table. -/
def systemColumns : List String := ["id", "created", "updated"]

/-- Extra system columns on auth collections. -/
def authSystemColumns : List String :=
  ["email", "password_hash", "verified", "token_key", "emailVisibility"]

/-- The auth columns that are credentials. -/
def credentialColumns : List String := ["password_hash", "token_key"]

/-- Kind of collection. -/
inductive CollectionType where
  /-- A plain table. -/
  | base
  /-- A table with the auth system columns. -/
  | auth
  /-- A read-only Postgres view over user-written SQL. -/
  | view
deriving DecidableEq, Repr

namespace CollectionType

def asStr : CollectionType → String
  | base => "base"
  | auth => "auth"
  | view => "view"

/-- Whether this collection is backed by a table. -/
def isTable (t : CollectionType) : Bool := t ≠ view

/-- Whether this collection holds login records. -/
def isAuth (t : CollectionType) : Bool := t = auth

end CollectionType

/-- A field type, by its wire name. -/
inductive FieldType where
  | text
  | editor
  | email
  | url
  | number
  | bool
  | date
  | select
  | file
  | relation
  | json
  | geoPoint
  | autodate
  | password
deriving DecidableEq, Repr

namespace FieldType

def asStr : FieldType → String
  | text => "text"
  | editor => "editor"
  | email => "email"
  | url => "url"
  | number => "number"
  | bool => "bool"
  | date => "date"
  | select => "select"
  | file => "file"
  | relation => "relation"
  | json => "json"
  | geoPoint => "geoPoint"
  | autodate => "autodate"
  | password => "password"

/-- Parse a stored field type; the aliases of the import format are accepted too. -/
def parse (raw : String) : Result FieldType :=
  match raw with
  | "text" => .ok text
  | "editor" => .ok editor
  | "email" => .ok email
  | "url" => .ok url
  | "number" => .ok number
  | "bool" => .ok bool
  | "date" | "datetime" => .ok date
  | "select" | "multi_select" => .ok select
  | "file" | "multi_file" => .ok file
  | "relation" => .ok relation
  | "json" => .ok json
  | "geoPoint" | "geo" => .ok geoPoint
  | "autodate" => .ok autodate
  | "password" => .ok password
  | other =>
    .error (.invalid ("unknown field type " ++ debug other ++
      "; supported types are text, editor, email, url, number, bool, date (or datetime), " ++
      "select (or multi_select), file (or multi_file), relation, json, geo (or geoPoint), " ++
      "autodate and password"))

/-- Whether this type stores multiple values. -/
def supportsMultiple : FieldType → Bool
  | select | file | relation => true
  | _ => false

theorem parse_asStr (t : FieldType) : parse t.asStr = .ok t := by
  cases t <;> rfl

end FieldType

/-! ### Identifiers -/

/-- Validate a collection name or another identifier supplied by a user. -/
def validateIdentifier (kind name : String) : Result Unit :=
  match name.toList with
  | [] => .error (.invalid (kind ++ " must not be empty"))
  | first :: _ =>
    if maxIdentifierLen < byteLen name then
      .error (.invalid (kind ++ " " ++ debug name ++ " is longer than " ++
        toString maxIdentifierLen ++ " bytes"))
    else if first = '_' then
      .error (.invalid (kind ++ " " ++ debug name ++
        " must not start with \"_\" (reserved for system tables)"))
    else if !isAsciiLower first then
      .error (.invalid (kind ++ " " ++ debug name ++ " must start with a lowercase letter"))
    else match name.toList.find? fun c => !(isAsciiAlphanumeric c || c = '_') with
      | some bad =>
        .error (.invalid (kind ++ " " ++ debug name ++ " contains " ++ debugQuoted bad ++
          "; only letters, digits and \"_\" are allowed"))
      | none => .ok ()

def validateCollectionName (name : String) : Result Unit :=
  validateIdentifier "collection name" name

/-- **A valid identifier** is short and made of letters, digits and underscores. -/
theorem validateIdentifier_chars {kind name : String} (h : validateIdentifier kind name = .ok ()) :
    byteLen name ≤ maxIdentifierLen ∧
      ∀ c ∈ name.toList, isAsciiAlphanumeric c = true ∨ c = '_' := by
  unfold validateIdentifier at h
  split at h
  · cases h
  · split_ifs at h with hlength
    split at h
    · cases h
    · next hfind =>
      refine ⟨not_lt.mp hlength, fun c hc => ?_⟩
      have hchar := List.find?_eq_none.mp hfind c hc
      simpa only [Bool.not_eq_true, Bool.not_eq_false', Bool.or_eq_true, decide_eq_true_eq]
        using hchar

/-- Validate a field name for a collection of the given type. -/
def validateFieldName (name : String) (collectionType : CollectionType) : Result Unit := do
  validateIdentifier "field name" name
  failIf (name ∈ systemColumns)
    (.invalid (debug name ++ " is a built-in field and cannot be redefined"))
  failIf (collectionType = .auth ∧ name ∈ authSystemColumns)
    (.invalid (debug name ++ " is a built-in auth field and cannot be redefined"))

/-! ### Options -/

/-- The collection a relation field points at, under either name. -/
def relationTarget (options : Json) : Option String :=
  (((options.get "collectionId").bind Json.asStr).filter fun value => value ≠ "").or
    (((options.get "collection").bind Json.asStr).filter fun value => value ≠ "")

/-- Read an option as a boolean, a missing value being `false`. -/
def optionBool (options : Json) (key : String) : Bool :=
  ((options.get key).bind Json.asBool).getD false

def optionF64 (options : Json) (key : String) : Option F64 := (options.get key).bind Json.asF64

def optionU64 (options : Json) (key : String) : Option Nat := (options.get key).bind Json.asU64

/-- Read an option as a list of strings, defaulting to empty. -/
def optionStrList (options : Json) (key : String) : List String :=
  (((options.get key).bind Json.asArray).map fun values => values.filterMap Json.asStr).getD []

/-- Whether the field holds multiple values (`maxSelect > 1`). -/
def isMultiple (options : Json) : Bool := 1 < (optionU64 options "maxSelect").getD 1

/-- A SQL string literal. -/
def sqlLiteral (value : String) : String := Sql.stringConstant value

/-- The `default` a field declares, rendered as a SQL literal. -/
def defaultSql (fieldType : FieldType) (options : Json) : Result (Option String) :=
  if optionBool options "reflected" then .ok none
  else match options.getNonNull "default" with
    | none => .ok none
    | some value =>
      let text (what : String) : Result String :=
        okOr (.invalid (what ++ ", got " ++ value.render)) value.asStr
      match fieldType with
      | .select =>
        if isMultiple options then
          .error (.unsupported
            "a multiple-value select cannot declare a default; set the values on write")
        else do
          let t ← text "a select field's default must be a string"
          let allowed := optionStrList options "values"
          if t ∈ allowed then .ok (some (sqlLiteral t ++ "::text"))
          else .error (.invalid ("the default " ++ debug t ++ " is not one of the select values " ++
            debugList allowed))
      | .text | .editor | .email | .url | .password => do
        let t ← text ("a " ++ fieldType.asStr ++ " field's default must be a string")
        .ok (some (sqlLiteral t ++ "::text"))
      | .number => do
        let number ← okOr (.invalid ("a number field's default must be a finite number, got " ++
          value.render)) (value.asF64.filter F64.isFinite)
        if optionBool options "onlyInt" ∧ number.hasFraction then
          .error (.invalid ("a whole-number field's default must not have a fraction, got " ++
            number.display))
        else
          let cast := if optionBool options "onlyInt" then "bigint" else "double precision"
          .ok (some (number.display ++ "::" ++ cast))
      | .bool => do
        let flag ← okOr (.invalid ("a bool field's default must be true or false, got " ++
          value.render)) value.asBool
        .ok (some ((if flag then "true" else "false") ++ "::boolean"))
      | .date | .autodate => do
        let t ← text ("a " ++ fieldType.asStr ++ " field's default must be a date string")
        .ok (some (sqlLiteral t ++ "::timestamptz"))
      | .json | .geoPoint => .ok (some (sqlLiteral value.render ++ "::jsonb"))
      | .file => do
        let t ← text "a file field's default must be a string"
        .ok (some (sqlLiteral t ++ "::text"))
      | .relation =>
        .error (.unsupported
          "a relation field cannot declare a default; write the record id on insert")

/-- Whether an option is there and not null. -/
def optionSet (options : Json) (key : String) : Bool := (options.getNonNull key).isSome

/-- An option that only a file field may have. -/
def refuseOffFile (fieldType : FieldType) (options : Json) (key : String) : Result Unit :=
  failIf (fieldType ≠ .file ∧ optionSet options key)
    (.invalid (key ++ " is only meaningful for file fields, not " ++ fieldType.asStr))

/-- A size limit of a file field. -/
def validateSizeLimit (options : Json) (key : String) : Result Unit :=
  failIf (optionSet options key ∧ ¬ (optionU64 options key).any (0 < ·))
    (.invalid (key ++ " must be a positive number of bytes"))

def validateMimeTypes (options : Json) : Result Unit :=
  match options.getNonNull "mimeTypes" with
  | none => .ok ()
  | some value =>
    match value.asArray with
    | none => .error (.invalid "mimeTypes must be a JSON array of strings")
    | some types =>
      if types = [] then .error (.invalid "mimeTypes must name at least one type")
      else if types.all fun entry => (entry.asStr).any fun t => trim t ≠ "" then .ok ()
      else .error (.invalid "mimeTypes entries must be non-empty strings")

/-- Check the options only a file field has. -/
def validateFileOptions (fieldType : FieldType) (options : Json) : Result Unit := do
  refuseOffFile fieldType options "maxFileSize"
  refuseOffFile fieldType options "maxSize"
  refuseOffFile fieldType options "mimeTypes"
  refuseOffFile fieldType options "thumbs"
  if fieldType ≠ .file then .ok ()
  else do
    validateSizeLimit options "maxFileSize"
    validateSizeLimit options "maxSize"
    validateMimeTypes options
    failIf (optionSet options "thumbs")
      (.unsupported "per-field `thumbs` is not implemented; declare an image preset instead")

def validateMaxSelect (fieldType : FieldType) (options : Json) : Result Unit :=
  if fieldType.supportsMultiple then
    match optionU64 options "maxSelect" with
    | some maxSelect =>
      if maxSelect < 1 then
        .error (.invalid ("maxSelect must be at least 1 for a " ++ fieldType.asStr ++
          " field, got " ++ toString maxSelect))
      else .ok ()
    | none => .ok ()
  else if (options.get "maxSelect").isSome then
    .error (.invalid ("maxSelect is only meaningful for select, file and relation fields, not " ++
      fieldType.asStr))
  else .ok ()

def validateRange (options : Json) : Result Unit :=
  match optionF64 options "min", optionF64 options "max" with
  | some min, some max =>
    if min.gt max then
      .error (.invalid ("min (" ++ min.display ++ ") must not be greater than max (" ++
        max.display ++ ")"))
    else .ok ()
  | _, _ => .ok ()

def validateValues (fieldType : FieldType) (options : Json) : Result Unit :=
  if fieldType ≠ .select then .ok ()
  else match options.get "values" with
    | some (.array values) =>
      if values = [] then .error (.invalid "a select field needs at least one value") else .ok ()
    | some other => .error (.invalid ("select values must be a JSON array, got " ++ other.render))
    | none => .error (.invalid "a select field needs a `values` array")

/-- Validate the options of a field, rejecting unsupported values. -/
def validateOptions (fieldType : FieldType) (options : Json) : Result Unit := do
  failIf (¬ options.isObject)
    (.invalid ("field options must be a JSON object, got " ++ options.render))
  validateMaxSelect fieldType options
  validateRange options
  validateValues fieldType options
  failIf (fieldType = .relation ∧ (relationTarget options).isNone)
    (.invalid ("a relation field needs a `collectionId` option naming its target " ++
      "collection (PocketBase's name), or `collection` with its name"))
  failIf (optionSet options "pattern")
    (.unsupported "text `pattern` validation is not implemented yet; remove the `pattern` option")
  validateFileOptions fieldType options
  discard (defaultSql fieldType options)

/-! ### The keys the checks read -/

section Congr

variable {a b : Json}

/-- The keys a declared default is read through. -/
def defaultKeys : List String := ["reflected", "default", "maxSelect", "values", "onlyInt"]

/-- The keys the option checks read, a relation's target apart. -/
def optionKeys : List String :=
  defaultKeys ++ ["min", "max", "pattern", "maxFileSize", "maxSize", "mimeTypes", "thumbs"]

theorem optionBool_congr {key : String} (h : a.get key = b.get key) :
    optionBool a key = optionBool b key := by
  rw [optionBool, optionBool, h]

theorem optionSet_congr {key : String} (h : a.get key = b.get key) :
    optionSet a key = optionSet b key := by
  rw [optionSet, optionSet, Json.getNonNull, Json.getNonNull, h]

theorem optionU64_congr {key : String} (h : a.get key = b.get key) :
    optionU64 a key = optionU64 b key := by
  rw [optionU64, optionU64, h]

theorem isMultiple_congr (h : a.get "maxSelect" = b.get "maxSelect") :
    isMultiple a = isMultiple b := by
  simp only [isMultiple, optionU64_congr h]

theorem defaultSql_congr (t : FieldType) (h : ∀ key ∈ defaultKeys, a.get key = b.get key) :
    defaultSql t a = defaultSql t b := by
  simp only [defaultKeys, List.forall_mem_cons] at h
  obtain ⟨hreflected, hdefault, hmax, hvalues, hint, -⟩ := h
  have hlist : optionStrList a "values" = optionStrList b "values" := by
    rw [optionStrList, optionStrList, hvalues]
  have hvalue : a.getNonNull "default" = b.getNonNull "default" := by
    rw [Json.getNonNull, Json.getNonNull, hdefault]
  simp only [defaultSql, optionBool_congr hreflected, hvalue, isMultiple_congr hmax, hlist,
    optionBool_congr hint]

theorem validateFileOptions_congr (t : FieldType) (h : ∀ key ∈ optionKeys, a.get key = b.get key) :
    validateFileOptions t a = validateFileOptions t b := by
  simp only [optionKeys, defaultKeys, List.cons_append, List.nil_append, List.forall_mem_cons] at h
  obtain ⟨-, -, -, -, -, -, -, -, hfile, hsize, hmime, hthumbs, -⟩ := h
  have hvalue : a.getNonNull "mimeTypes" = b.getNonNull "mimeTypes" := by
    rw [Json.getNonNull, Json.getNonNull, hmime]
  simp only [validateFileOptions, refuseOffFile, validateSizeLimit, validateMimeTypes, hvalue,
    optionSet_congr hfile, optionSet_congr hsize, optionSet_congr hmime, optionSet_congr hthumbs,
    optionU64_congr hfile, optionU64_congr hsize]

/-- Options that agree on the keys the checks read pass or fail alike, where a relation's both name
a target or both do not. -/
theorem validateOptions_congr (t : FieldType) (ha : a.isObject = true) (hb : b.isObject = true)
    (h : ∀ key ∈ optionKeys, a.get key = b.get key)
    (htarget : t = .relation → (relationTarget a).isNone = (relationTarget b).isNone) :
    validateOptions t a = validateOptions t b := by
  have hdefault := defaultSql_congr t fun key hkey => h key (List.mem_append_left _ hkey)
  have hfile := validateFileOptions_congr t h
  simp only [optionKeys, defaultKeys, List.cons_append, List.nil_append, List.forall_mem_cons] at h
  obtain ⟨-, -, hmax, hvalues, -, hmin, hmaxi, hpattern, -⟩ := h
  have hselect : validateMaxSelect t a = validateMaxSelect t b := by
    simp only [validateMaxSelect, optionU64_congr hmax, hmax]
  have hrange : validateRange a = validateRange b := by
    rw [validateRange, validateRange, optionF64, optionF64, optionF64, optionF64, hmin, hmaxi]
  have hlist : validateValues t a = validateValues t b := by
    rw [validateValues, validateValues, hvalues]
  have hrelation : (t = .relation ∧ (relationTarget a).isNone = true) ↔
      (t = .relation ∧ (relationTarget b).isNone = true) :=
    and_congr_right fun ht => by rw [htarget ht]
  simp only [validateOptions, ha, hb, hselect, hrange, hlist, optionSet_congr hpattern,
    failIf_congr hrelation, hfile, hdefault]
  rfl

/-- A relation whose options are valid names a target. -/
theorem isSome_relationTarget_of_valid (h : validateOptions .relation a = .ok ()) :
    (relationTarget a).isSome := by
  unfold validateOptions at h
  obtain ⟨_, -, h⟩ := bind_eq_ok.mp h
  obtain ⟨_, -, h⟩ := bind_eq_ok.mp h
  obtain ⟨_, -, h⟩ := bind_eq_ok.mp h
  obtain ⟨_, -, h⟩ := bind_eq_ok.mp h
  obtain ⟨_, h, -⟩ := bind_eq_ok.mp h
  simpa [Option.isSome_iff_ne_none] using h

end Congr

/-! ### Column types -/

/-- The column type of a field whose options are valid. -/
def columnTypeOf (fieldType : FieldType) (options : Json) : Sql.PgType :=
  match fieldType with
  | .text | .editor | .email | .url | .password => .text
  | .number => if optionBool options "onlyInt" then .bigint else .doublePrecision
  | .bool => .boolean
  | .date | .autodate => .timestamptz
  | .select | .relation => if isMultiple options then .textArray else .text
  | .file => if isMultiple options then .jsonb else .text
  | .json | .geoPoint => .jsonb

/-- Postgres column type for a field. -/
def columnType (fieldType : FieldType) (options : Json) : Result Sql.PgType := do
  validateOptions fieldType options
  .ok (columnTypeOf fieldType options)

theorem columnType_eq_ok {fieldType : FieldType} {options : Json} {t : Sql.PgType} :
    columnType fieldType options = .ok t ↔
      validateOptions fieldType options = .ok () ∧ columnTypeOf fieldType options = t := by
  simp only [columnType, bind_eq_ok, Except.ok.injEq]
  exact ⟨fun ⟨_, h⟩ => h, fun h => ⟨(), h⟩⟩

theorem columnTypeOf_congr {a b : Json} (t : FieldType)
    (h : ∀ key ∈ defaultKeys, a.get key = b.get key) : columnTypeOf t a = columnTypeOf t b := by
  simp only [defaultKeys, List.forall_mem_cons] at h
  obtain ⟨-, -, hmax, -, hint, -⟩ := h
  simp only [columnTypeOf, isMultiple_congr hmax, optionBool_congr hint]

/-- A value used to fill a new `not null` column of a table that already has rows; none for a
single relation. -/
def zeroDefault (fieldType : FieldType) (options : Json) : Option String :=
  match fieldType with
  | .text | .editor | .email | .url | .password => some "''"
  | .number => some "0"
  | .bool => some "false"
  | .date | .autodate => some "now()"
  | .select => some (if isMultiple options then "'\x7b\x7d'::text[]" else "''")
  | .file => some (if isMultiple options then "'[]'::jsonb" else "''")
  | .json | .geoPoint => some "'\x7b\x7d'::jsonb"
  | .relation => if isMultiple options then some "'\x7b\x7d'::text[]" else none

/-! ### Auth collections -/

/-- A field an auth collection has whether or not anybody declared it. -/
structure AuthSystemField where
  name : String
  fieldType : FieldType
  required : Bool
  isUnique : Bool
  options : Json
deriving DecidableEq

def authSystemFields : List AuthSystemField :=
  [⟨"email", .email, true, true, .object []⟩,
    ⟨"password_hash", .password, false, false,
      .object [("hidden", .bool true), ("writeOnly", .bool true)]⟩,
    ⟨"emailVisibility", .bool, false, false, .object []⟩,
    ⟨"verified", .bool, false, false, .object [("hidden", .bool true)]⟩]

end LazyPock
