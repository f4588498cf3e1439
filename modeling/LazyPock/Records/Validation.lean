import LazyPock.Auth.PasswordChange

/-!
# Validating and encoding record values

Incoming record values against the fields of a collection (`crates/db/src/validation.rs`): every
failure is reported under the field it is about, the first one for each field, and a value that passes
is encoded as the text of a bound parameter, or as SQL null.

An empty string is no value. On a field that is required it is missing like `null` is, and the
validators of any other field do not see it.

## Main definitions

* `Validation.parseF64`: `str::parse::<f64>`.
* `Validation.validateValue`: one value against its field.
* `Validation.validate`: a record.
* `Validation.encodeValue`: a value as a parameter.

## Main results

* `Validation.validate_eq_ok`: what is accepted.
* `Validation.exists_encodeValue`: a value that is accepted is encoded, and is SQL null only
  where it is no value.
-/

namespace LazyPock.Validation

open Text

/-! ### Failures -/

/-- One field's validation failure. -/
structure FieldError where
  /-- Stable machine-readable code. -/
  code : String
  /-- Human-readable message. -/
  message : String
deriving DecidableEq

/-- Validation failures keyed by field name. -/
abbrev ValidationErrors := List (String × FieldError)

/-- Record a failure for a field, keeping the first one per field. -/
def ValidationErrors.insert (errors : ValidationErrors) (failure : String × FieldError) :
    ValidationErrors :=
  if (Assoc.lookup failure.1 errors).isSome then errors
  else Assoc.insert failure.1 failure.2 errors

/-- The PocketBase `data` shape. -/
def ValidationErrors.toJson (errors : ValidationErrors) : Json :=
  .object (errors.map fun (field, error) =>
    (field, .object [("code", .string error.code), ("message", .string error.message)]))

/-- A one-line summary, for logs. -/
def ValidationErrors.summary (errors : ValidationErrors) : String :=
  join "; " (errors.map fun (field, error) => field ++ ": " ++ error.message)

/-- An early return: the error when `p` holds. -/
def refuse (p : Prop) [Decidable p] (code message : String) : Except FieldError Unit :=
  if p then .error ⟨code, message⟩ else .ok ()

@[simp] theorem refuse_eq_ok {p : Prop} [Decidable p] {code message : String} {u : Unit} :
    refuse p code message = .ok u ↔ ¬ p := by
  by_cases h : p <;> simp [refuse, h]

/-- A value that has to be there. -/
def demand {α : Type} (code message : String) : Option α → Except FieldError α
  | some a => .ok a
  | none => .error ⟨code, message⟩

@[simp] theorem demand_eq_ok {α : Type} {code message : String} {o : Option α} {a : α} :
    demand code message o = .ok a ↔ o = some a := by
  cases o <;> simp [demand]

/-! ### Readers -/

/-- The digits of an exponent, with an optional sign. -/
def parseExponent (cs : List Char) : Option Int :=
  let digits (ds : List Char) : Option Int :=
    if ds ≠ [] ∧ ds.all isAsciiDigit then some (F64.digitsVal ds : Int) else none
  match cs with
  | '-' :: rest => (digits rest).map fun n => -n
  | '+' :: rest => digits rest
  | _ => digits cs

/-- The digits before and after the point, of which there has to be one. -/
def parseMantissa (cs : List Char) : Option (List Char × List Char) :=
  let (whole, frac) := (splitOnceChars '.' cs).getD (cs, [])
  if (whole ≠ [] ∨ frac ≠ []) ∧ whole.all isAsciiDigit ∧ frac.all isAsciiDigit then
    some (whole, frac)
  else none

/-- A numeral without its sign. -/
def parseNumeral (neg : Bool) (cs : List Char) : Option F64 := do
  let (body, exponent) ←
    match splitOnceChars 'e' (cs.map Char.toLower) with
    | some (body, rest) => (parseExponent rest).map fun e => (body, e)
    | none => some (cs, 0)
  let (whole, frac) ← parseMantissa body
  let digits := F64.digitsVal (whole ++ frac)
  let shift : Int := exponent - frac.length
  some (if 0 ≤ shift then F64.ofRatio neg (digits * 10 ^ shift.toNat) 1
    else F64.ofRatio neg digits (10 ^ (-shift).toNat))

/-- `str::parse::<f64>` -/
def parseF64 (s : String) : Option F64 :=
  let (neg, body) : Bool × List Char :=
    match s.toList with
    | '-' :: rest => (true, rest)
    | '+' :: rest => (false, rest)
    | cs => (false, cs)
  let word := String.ofList (body.map Char.toLower)
  if word = "inf" ∨ word = "infinity" then some (.inf neg)
  else if word = "nan" then some .nan
  else parseNumeral neg body

/-- Parse a JSON number, accepting a numeric string as well. -/
def parseNumber (value : Json) : Option F64 :=
  match value with
  | .number _ => value.asF64
  | .string text => parseF64 (trim text)
  | _ => none

/-- Parse a boolean, accepting the usual string spellings. -/
def parseBool (value : Json) : Option Bool :=
  match value with
  | .bool flag => some flag
  | .string text =>
    let word := toAsciiLowercase (trim text)
    if word ∈ ["true", "1", "yes", "on"] then some true
    else if word ∈ ["false", "0", "no", "off"] then some false
    else none
  | _ => none

/-- One `@`, something either side, and a dot in the domain. -/
def looksLikeEmail (value : String) : Bool :=
  if 320 < byteLen value || value.toList.any isWhitespace then false
  else match splitOn '@' value with
    | [account, domain] =>
      account ≠ "" && (splitOnce '.' domain).any fun (host, tld) => host ≠ "" && tld ≠ ""
    | _ => false

def looksLikeUrl (value : String) : Bool :=
  startsWith "http://" value || startsWith "https://" value

/-- `YYYY-MM-DD`, optionally with a time part. The bytes of the date are one character each. -/
def looksLikeDate (value : String) : Bool :=
  match value.toList with
  | y :: y' :: y'' :: y''' :: '-' :: m :: m' :: '-' :: d :: d' :: _ =>
    [y, y', y'', y''', m, m', d, d'].all isAsciiDigit
  | _ => false

/-! ### One value -/

def isTextLike (fieldType : FieldType) : Bool :=
  fieldType ∈ [.text, .editor, .email, .url, .password]

def isBlankText (field : Field) (value : Json) : Bool :=
  isTextLike field.fieldType && value.asStr.any fun text => trim text = ""

def expectString (name : String) (value : Json) : Except FieldError String :=
  demand "validation_invalid_value" (name ++ " must be a string.") value.asStr

def expectStringList (field : Field) (value : Json) : Except FieldError (List String) := do
  let items ← demand "validation_invalid_value" (field.name ++ " must be an array.") value.asArray
  items.mapM fun item =>
    demand "validation_invalid_value" (field.name ++ " must contain only strings.") item.asStr

def checkLength (field : Field) (text : String) : Except FieldError Unit := do
  let length := F64.ofNat text.length
  match optionF64 field.options "min" with
  | some min =>
    refuse (min.gt length = true) "validation_min_text"
      (field.name ++ " must be at least " ++ min.display ++ " characters.")
  | none => .ok ()
  match optionF64 field.options "max" with
  | some max =>
    refuse (length.gt max = true) "validation_max_text"
      (field.name ++ " must be at most " ++ max.display ++ " characters.")
  | none => .ok ()

def validateNumber (field : Field) (value : Json) : Except FieldError Unit := do
  let number ← demand "validation_not_a_number" (field.name ++ " must be a number.")
    (parseNumber value)
  -- the fraction of an infinity or of no number is no number, which is not zero
  refuse (optionBool field.options "onlyInt" ∧ (number.hasFraction ∨ ¬ number.isFinite))
    "validation_not_an_integer" (field.name ++ " must be a whole number.")
  match optionF64 field.options "min" with
  | some min =>
    refuse (min.gt number = true) "validation_min_number"
      (field.name ++ " must be at least " ++ min.display ++ ".")
  | none => .ok ()
  match optionF64 field.options "max" with
  | some max =>
    refuse (number.gt max = true) "validation_max_number"
      (field.name ++ " must be at most " ++ max.display ++ ".")
  | none => .ok ()

def checkMaxSelect (field : Field) (count : ℕ) : Except FieldError Unit :=
  let limit := (optionU64 field.options "maxSelect").getD 1
  refuse (limit < count) "validation_too_many_values"
    (field.name ++ " accepts at most " ++ toString limit ++ " value(s).")

def checkAllowed (name chosen : String) (allowed : List String) : Except FieldError Unit :=
  refuse (chosen ∉ allowed) "validation_not_in_values"
    (name ++ " must be one of: " ++ join ", " allowed ++ ".")

/-- `(-bound..=bound).contains(&x)` -/
def within (bound : ℕ) (x : F64) : Bool :=
  x ≠ .nan && !x.gt (.ofNat bound) && !(F64.ofNat bound).neg.gt x

def validateGeoPoint (name : String) (value : Json) : Except FieldError Unit := do
  let _ ← demand "validation_invalid_value" (name ++ " must be an object with `lon` and `lat`.")
    value.asObject
  refuse (¬ (((value.get "lon").bind Json.asF64).any (within 180) ∧
      ((value.get "lat").bind Json.asF64).any (within 90)))
    "validation_invalid_geo_point" (name ++ " must have a `lon` within ±180 and a `lat` within ±90.")

def validateValue (field : Field) (value : Json) : Except FieldError Unit :=
  let name := field.name
  match field.fieldType with
  | .text | .editor | .password => do
    let text ← expectString name value
    checkLength field text
  | .email => do
    let text ← expectString name value
    checkLength field text
    refuse (looksLikeEmail text = false) "validation_invalid_email"
      (name ++ " must be a valid email address.")
  | .url => do
    let text ← expectString name value
    checkLength field text
    refuse (looksLikeUrl text = false) "validation_invalid_url"
      (name ++ " must start with http:// or https://.")
  | .number => validateNumber field value
  | .bool => do
    let _ ← demand "validation_invalid_value" (name ++ " must be a boolean.") (parseBool value)
    .ok ()
  | .date => do
    let text ← expectString name value
    refuse (looksLikeDate text = false) "validation_invalid_date"
      (name ++ " must be a date, for example 2026-01-02T15:04:05Z.")
  | .select =>
    let allowed := optionStrList field.options "values"
    if field.isMultiple then do
      let chosen ← expectStringList field value
      checkMaxSelect field chosen.length
      chosen.forM fun item => checkAllowed name item allowed
    else do
      let chosen ← expectString name value
      checkAllowed name chosen allowed
  | .file =>
    if field.isMultiple then do
      let names ← expectStringList field value
      checkMaxSelect field names.length
    else do
      let _ ← expectString name value
      .ok ()
  | .relation =>
    if field.isMultiple then do
      let ids ← expectStringList field value
      checkMaxSelect field ids.length
      ids.forM fun id => refuse (isValidId id = false) "validation_invalid_relation"
        (name ++ " contains an invalid record id.")
    else do
      let id ← expectString name value
      refuse (isValidId id = false) "validation_invalid_relation" (name ++ " must be a record id.")
  | .json => .ok ()
  | .geoPoint => validateGeoPoint name value
  | .autodate => .ok ()

/-! ### A record -/

/-- Keys a client may send that the server owns and ignores on write. -/
def serverManagedKeys : List String := ["created", "updated", "collectionId", "collectionName"]

/-- Keys an auth collection accepts that are columns rather than user-defined fields. -/
def authInputKeys : List String := ["email", "verified", "password", "passwordConfirm"]

/-- Shortest password accepted for an auth-collection account. -/
def minPasswordLen : ℕ := 8

section Record

variable (collection : Collection) (input : List (String × Json)) (missing : Bool)

/-- The keys that are no field's. -/
def unknownFailures : List (String × FieldError) :=
  ((input.map Prod.fst).filter fun key =>
    !(key = "id" || key ∈ serverManagedKeys) &&
      !(collection.collectionType = .auth && key ∈ authInputKeys) &&
      (collection.field key).isNone).map fun key =>
    (key, ⟨"validation_unknown_field", "Unknown field " ++ debug key ++ "."⟩)

def required (field : Field) : String × FieldError :=
  (field.name, ⟨"validation_required", field.name ++ " is required."⟩)

/-- What is wrong with the value of a field; fields may be missing where the flag is set. -/
@[grind =]
def fieldFailure (field : Field) : Option (String × FieldError) :=
  -- the server owns these, input is ignored
  if field.fieldType = .autodate then none
  else
    let raw := Assoc.lookup field.name input
    match raw.filter fun value => value ≠ .string "" with
    | none => if field.required ∧ (raw.isSome ∨ ¬ missing) then some (required field) else none
    | some .null => if field.required then some (required field) else none
    | some value =>
      if field.required && isBlankText field value then some (required field)
      else match validateValue field value with
        | .ok _ => none
        | .error error => some (field.name, error)

def emailFailure : Option (String × FieldError) :=
  match Assoc.lookup "email" input with
  | none =>
    if missing then none
    else some ("email", ⟨"validation_required", "An email is required."⟩)
  | some .null => some ("email", ⟨"validation_required", "An email is required."⟩)
  | some (.string text) =>
    if looksLikeEmail text then none
    else some ("email", ⟨"validation_invalid_email", "The email must be a valid address."⟩)
  | some _ => some ("email", ⟨"validation_invalid_value", "The email must be a string."⟩)

def verifiedFailure : Option (String × FieldError) :=
  (Assoc.lookup "verified" input).bind fun value =>
    if !value.isNull && (parseBool value).isNone then
      some ("verified", ⟨"validation_invalid_value", "verified must be a boolean."⟩)
    else none

/-- The password of a body, where one is supplied. -/
def suppliedPassword : Option Json :=
  (collection.passwordInput (.object input)).filter fun value =>
    !value.isNull && value ≠ .string ""

def passwordFailure : Option (String × FieldError) :=
  (suppliedPassword collection input).bind fun
    | .string text =>
      if minPasswordLen ≤ text.length then none
      else some ("password", ⟨"validation_min_text",
        "The password must be at least " ++ toString minPasswordLen ++ " characters."⟩)
    | _ => some ("password", ⟨"validation_invalid_value", "The password must be a string."⟩)

def confirmationFailure : Option (String × FieldError) :=
  match Assoc.lookup "passwordConfirm" input with
  | some (.string confirmation) =>
    if (suppliedPassword collection input).bind Json.asStr = some confirmation then none
    else some ("passwordConfirm", ⟨"validation_mismatch", "The passwords do not match."⟩)
  | _ => none

/-- What is wrong with the built-in keys of an auth collection. -/
def authFailures : List (String × FieldError) :=
  (emailFailure input missing).toList ++ (verifiedFailure input).toList ++
    (passwordFailure collection input).toList ++ (confirmationFailure collection input).toList

/-- Every failure, in the order they are found. -/
def failures : List (String × FieldError) :=
  unknownFailures collection input ++ collection.fields.filterMap (fieldFailure input missing) ++
    if collection.collectionType = .auth then authFailures collection input missing else []

/-- Validate an incoming record. -/
def validate : Except ValidationErrors Unit :=
  let errors := (failures collection input missing).foldl ValidationErrors.insert []
  if errors = [] then .ok () else .error errors

end Record

/-! ### Encoding -/

def requireStr (field : Field) (value : Json) : Result String :=
  okOr (.invalid (field.name ++ " must be a string")) value.asStr

def requireStrList (field : Field) (value : Json) : Result (List String) := do
  let items ← okOr (.invalid (field.name ++ " must be an array")) value.asArray
  items.mapM fun item => okOr (.invalid (field.name ++ " must contain only strings")) item.asStr

/-- Render a `text[]` literal. -/
def pgTextArray (values : List String) : String :=
  let quoted (value : String) : String :=
    "\"" ++ String.ofList (value.toList.flatMap fun c =>
      if c = '\\' ∨ c = '"' then ['\\', c] else [c]) ++ "\""
  "\x7b" ++ join "," (values.map quoted) ++ "\x7d"

/-- Encode a validated value for binding as a text parameter; nothing is SQL null. -/
@[grind =]
def encodeValue (field : Field) (value : Json) : Result (Option String) :=
  if value.isNull then .ok none
  -- an empty string is an absent value for a non-text field, as in `validate`
  else if value = .string "" ∧ ¬ isTextLike field.fieldType then .ok none
  else match field.fieldType with
    | .text | .editor | .email | .url | .password | .date => some <$> requireStr field value
    | .number => do
      let number ← okOr (.invalid (field.name ++ " must be a number")) (parseNumber value)
      .ok (some number.display)
    | .bool => do
      let flag ← okOr (.invalid (field.name ++ " must be a boolean")) (parseBool value)
      .ok (some (if flag then "true" else "false"))
    | .select | .relation =>
      if field.isMultiple then do
        let items ← requireStrList field value
        .ok (some (pgTextArray items))
      else some <$> requireStr field value
    | .file =>
      if field.isMultiple then .ok (some value.render) else some <$> requireStr field value
    | .json | .geoPoint => .ok (some value.render)
    | .autodate => .ok none

/-! ### What is accepted -/

theorem insert_ne_nil {errors : ValidationErrors} (failure : String × FieldError) :
    errors.insert failure ≠ [] := by
  unfold ValidationErrors.insert
  split_ifs with hin
  · rintro rfl
    cases hin
  · cases errors with
    | nil => simp [Assoc.insert]
    | cons entry errors =>
      rw [Assoc.insert]
      split_ifs <;> simp

/-- **A record is accepted** where there is no failure. -/
theorem validate_eq_ok {collection : Collection} {input : List (String × Json)} {missing : Bool} :
    validate collection input missing = .ok () ↔ failures collection input missing = [] := by
  have hfold (errors : ValidationErrors) (failures : List (String × FieldError)) :
      failures.foldl ValidationErrors.insert errors = [] ↔ errors = [] ∧ failures = [] := by
    induction failures generalizing errors with
    | nil => simp
    | cons failure failures ih =>
      rw [List.foldl_cons, ih]
      simp [insert_ne_nil]
  unfold validate
  dsimp only
  split_ifs with hnone
  · exact iff_of_true rfl ((hfold _ _).mp hnone).2
  · exact iff_of_false (by simp) fun h => hnone ((hfold _ _).mpr ⟨rfl, h⟩)

/-- The parts of a record that is accepted. -/
structure Accepted (collection : Collection) (input : List (String × Json)) (missing : Bool) :
    Prop where
  known : unknownFailures collection input = []
  fields : ∀ field ∈ collection.fields, fieldFailure input missing field = none
  auth : collection.collectionType = .auth → authFailures collection input missing = []

theorem accepted_of_validate {collection : Collection} {input : List (String × Json)}
    {missing : Bool} (h : validate collection input missing = .ok ()) :
    Accepted collection input missing := by
  rw [validate_eq_ok, failures, List.append_eq_nil_iff, List.append_eq_nil_iff] at h
  obtain ⟨⟨hknown, hfields⟩, hauth⟩ := h
  refine ⟨hknown, List.filterMap_eq_nil_iff.mp hfields, fun htype => ?_⟩
  rwa [if_pos htype] at hauth

section Field

variable {field : Field} {input : List (String × Json)} {missing : Bool} {value : Json}

/-- A value of a field that is accepted passes its validators, unless it is no value. -/
theorem valid_of_fieldFailure (htype : field.fieldType ≠ .autodate)
    (h : fieldFailure input missing field = none)
    (hvalue : Assoc.lookup field.name input = some value) :
    value = .null ∨ value = .string "" ∨ validateValue field value = .ok () := by
  by_cases hempty : value = .string ""
  · exact .inr (.inl hempty)
  · by_cases hnull : value = .null
    · exact .inl hnull
    · refine .inr (.inr ?_)
      simp only [fieldFailure, if_neg htype, hvalue, Option.filter_some, hempty, ne_eq,
        not_false_eq_true, decide_true, if_true] at h
      split_ifs at h with hblank
      split at h
      next hvalid => exact hvalid
      next => cases h

/-- **A required field has a value** in a whole record that is accepted. -/
theorem exists_of_required (htype : field.fieldType ≠ .autodate) (hrequired : field.required = true)
    (h : fieldFailure input false field = none) :
    ∃ value, Assoc.lookup field.name input = some value ∧ value ≠ .null ∧ value ≠ .string "" := by
  simp only [fieldFailure, if_neg htype, hrequired] at h
  split at h
  next hnone => simp at h
  next => simp at h
  next value hnull hsome =>
    obtain ⟨hlookup, hempty⟩ := Option.filter_eq_some_iff.mp hsome
    refine ⟨value, hlookup, fun heq => hnull (heq ▸ rfl), of_decide_eq_true hempty⟩

end Field

/-! ### Encoding what is accepted -/

section Encode

variable {field : Field} {value : Json}

theorem asStr_of_expectString {name text : String} (h : expectString name value = .ok text) :
    requireStr field value = .ok text := by
  rw [requireStr, okOr_eq_ok]
  exact demand_eq_ok.mp h

theorem requireStrList_of_expectStringList {items : List String}
    (h : expectStringList field value = .ok items) : requireStrList field value = .ok items := by
  obtain ⟨values, hvalues, hitems⟩ := bind_eq_ok.mp h
  refine bind_eq_ok.mpr ⟨values, okOr_eq_ok.mpr (demand_eq_ok.mp hvalues), ?_⟩
  clear h hvalues
  induction values generalizing items with
  | nil =>
    obtain rfl := Except.ok.inj hitems
    rfl
  | cons first values ih =>
    rw [List.mapM_cons] at hitems ⊢
    obtain ⟨text, htext, hitems⟩ := bind_eq_ok.mp hitems
    obtain ⟨texts, htexts, hitems⟩ := bind_eq_ok.mp hitems
    obtain rfl := Except.ok.inj hitems
    exact bind_eq_ok.mpr ⟨text, okOr_eq_ok.mpr (demand_eq_ok.mp htext),
      bind_eq_ok.mpr ⟨texts, ih htexts, rfl⟩⟩

/-- **A value that passes its validators is encoded** as a text. -/
theorem exists_encodeValue (htype : field.fieldType ≠ .autodate) (hnull : value ≠ .null)
    (hempty : value ≠ .string "") (h : validateValue field value = .ok ()) :
    ∃ text, encodeValue field value = .ok (some text) := by
  have hstr {text : String} (h : expectString field.name value = .ok text) :
      some <$> requireStr field value = .ok (some text) := by
    rw [asStr_of_expectString h]
    rfl
  have hnot : value.isNull = false := by
    cases value <;> first | rfl | contradiction
  rw [encodeValue, if_neg (by simp [hnot]), if_neg (by simp [hempty])]
  unfold validateValue at h
  cases hkind : field.fieldType <;> simp only [hkind] at h ⊢
  case autodate => contradiction
  case number =>
    obtain ⟨number, hnumber, -⟩ := bind_eq_ok.mp h
    rw [demand_eq_ok.mp hnumber]
    exact ⟨_, rfl⟩
  case bool =>
    obtain ⟨flag, hflag, -⟩ := bind_eq_ok.mp h
    rw [demand_eq_ok.mp hflag]
    exact ⟨_, rfl⟩
  case json => exact ⟨_, rfl⟩
  case geoPoint => exact ⟨_, rfl⟩
  case select | relation =>
    split_ifs at h ⊢
    · obtain ⟨items, hitems, -⟩ := bind_eq_ok.mp h
      rw [requireStrList_of_expectStringList hitems]
      exact ⟨_, rfl⟩
    · obtain ⟨text, htext, -⟩ := bind_eq_ok.mp h
      exact ⟨text, hstr htext⟩
  case file =>
    split_ifs at h ⊢
    · exact ⟨_, rfl⟩
    · obtain ⟨text, htext, -⟩ := bind_eq_ok.mp h
      exact ⟨text, hstr htext⟩
  all_goals
    obtain ⟨text, htext, -⟩ := bind_eq_ok.mp h
    exact ⟨text, hstr htext⟩

/-- **A supplied value is encoded** where its field is accepted, and that of a required field is not
SQL null. -/
theorem encodeValue_of_accepted {input : List (String × Json)} (htype : field.fieldType ≠ .autodate)
    (h : fieldFailure input false field = none)
    (hvalue : Assoc.lookup field.name input = some value) :
    ∃ encoded, encodeValue field value = .ok encoded ∧ (field.required = true → encoded ≠ none) := by
  by_cases hnone : value = .null ∨ value = .string ""
  · have hoptional : field.required ≠ true := by
      intro hrequired
      obtain ⟨other, hother, hnull, hempty⟩ := exists_of_required htype hrequired h
      obtain rfl := Option.some.inj (hvalue.symm.trans hother)
      exact hnone.elim hnull hempty
    suffices hencoded : ∃ encoded, encodeValue field value = .ok encoded from
      hencoded.imp fun _ hencoded => ⟨hencoded, fun hrequired => absurd hrequired hoptional⟩
    rcases hnone with rfl | rfl
    · exact ⟨none, rfl⟩
    · by_cases htext : isTextLike field.fieldType = true
      · refine ⟨some "", ?_⟩
        rw [encodeValue, if_neg (by simp [Json.isNull]), if_neg (by simp [htext])]
        cases hkind : field.fieldType <;> first | rfl | (rw [hkind] at htext; cases htext)
      · exact ⟨none, by rw [encodeValue, if_neg (by simp [Json.isNull]), if_pos ⟨rfl, htext⟩]⟩
  · obtain ⟨hnull, hempty⟩ := not_or.mp hnone
    obtain hbad | hbad | hvalid := valid_of_fieldFailure htype h hvalue
    · contradiction
    · contradiction
    · obtain ⟨text, htext⟩ := exists_encodeValue htype hnull hempty hvalid
      exact ⟨some text, htext, fun _ => by simp⟩

end Encode

end LazyPock.Validation
