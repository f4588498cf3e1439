import LazyPock.Auth.OAuth2
import LazyPock.Records.Insert

/-!
# What a first sign-in writes

The record that `oauth2_create_input` (`crates/api/src/auth.rs`) builds for a first sign-in with a provider,
as `writable_columns` (`crates/db/src/records.rs`) lets it be written. The profile's address goes to the first
field of the type e-mail, which need not be the field `email` of the account: what `createData` may not name is
that first field, and the fixed names.

## Main definitions

* `OAuth2.AuthFields`: an auth collection, its own fields among declared ones.
* `OAuth2.Assigns`: the columns a record is written with.
* `OAuth2.Agree`, `OAuth2.Vouched`.

## Main results

* `OAuth2.lookup_createInput`: where the entries of the record come from.
* `OAuth2.identity_kept_iff`: when `createData` does not choose the identity.
-/

namespace LazyPock.OAuth2

open Emails (emailField passwordField)
open Records

/-! ### Auth collections -/

/-- The name and the type of a field. -/
def kind (field : Field) : String × FieldType := (field.name, field.fieldType)

/-- An auth collection: its own fields and declared ones, in any order. -/
structure AuthFields (collection : Collection) : Prop where
  auth : collection.collectionType.isAuth = true
  fields : ∃ own declared : List Field, collection.fields.Perm (own ++ declared) ∧
    own.map kind = authSystemFields.map (fun field => (field.name, field.fieldType)) ∧
    ∀ field ∈ declared, field.name ∉ systemColumns ∧ field.name ∉ authSystemColumns
  /-- Every field has a column. -/
  typed : ∀ field ∈ collection.fields, ∃ columnType, field.columnType = .ok columnType

/-! ### Records -/

/-- The column that a record is written with, and its value. -/
def Assigns (collection : Collection) (input : Json) (name : String) (value : Option String) : Prop :=
  ∃ writables, writableColumns collection = .ok writables ∧
    Written (input.asObject.getD []) writables name value

/-- The columns that decide who an account is, behind the id. -/
def identityColumns : List String := ["email", "emailVisibility", "verified", "password_hash", "token_key"]

/-- Two records are written with the same identity. -/
structure Agree (collection : Collection) (input input' : Json) : Prop where
  id : ∀ newId, resolveId input newId = resolveId input' newId
  columns : ∀ name ∈ identityColumns, ∀ value,
    Assigns collection input name value ↔ Assigns collection input' name value

/-- The e-mail of a record is the provider's, or it has none. -/
def Vouched (collection : Collection) (user : OAuthUser) (input : Json) : Prop :=
  ∀ value, Assigns collection input "email" value ↔ ∃ email, user.email = some email ∧ value = some email

/-- The value an e-mail column is written with. -/
def emailText : Json → Option (Option String)
  | .null => some none
  | .string email => some (some email)
  | _ => none

/-- The e-mail that `createData` names. -/
def suppliedEmail (createData : Option Json) : Option (Option String) :=
  (createData.bind fun data => data.get "email").bind emailText

/-! ### Where the entries come from -/

section Entries

variable {collection : Collection}

theorem AuthFields.kind_of_mem (h : AuthFields collection) {field : Field} (hfield : field ∈ collection.fields)
    (hname : field.name ∈ authSystemColumns) :
    kind field ∈ authSystemFields.map fun field => (field.name, field.fieldType) := by
  obtain ⟨own, declared, hperm, hown, hdeclared⟩ := h.fields
  rcases List.mem_append.mp (hperm.mem_iff.mp hfield) with hmem | hmem
  · rw [← hown]
    exact List.mem_map_of_mem hmem
  · exact absurd hname (hdeclared field hmem).2

theorem AuthFields.exists_of_kind (h : AuthFields collection) {name : String} {fieldType : FieldType}
    (hkind : (name, fieldType) ∈ authSystemFields.map fun field => (field.name, field.fieldType)) :
    ∃ field ∈ collection.fields, field.name = name ∧ field.fieldType = fieldType := by
  obtain ⟨own, declared, hperm, hown, -⟩ := h.fields
  rw [← hown] at hkind
  obtain ⟨field, hfield, heq⟩ := List.mem_map.mp hkind
  obtain ⟨hname, htype⟩ := Prod.mk.inj heq
  exact ⟨field, hperm.mem_iff.mpr (List.mem_append_left _ hfield), hname, htype⟩

/-- The field `email` has the type e-mail. -/
theorem AuthFields.email_type (h : AuthFields collection) {field : Field} (hfield : field ∈ collection.fields)
    (hname : field.name = "email") : field.fieldType = .email := by
  have hkind := h.kind_of_mem hfield (by rw [hname]; decide)
  simp only [authSystemFields, List.map_cons, List.map_nil, kind, hname] at hkind
  simpa using hkind

theorem AuthFields.passwordField_ne (h : AuthFields collection) : passwordField collection ≠ "email" := by
  intro heq
  rw [passwordField] at heq
  cases hfind : collection.fields.find? fun field => field.fieldType = .password with
  | none => simp [hfind] at heq
  | some field =>
    rw [hfind, Option.map_some, Option.getD_some] at heq
    have htype : field.fieldType = .password := by simpa using List.find?_some hfind
    rw [h.email_type (List.mem_of_find?_eq_some hfind) heq] at htype
    cases htype

/-- Whether `createData` may fill a field. -/
def allowed (collection : Collection) (key : String) : Bool :=
  !isProtectedCreateField key && key ≠ emailField collection && key ≠ passwordField collection &&
    collection.fields.any fun field => field.name = key

/-- What the server fills in. -/
def profileEntries (collection : Collection) (user : OAuthUser) (password : String) : List (String × Json) :=
  let has (name : String) : Bool := collection.fields.any fun field => field.name = name
  (user.email.map fun email => (emailField collection, Json.string email)).toList ++
    [(passwordField collection, Json.string password)] ++
    (if has "verified" then [("verified", Json.bool true)] else []) ++
    (if has "name" then (user.name.map fun name => ("name", Json.string name)).toList else []) ++
    if has "avatar" then
      (user.picture.map fun picture => ("avatar", Json.string picture)).toList else []

theorem lookup_insertAll_of_notMem {α : Type} {key : String} {entries overrides : List (String × α)}
    (h : key ∉ overrides.map Prod.fst) :
    Assoc.lookup key (Assoc.insertAll entries overrides) = Assoc.lookup key entries := by
  induction overrides generalizing entries with
  | nil => rfl
  | cons entry rest ih =>
    obtain ⟨hkey, hrest⟩ := not_or.mp (List.mem_cons.not.mp h)
    have hstep : Assoc.insertAll entries (entry :: rest) =
        Assoc.insertAll (Assoc.insert entry.1 entry.2 entries) rest := rfl
    rw [hstep, ih hrest, Assoc.lookup_insert_of_ne hkey]

/-- **Where an entry of the record comes from.** -/
theorem lookup_createInput {user : OAuthUser} {createData : Option Json} {password : String}
    (hordered : ∀ data ∈ createData, data.ordered = true) (key : String) :
    (createInput collection user createData password).get key =
      ((createData.bind fun data => data.get key).filter fun _ => allowed collection key).or
        (Assoc.lookup key (Assoc.insertAll [] (profileEntries collection user password))) := by
  have hplain : ∀ extra : List (String × Json), extra = [] →
      Assoc.lookup key (Assoc.insertAll (Assoc.insertAll [] (profileEntries collection user password)) extra) =
        Assoc.lookup key (Assoc.insertAll [] (profileEntries collection user password)) := by
    rintro - rfl
    rfl
  cases createData with
  | none => exact hplain [] rfl
  | some data =>
    cases data with
    | object entries =>
      have hsorted : Assoc.Sorted entries := (Json.ordered_object.mp (hordered _ rfl)).1
      have hlookup := @Assoc.lookup_insertAll _ (Assoc.insertAll [] (profileEntries collection user password)) _
        (hsorted.filter fun entry => allowed collection entry.1) key
      rw [hsorted.lookup_filter] at hlookup
      exact hlookup
    | _ => exact hplain [] rfl

/-- The e-mail that the server fills in. -/
theorem lookup_profile_email (h : AuthFields collection) (user : OAuthUser) (password : String) :
    Assoc.lookup "email" (Assoc.insertAll [] (profileEntries collection user password)) =
      if emailField collection = "email" then user.email.map Json.string else none := by
  obtain ⟨rest, hrest, hsplit⟩ : ∃ rest : List (String × Json), "email" ∉ rest.map Prod.fst ∧
      profileEntries collection user password =
        (user.email.map fun email => (emailField collection, Json.string email)).toList ++ rest := by
    refine ⟨_, ?_, by rw [profileEntries]; simp only [List.append_assoc]; rfl⟩
    have hpassword := h.passwordField_ne.symm
    have hname : "email" ∉ ((user.name.map fun name => ("name", Json.string name)).toList).map Prod.fst := by
      cases user.name <;> simp
    have hpicture : "email" ∉
        ((user.picture.map fun picture => ("avatar", Json.string picture)).toList).map Prod.fst := by
      cases user.picture <;> simp
    simp only [List.map_append, List.mem_append, not_or, List.map_cons, List.map_nil, List.mem_singleton]
    refine ⟨hpassword, ?_, ?_, ?_⟩
    · split_ifs <;> simp
    · split_ifs
      · exact hname
      · simp
    · split_ifs
      · exact hpicture
      · simp
  have hinsert : Assoc.insertAll [] (profileEntries collection user password) =
      Assoc.insertAll (Assoc.insertAll []
        (user.email.map fun email => (emailField collection, Json.string email)).toList) rest := by
    rw [hsplit]
    exact List.foldl_append
  rw [hinsert, lookup_insertAll_of_notMem hrest]
  cases user.email with
  | none => simp [Assoc.insertAll]
  | some email => simp [Assoc.insertAll, Assoc.insert, Assoc.lookup]

/-- `createData` may name the e-mail of the account exactly when the profile's address goes elsewhere. -/
theorem AuthFields.allowed_email_iff (h : AuthFields collection) :
    allowed collection "email" = true ↔ emailField collection ≠ "email" := by
  obtain ⟨field, hfield, hname, -⟩ := @AuthFields.exists_of_kind _ h "email" .email (by decide)
  have hhas : (collection.fields.any fun field => field.name = "email") = true :=
    List.any_eq_true.mpr ⟨field, hfield, by simpa using hname⟩
  have hprotected : isProtectedCreateField "email" = false := by decide
  rw [allowed, hprotected, hhas, Bool.not_false, Bool.true_and, Bool.and_true, Bool.and_eq_true,
    decide_eq_true_iff, decide_eq_true_iff, and_iff_left h.passwordField_ne.symm]
  exact ne_comm

theorem allowed_of_protected {key : String} (h : isProtectedCreateField key = true) :
    allowed collection key = false := by
  simp [allowed, h]

/-- A field that is protected is the server's. -/
theorem get_createInput_of_protected {user : OAuthUser} {createData createData' : Option Json}
    {password : String} (hordered : ∀ data ∈ createData, data.ordered = true)
    (hordered' : ∀ data ∈ createData', data.ordered = true) {key : String}
    (h : isProtectedCreateField key = true) :
    (createInput collection user createData password).get key =
      (createInput collection user createData' password).get key := by
  rw [lookup_createInput hordered, lookup_createInput hordered', allowed_of_protected h]
  simp

end Entries

/-! ### What the columns are written with -/

section Columns

variable {collection : Collection} {input input' : Json} {name : String}

theorem asObject_createInput (collection : Collection) (user : OAuthUser) (createData : Option Json)
    (password : String) :
    Assoc.lookup name ((createInput collection user createData password).asObject.getD []) =
      (createInput collection user createData password).get name := rfl

/-- A column depends on its own entry. -/
theorem assigns_congr
    (h : Assoc.lookup name (input.asObject.getD []) = Assoc.lookup name (input'.asObject.getD []))
    (value : Option String) : Assigns collection input name value ↔ Assigns collection input' name value := by
  simp only [Assigns, Written, h]

/-- The credentials of an account are no columns that a client may write. -/
theorem AuthFields.not_assigns_credential (h : AuthFields collection) (hname : name ∈ credentialColumns)
    (value : Option String) : ¬ Assigns collection input name value := by
  rintro ⟨writables, hwritables, writable, hmem, rfl, -⟩
  rcases (mem_writableColumns hwritables writable).mp hmem with
    ⟨field, -, hwritable, -, heq, -⟩ | ⟨-, hcolumn, -, -⟩
  · rw [isWritable, h.auth, ← heq] at hwritable
    simp [hname] at hwritable
  · have hsystem : writable.name ∈ writableAuthColumns.map Prod.fst := List.mem_map_of_mem hcolumn
    rcases List.mem_pair.mp hname with heq | heq <;> rw [heq] at hsystem <;> exact absurd hsystem (by decide)

theorem encode_email {writable : Writable} {field : Field} (hfield : writable.field = some field)
    (htype : field.fieldType = .email) (raw : Json) (value : Option String) :
    writable.encode raw = .ok value ↔ emailText raw = some value := by
  rw [Writable.encode, hfield]
  cases raw <;> simp [Validation.encodeValue, Json.isNull, htype, emailText, Validation.isTextLike,
    Validation.requireStr, Json.asStr, okOr]

/-- **What the e-mail column is written with.** -/
theorem AuthFields.assigns_email_iff (h : AuthFields collection) (value : Option String) :
    Assigns collection input "email" value ↔
      (Assoc.lookup "email" (input.asObject.getD [])).bind emailText = some value := by
  obtain ⟨writables, hwritables⟩ := exists_writableColumns h.typed
  obtain ⟨field, hfield, hname, htype⟩ := @AuthFields.exists_of_kind _ h "email" .email (by decide)
  rw [Option.bind_eq_some_iff]
  constructor
  · rintro ⟨_, hother, writable, hmem, heq, raw, hraw, hvalue⟩
    obtain rfl := Except.ok.inj (hother.symm.trans hwritables)
    refine ⟨raw, hraw, ?_⟩
    rcases (mem_writableColumns hwritables writable).mp hmem with
      ⟨field, hfield, -, -, hwritable, hsome⟩ | ⟨-, -, hnone, -⟩
    · have htype := h.email_type hfield (hwritable.symm.trans heq)
      exact (encode_email hsome htype raw value).mp hvalue
    · refine absurd ?_ hnone
      rw [heq, ← hname]
      exact List.mem_map_of_mem hfield
  · rintro ⟨raw, hraw, hvalue⟩
    obtain ⟨columnType, htyped⟩ := h.typed field hfield
    have hwritable : isWritable collection field = true := by
      simp [isWritable, htype, hname, credentialColumns]
    refine ⟨writables, hwritables, ⟨"email", columnType, some field⟩,
      (mem_writableColumns hwritables _).mpr (.inl ⟨field, hfield, hwritable, htyped, hname.symm, rfl⟩), rfl,
      raw, hraw, (encode_email rfl htype raw value).mpr hvalue⟩

end Columns

/-! ### Who chooses the identity -/

section Identity

variable {collection : Collection}

/-- The e-mail of the record. -/
theorem email_createInput (h : AuthFields collection) {user : OAuthUser} {createData : Option Json}
    {password : String} (hordered : ∀ data ∈ createData, data.ordered = true) :
    ((createInput collection user createData password).get "email").bind emailText =
      if emailField collection = "email" then user.email.map some else suppliedEmail createData := by
  rw [lookup_createInput hordered, lookup_profile_email h]
  split_ifs with hemail
  · have hallowed : allowed collection "email" = false := by
      simpa using h.allowed_email_iff.not.mpr (not_not.mpr hemail)
    rw [hallowed]
    cases user.email <;> simp [emailText]
  · rw [h.allowed_email_iff.mpr hemail, suppliedEmail]
    cases createData.bind fun data => data.get "email" <;> rfl

theorem vouched_iff (h : AuthFields collection) {user : OAuthUser} {createData : Option Json}
    {password : String} :
    Vouched collection user (createInput collection user createData password) ↔
      ((createInput collection user createData password).get "email").bind emailText = user.email.map some := by
  simp only [Vouched, h.assigns_email_iff, asObject_createInput]
  constructor
  · intro hvouched
    refine Option.ext fun value => ?_
    rw [hvouched value]
    cases user.email <;> simp [eq_comm]
  · intro heq value
    rw [heq]
    cases user.email <;> simp [eq_comm]

/-- **When `createData` does not choose the identity**: when the first e-mail field is the e-mail of the
account, and otherwise only where it names the address of the provider itself. -/
theorem identity_kept_iff (h : AuthFields collection) (user : OAuthUser) (password : String)
    (createData createData' : Option Json) (hordered : ∀ data ∈ createData, data.ordered = true)
    (hordered' : ∀ data ∈ createData', data.ordered = true) :
    (Agree collection (createInput collection user createData password)
        (createInput collection user createData' password) ∧
      Vouched collection user (createInput collection user createData password) ∧
      Vouched collection user (createInput collection user createData' password)) ↔
    (emailField collection = "email" ∨
      suppliedEmail createData = user.email.map some ∧ suppliedEmail createData' = user.email.map some) := by
  rw [vouched_iff h, vouched_iff h, email_createInput h hordered, email_createInput h hordered']
  constructor
  · rintro ⟨-, hvouched, hvouched'⟩
    by_cases hemail : emailField collection = "email"
    · exact .inl hemail
    · rw [if_neg hemail] at hvouched hvouched'
      exact .inr ⟨hvouched, hvouched'⟩
  · intro hkept
    have hemails : (if emailField collection = "email" then user.email.map some
          else suppliedEmail createData) = user.email.map some ∧
        (if emailField collection = "email" then user.email.map some
          else suppliedEmail createData') = user.email.map some := by
      split_ifs with hemail
      · exact ⟨rfl, rfl⟩
      · exact hkept.resolve_left hemail
    refine ⟨⟨fun newId => ?_, fun name hname value => ?_⟩, hemails.1, hemails.2⟩
    · rw [resolveId, resolveId, get_createInput_of_protected hordered hordered' (by decide)]
    · by_cases hcredential : name ∈ credentialColumns
      · exact iff_of_false (h.not_assigns_credential hcredential value)
          (h.not_assigns_credential hcredential value)
      · by_cases hemail : name = "email"
        · rw [hemail, h.assigns_email_iff, h.assigns_email_iff, asObject_createInput, asObject_createInput,
            email_createInput h hordered, email_createInput h hordered', hemails.1, hemails.2]
        · have hprotected : isProtectedCreateField name = true := by
            simp only [identityColumns, List.mem_cons, List.not_mem_nil, or_false] at hname
            rcases hname with rfl | rfl | rfl | rfl | rfl
            · exact absurd rfl hemail
            · decide
            · decide
            · exact absurd (by decide) hcredential
            · exact absurd (by decide) hcredential
          have hsame := @get_createInput_of_protected collection user createData createData' password hordered
            hordered' name hprotected
          refine assigns_congr ?_ value
          rw [asObject_createInput, asObject_createInput]
          exact hsame

/-- An account with an e-mail field in front of its own. -/
def contacts (first : List Field) : Collection where
  id := "kq3v8x1n5b7m2z4"
  name := "users"
  collectionType := .auth
  options := .object []
  rules := .object []
  fields := first ++ [⟨"f1", "kq3v8x1n5b7m2z4", "email", .email, true, true, .object [], 0⟩,
    ⟨"f2", "kq3v8x1n5b7m2z4", "password_hash", .password, false, false, .object [], 1⟩,
    ⟨"f3", "kq3v8x1n5b7m2z4", "emailVisibility", .bool, false, false, .object [], 2⟩,
    ⟨"f4", "kq3v8x1n5b7m2z4", "verified", .bool, false, false, .object [], 3⟩]

def workEmail : Field := ⟨"f0", "kq3v8x1n5b7m2z4", "work_email", .email, false, false, .object [], 0⟩

theorem contacts_authFields {first : List Field} (hfirst : first = [] ∨ first = [workEmail]) :
    AuthFields (contacts first) := by
  have htyped : ∀ field ∈ (contacts first).fields, isOk field.columnType = true := by
    rcases hfirst with rfl | rfl <;> decide
  refine ⟨rfl, ⟨(contacts []).fields, first, List.perm_append_comm, rfl, ?_⟩, fun field hfield => isOk_iff.mp (htyped field hfield)⟩
  rcases hfirst with rfl | rfl <;> decide

def ada : OAuthUser := ⟨"583231", some "ada@example.com", none, none⟩

def named (email : String) : Option Json := some (.object [("email", .string email)])


theorem named_ordered (email : String) : ∀ data ∈ named email, data.ordered = true := by
  intro data hdata
  obtain rfl := Option.some.inj hdata
  exact Json.ordered_object.mpr ⟨List.pairwise_singleton _ _, by simp [Json.ordered]⟩

/-- An account without another e-mail field. -/
theorem identity_kept_contacts :
    Agree (contacts []) (createInput (contacts []) ada (named "eve@example.com") "secret")
      (createInput (contacts []) ada none "secret") :=
  ((identity_kept_iff (contacts_authFields (.inl rfl)) ada "secret" (named "eve@example.com") none
    (named_ordered _) (by simp)).mpr (.inl (by decide))).1

/-- The e-mail of the account is the one that `createData` names. -/
theorem email_chosen :
    ¬ ∀ (collection : Collection) (user : OAuthUser) (password : String) (createData createData' : Option Json),
      AuthFields collection → (∀ data ∈ createData, data.ordered = true) →
      (∀ data ∈ createData', data.ordered = true) →
      Agree collection (createInput collection user createData password)
          (createInput collection user createData' password) ∧
        Vouched collection user (createInput collection user createData password) ∧
        Vouched collection user (createInput collection user createData' password) := by
  intro hclaim
  have hfields := contacts_authFields (.inr rfl)
  have hvouched := (hclaim (contacts [workEmail]) ada "secret" (named "eve@example.com") none hfields
    (named_ordered _) (by simp)).2.1
  rw [vouched_iff hfields, email_createInput hfields (named_ordered _)] at hvouched
  exact absurd hvouched (by decide)

end Identity

end LazyPock.OAuth2
