import LazyPock.Query.Compile
import LazyPock.Sql.Semantics

/-!
# The identity of a request

Who a request acts as (`crates/api/src/auth.rs`), what the query layer learns about it, and what is
published to the database session (`crates/db/src/rls/context.rs`) for the `auth` helpers of the
migrations `0003_rls.sql` and `0017_auth_claims.sql` to read.

The query layer sees a missing attribute as the empty text, the helpers return `NULL` for it. The
two agree on a reference exactly when the request carries it (`Principal.Carries`).

## Main definitions

* `Principal`, `Principal.authContext`, `Principal.requestContext`.
* `Action`, `Role`, `RequestContext`.
* `RequestContext.setting`, `RequestContext.helper`: the session.
* `Session`, `Session.env`: what a policy is evaluated in.
* `Principal.Carries`: the request has a value for a reference.

## Main results

* `Principal.authValue_eq_iff`: the helpers and the query layer agree on a reference
  exactly when the request carries it.
-/

namespace LazyPock

open Text Sql

/-! ### Who asks -/

/-- The verified claims of a token. -/
structure Claims where
  /-- Whether the account bypasses access rules. -/
  superuser : Bool
  /-- The account id. -/
  sub : String
  email : String
  /-- The collection id of the account. -/
  col : String
  /-- The collection name of the account. -/
  name : String
deriving DecidableEq

/-- The authenticated caller. -/
structure Principal where
  claims : Option Claims
  /-- The authenticated record's own columns, as texts. -/
  recordClaims : List (String × String)
  /-- Only an account has a record. -/
  recordClaims_of_none : claims = none → recordClaims = []
deriving DecidableEq

/-- Nobody is authenticated. -/
def Principal.anonymous : Principal := ⟨none, [], fun _ => rfl⟩

def nonEmpty (value : String) : Option String := if value = "" then none else some value

/-- The claims the query layer understands. -/
@[grind =]
def Principal.authContext (principal : Principal) : AuthContext :=
  match principal.claims with
  | some claims =>
    ⟨some claims.sub, some claims.email, nonEmpty claims.col, nonEmpty claims.name,
      principal.recordClaims⟩
  | none => ⟨none, none, none, none, []⟩

/-! ### What the session knows -/

/-- Which database role a request runs as. -/
inductive Role where
  | owner
  | anon
  | authenticated
deriving DecidableEq, Repr

/-- The role's name; none stays on the connecting role. -/
def Role.name : Role → Option String
  | owner => none
  | anon => some "lazypock_anon"
  | authenticated => some "lazypock_authenticated"

/-- The record action a request performs. -/
inductive Action where
  | list
  | view
  | update
  | delete
  | write
deriving DecidableEq, Repr

/-- The value the policies read from `request.action`. -/
def Action.name : Action → String
  | list => "list"
  | view => "view"
  | update => "update"
  | delete => "delete"
  | write => "write"

/-- Everything a request tells the database about itself. -/
structure RequestContext where
  role : Role
  action : Action
  /-- The authenticated record id; empty when anonymous. -/
  authId : String
  authEmail : String
  authCollectionId : String
  authCollectionName : String
  /-- The authenticated record's own columns, the members of one JSON object. -/
  authClaims : List (String × String)

namespace RequestContext

def anonymous : RequestContext := ⟨.anon, .write, "", "", "", "", []⟩

def owner : RequestContext := { anonymous with role := .owner }

def authenticated (id email collectionId collectionName : String) : RequestContext :=
  ⟨.authenticated, .write, id, email, collectionId, collectionName, []⟩

def withAction (context : RequestContext) (action : Action) : RequestContext :=
  { context with action := action }

/-- The document published under `request.auth.claims`. -/
def claimsText (context : RequestContext) : String :=
  (Json.object (context.authClaims.map fun (name, value) => (name, .string value))).render

/-- `current_setting(name, true)` after the context was applied; setting names are compared without
regard to case. -/
def setting (context : RequestContext) (name : String) : Option String :=
  match String.ofList (name.toList.map asciiLower) with
  | "request.auth.id" => some context.authId
  | "request.auth.email" => some context.authEmail
  | "request.auth.collection_id" => some context.authCollectionId
  | "request.auth.collection_name" => some context.authCollectionName
  | "request.action" => some context.action.name
  | "request.auth.claims" => some context.claimsText
  | _ => none

/-- `nullif(current_setting(name, true), '')` -/
def nonEmptySetting (context : RequestContext) (name : String) : Option String :=
  (context.setting name).bind nonEmpty

/-- `auth.claim(name)`: a member of the published document, or else a setting. -/
def claim (context : RequestContext) (name : String) : Option String :=
  (Assoc.lookup name context.authClaims).or (context.nonEmptySetting ("request.auth." ++ name))

/-- The functions of the `auth` schema. -/
def helper (context : RequestContext) (schema name : String) (arguments : List (Outcome Value)) :
    Outcome Value :=
  match schema, name, arguments with
  | "auth", "uid", [] => .ofOption ((context.nonEmptySetting "request.auth.id").map .text)
  | "auth", "collection_id", [] =>
    .ofOption ((context.nonEmptySetting "request.auth.collection_id").map .text)
  | "auth", "collection_name", [] =>
    .ofOption ((context.nonEmptySetting "request.auth.collection_name").map .text)
  | "auth", "claim", [.val (.text claimName)] => .ofOption ((context.claim claimName).map .text)
  | _, _, _ => .error

end RequestContext

/-- The row-level-security context a request must run under. -/
@[grind =]
def Principal.requestContext (principal : Principal) (action : Action) : RequestContext :=
  let context : RequestContext := match principal.claims with
    | some claims =>
      if claims.superuser then .owner
      else .authenticated claims.sub claims.email claims.col claims.name
    | none => .anonymous
  { context with action := action, authClaims := principal.recordClaims }

/-- What a request runs in besides its own context. -/
structure Session where
  pg : Postgres
  tables : String → List Row
  now : Int
  /-- When the policies were created. -/
  createdAt : Int

/-- The environment a policy is evaluated in, at a row of its table. -/
def Session.env (session : Session) (request : RequestContext) (row : Row) : Env where
  pg := session.pg
  scope := fun _ => row
  tables := session.tables
  params := []
  setting := request.setting
  call := request.helper
  now := session.now
  readAt := session.createdAt

/-! ### The two views of a reference -/

/-- The value a policy sees for a reference. -/
@[grind =]
def RequestContext.authValue (context : RequestContext) : AuthRef → Option String
  | .id => context.nonEmptySetting "request.auth.id"
  | .email => context.claim "email"
  | .collectionId => context.nonEmptySetting "request.auth.collection_id"
  | .collectionName => context.nonEmptySetting "request.auth.collection_name"
  | .claim name => context.claim name

/-- The request carries a value for a reference: the account's attribute is there and, for its
address, the record says the same as the token. -/
@[grind =]
def Principal.Carries (principal : Principal) (reference : AuthRef) : Prop :=
  ∃ claims, principal.claims = some claims ∧
    match reference with
    | .id => claims.superuser = false ∧ claims.sub ≠ ""
    | .email => Assoc.lookup "email" principal.recordClaims = some claims.email ∨
        (Assoc.lookup "email" principal.recordClaims = none ∧ claims.superuser = false ∧
          claims.email ≠ "")
    | .collectionId => claims.superuser = false ∧ claims.col ≠ ""
    | .collectionName => claims.superuser = false ∧ claims.name ≠ ""
    | .claim name => (Assoc.lookup name principal.recordClaims).isSome

section Settings

variable (context : RequestContext)

@[simp] theorem RequestContext.nonEmptySetting_id :
    context.nonEmptySetting "request.auth.id" = nonEmpty context.authId := rfl

@[simp] theorem RequestContext.nonEmptySetting_email :
    context.nonEmptySetting "request.auth.email" = nonEmpty context.authEmail := rfl

@[simp] theorem RequestContext.nonEmptySetting_collectionId :
    context.nonEmptySetting "request.auth.collection_id" = nonEmpty context.authCollectionId := rfl

@[simp] theorem RequestContext.nonEmptySetting_collectionName :
    context.nonEmptySetting "request.auth.collection_name" = nonEmpty context.authCollectionName :=
  rfl

@[simp] theorem RequestContext.setting_action :
    context.setting "request.action" = some context.action.name := rfl

end Settings

theorem nonEmpty_eq_some {s t : String} : nonEmpty s = some t ↔ s = t ∧ s ≠ "" := by
  unfold nonEmpty
  by_cases h : s = ""
  · simp [h]
  · simp [h]

theorem nonEmpty_getD (s : String) : (nonEmpty s).getD "" = s := by
  unfold nonEmpty
  by_cases h : s = ""
  · simp [h]
  · simp [h]

/-- What the fallback of `auth.claim` finds is never empty. -/
theorem RequestContext.nonEmptySetting_ne_empty (context : RequestContext) (name : String) :
    context.nonEmptySetting name ≠ some "" := by
  unfold nonEmptySetting
  cases context.setting name with
  | none => simp
  | some value =>
    intro h
    have := nonEmpty_eq_some.mp h
    exact this.2 this.1

/-- **The helpers and the query layer agree on a reference exactly when the request carries it.** A
missing attribute is `NULL` to the helpers and the empty text to the query layer. -/
theorem Principal.authValue_eq_iff (principal : Principal) (action : Action)
    (reference : AuthRef) :
    (principal.requestContext action).authValue reference =
        some (principal.authContext.value reference) ↔ principal.Carries reference := by
  obtain ⟨claims, recordClaims, hrecord⟩ := principal
  cases claims with
  | none =>
    obtain rfl := hrecord rfl
    have hclaim : ∀ context : RequestContext, ∀ name, context.authClaims = [] →
        context.claim name ≠ some "" := by
      intro context name hnil
      simp [RequestContext.claim, hnil, context.nonEmptySetting_ne_empty]
    cases reference <;>
      simp [Carries, requestContext, authContext, AuthContext.value, RequestContext.authValue,
        RequestContext.anonymous, nonEmpty, hclaim, Assoc.lookup]
  | some claims =>
    obtain ⟨superuser, sub, email, col, name⟩ := claims
    have hfallback := fun claim => RequestContext.nonEmptySetting_ne_empty
      (requestContext ⟨some ⟨superuser, sub, email, col, name⟩, recordClaims, hrecord⟩ action)
      ("request.auth." ++ claim)
    cases reference with
    | email =>
      cases hlookup : Assoc.lookup "email" recordClaims with
      | none =>
        cases superuser <;> simp [Carries, requestContext, authContext, AuthContext.value,
          RequestContext.authValue, RequestContext.claim, RequestContext.owner, hlookup,
          RequestContext.anonymous, RequestContext.authenticated, nonEmpty]
      | some value => simp [Carries, requestContext, authContext, AuthContext.value,
          RequestContext.authValue, RequestContext.claim, hlookup]
    | claim claim =>
      cases hlookup : Assoc.lookup claim recordClaims with
      | none => simpa [Carries, authContext, AuthContext.value, RequestContext.authValue,
          RequestContext.claim, hlookup, requestContext] using hfallback claim
      | some value => simp [Carries, requestContext, authContext, AuthContext.value,
          RequestContext.authValue, RequestContext.claim, hlookup]
    | _ =>
      cases superuser <;> simp [Carries, requestContext, authContext, AuthContext.value,
        RequestContext.authValue, RequestContext.owner, RequestContext.anonymous,
        RequestContext.authenticated, nonEmpty_getD, nonEmpty_eq_some]

end LazyPock
