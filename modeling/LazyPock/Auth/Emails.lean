import LazyPock.Auth.Sessions
import LazyPock.Machine.Transactions
import LazyPock.Rls.Identity
import LazyPock.Schema.Cache
import LazyPock.Schema.Ddl

/-!
# The e-mail flows

Verification, password reset and e-mail change (`crates/api/src/emails.rs`), over the one table of
one-time tokens of `0013_otps.sql`. Each flow has a request half that mints a token and a confirm half
that consumes it and applies the change. A request is a list of statements, each committed on its own,
and any of them can fail.

The collection of a request is resolved by name or id, but the tokens are kept under the spelling of
the path, and the confirm half also takes the table it writes to from there.

`Confirm.error_keeps_iff` says for which requests an error leaves everything as it was: the token is
consumed before the account is written, so every later failure loses it.

The mail itself and the display name in it are left out. What the statements write is also kept in a
journal, which is no table of the database.

## Main definitions

* `Emails.Db`, with `Emails.Otps`, `Emails.Accounts` and the journal.
* `Emails.mint`, `Emails.lookup`, `Emails.consume`.
* `Emails.confirmVerification`, `Emails.confirmPasswordReset`,
  `Emails.confirmEmailChange` and the request halves.
* `Emails.Confirm.LosesToken`: a later statement fails behind the one that consumes.

## Main results

* `Emails.Confirm.error_keeps_iff`, `Emails.confirm_by_id_loses_token`.
-/

namespace LazyPock.Emails

open Machine Text Saga

/-! ### The database -/

/-- A row of `_otps`. -/
structure Otp where
  id : String
  /-- The spelling of the collection the token was asked for with. -/
  collectionRef : String
  /-- The record the token was minted for. -/
  recordRef : String
  /-- The hash of the token. -/
  passwordHash : String
  /-- The address it was mailed to; the new address for an e-mail change. -/
  sentTo : Option String
  createdAt : Int
deriving DecidableEq

/-- What the confirm path looks a token up by. -/
def Otp.key (otp : Otp) : String × String := (otp.collectionRef, otp.passwordHash)

/-- `_otps`, with its unique index. -/
structure Otps where
  rows : List Otp
  unique : (rows.map Otp.key).Nodup

/-- A row of an auth table: its text columns and the flag the flows write. -/
structure Row where
  id : String
  verified : Bool
  text : String → Option String

/-- An auth table, with its primary key. -/
structure Accounts where
  rows : List Row
  primary : (rows.map Row.id).Nodup

/-- What a statement has written. -/
inductive Entry where
  /-- A token was stored. -/
  | minted (otp : Otp)
  /-- A token was consumed, at a time. -/
  | consumed (otp : Otp) (time : Int)
  /-- For a token, an account was written; the row is the one before. -/
  | wrote (otp : Otp) (row : Row)

/-- The tables that the flows read and write, and what has been written, the last first. -/
structure Db where
  /-- The auth tables by name. -/
  accounts : String → Option Accounts
  sessions : Sessions.Table
  otps : Otps
  journal : List Entry

/-- The statements of a request. -/
inductive Stmt where
  | connect | find | sweep | insert | enqueue | lookup | password | consume | update | revoke | load
deriving DecidableEq

/-- How the database takes the statements of a request: the time of each, or its failure. -/
abbrev Answers := Stmt → Result Int

/-- What the flows use of other programs. -/
structure Env where
  /-- The SHA-256 of a token, in hexadecimal digits. -/
  hashToken : String → String
  /-- `lower` of the database. -/
  lower : String → String
  /-- `password::verify` -/
  verify : String → String → Bool
  /-- What the name of an index ends in when it would be too long. -/
  indexSuffix : String → String

/-- `TOKEN_TTL_SECONDS`, in microseconds. -/
def tokenTtl : Int := 24 * 60 * 60 * 1000000

/-- `MIN_PASSWORD_LEN` -/
def minPasswordLen : ℕ := 8

/-- `db_error`, of an error of the database. -/
def dbError (code message : String) : Error :=
  .internal ("database error " ++ code ++ ": " ++ message)

/-- `undefined_table` -/
def noRelation (table : String) : Error :=
  dbError "42P01" ("relation \"" ++ table ++ "\" does not exist")

/-- `unique_violation` -/
def duplicateKey (index : String) : Error :=
  dbError "23505" ("duplicate key value violates unique constraint \"" ++ index ++ "\"")

namespace Otps

/-- The token that a hash stands for, while it is valid. -/
def find (otps : Otps) (collection hash : String) (now : Int) : Option Otp :=
  otps.rows.find? fun otp => otp.key = (collection, hash) && now - tokenTtl ≤ otp.createdAt

/-- Remove the rows that a condition selects. -/
def remove (otps : Otps) (p : Otp → Bool) : Otps :=
  ⟨otps.rows.filter fun otp => !p otp,
    otps.unique.sublist (List.filter_sublist.map Otp.key)⟩

/-- Add a row, where its id and its key are free. -/
def insert (otps : Otps) (otp : Otp) : Result Otps :=
  if otp.id ∈ otps.rows.map Otp.id then .error (duplicateKey "_otps_pkey")
  else if h : otp.key ∉ otps.rows.map Otp.key then
    .ok ⟨otp :: otps.rows, List.nodup_cons.mpr ⟨h, otps.unique⟩⟩
  else .error (duplicateKey "_otps_token_idx")

end Otps

namespace Accounts

def find (accounts : Accounts) (id : String) : Option Row :=
  accounts.rows.find? fun row => row.id = id

/-- Change the row of an id. -/
def update (accounts : Accounts) (id : String) (f : Row → Row) : Accounts :=
  ⟨accounts.rows.map fun row => if row.id = id then { f row with id := row.id } else row, by
    have hids : (accounts.rows.map fun row =>
        if row.id = id then { f row with id := row.id } else row).map Row.id =
          accounts.rows.map Row.id := by
      rw [List.map_map]
      refine List.map_congr_left fun row _ => ?_
      simp only [Function.comp_apply]
      split <;> rfl
    rw [hids]
    exact accounts.primary⟩

/-- Another account has the address, for the unique index on `lower("email")`. -/
def taken (accounts : Accounts) (env : Env) (id address : String) : Bool :=
  accounts.rows.any fun row =>
    row.id ≠ id && (row.text "email").any fun email => env.lower email = env.lower address

end Accounts

/-! ### Statements -/

/-- One statement, committed on its own. -/
def statement {α : Type} (answers : Answers) (stmt : Stmt) (work : Int → Tx Db Error α) :
    Saga Db Error α := do
  let now ← lift (answers stmt)
  commit (work now)

/-- A statement that only reads. -/
def reading {α : Type} (answers : Answers) (stmt : Stmt) (f : Int → Db → Result α) :
    Saga Db Error α := do
  let now ← lift (answers stmt)
  read (f now)

/-- `state.db.client()` -/
def connect (answers : Answers) : Saga Db Error Unit := reading answers .connect fun _ _ => .ok ()

/-- The database without the expired tokens of a collection. -/
def Db.swept (db : Db) (collection : String) (now : Int) : Db :=
  { db with otps := db.otps.remove fun otp =>
      otp.collectionRef = collection && otp.createdAt < now - tokenTtl }

/-- Sweep the expired tokens of a collection. -/
def sweep (answers : Answers) (collection : String) : Saga Db Error Unit :=
  statement answers .sweep fun now => Tx.modify fun db => db.swept collection now

/-- Store a token. -/
def insertOtp (answers : Answers) (otp : Int → Otp) : Saga Db Error Unit :=
  statement answers .insert fun now => Tx.of fun db =>
    (db.otps.insert (otp now)).map fun otps =>
      ((), { db with otps := otps, journal := .minted (otp now) :: db.journal })

/-- What a new token is drawn from: the id of its row, and the random text. -/
structure Fresh where
  id : String
  raw : Result String

section Model

variable (env : Env)

/-- Mint a token for a record, mailed to an address. -/
def mint (answers : Answers) (fresh : Fresh) (collection recordRef sentTo : String) :
    Saga Db Error Unit := do
  sweep answers collection
  let raw ← lift fresh.raw
  insertOtp answers fun now =>
    ⟨fresh.id, collection, recordRef, env.hashToken raw, some sentTo, now⟩

/-- Read a token without consuming it. -/
def lookup (answers : Answers) (collection token : String) : Saga Db Error (Option Otp) :=
  reading answers .lookup fun now db => .ok (db.otps.find collection (env.hashToken token) now)

/-- The database without a token. -/
def Db.spend (db : Db) (otp : Otp) (now : Int) : Db :=
  { db with
    otps := db.otps.remove fun other => other = otp
    journal := .consumed otp now :: db.journal }

/-- Consume a token: the row is deleted by the same statement that reads it. -/
def consume (answers : Answers) (collection token : String) : Saga Db Error (Option Otp) :=
  statement answers .consume fun now => Tx.of fun db =>
    match db.otps.find collection (env.hashToken token) now with
    | some otp => .ok (some otp, db.spend otp now)
    | none => .ok (none, db)

/-- Add the account that a statement has written to the journal. -/
def Db.note (db : Db) (otp : Otp) (row : Option Row) : Db :=
  { db with journal := (row.map (Entry.wrote otp)).toList ++ db.journal }

/-- Write to the account of a token, in the table of a name. -/
def Db.write (db : Db) (table : String) (accounts : Accounts) (otp : Otp) (id : String)
    (f : Row → Row) : Db :=
  { db.note otp (accounts.find id) with
    accounts := fun name => if name = table then some (accounts.update id f) else db.accounts name }

/-- `update {table} set … where "id" = $1`. A change that breaks the unique index is refused. -/
def Db.updated (db : Db) (table : String) (otp : Otp) (id : String) (f : Row → Row)
    (breaks : Accounts → Bool) : Result Db :=
  match db.accounts table with
  | none => .error (noRelation table)
  | some accounts =>
    if (accounts.find id).isSome ∧ breaks accounts then
      .error (duplicateKey (Ddl.indexName env.indexSuffix table "email"))
    else .ok (db.write table accounts otp id f)

def updateAccount (answers : Answers) (table : String) (otp : Otp) (id : String) (f : Row → Row)
    (breaks : Accounts → Bool) : Saga Db Error Unit :=
  statement answers .update fun _ => Tx.of fun db =>
    (db.updated env table otp id f breaks).map fun after => ((), after)

def revokeForUser (answers : Answers) (collectionId userId : String) : Saga Db Error Unit :=
  statement answers .revoke fun now => Tx.modify fun db =>
    { db with sessions := db.sessions.revokeForUser collectionId userId now }

/-! ### What the flows share -/

def requireAuthCollection (collection : Collection) : Result Unit :=
  failIf (¬ collection.collectionType.isAuth)
    (.notFound ("no auth collection named " ++ debug collection.name))

def emailField (collection : Collection) : String :=
  ((collection.fields.find? fun field => field.fieldType = .email).map Field.name).getD "email"

def passwordField (collection : Collection) : String :=
  ((collection.fields.find? fun field => field.fieldType = .password).map Field.name).getD
    "password_hash"

/-- The account with this e-mail, if there is one. -/
def findAccount (answers : Answers) (collection : Collection) (email : String) :
    Saga Db Error (Option Row) :=
  reading answers .find fun _ db =>
    match db.accounts collection.name with
    | none => .error (noRelation collection.name)
    | some accounts =>
      match accounts.rows.filter fun row =>
          (row.text (emailField collection)).any fun e => env.lower e = env.lower email with
      | [] => .ok none
      | [row] => .ok (some row)
      | _ => .error (.internal
          "database error: query returned an unexpected number of rows")

def storedPassword (answers : Answers) (collection : Collection) (id : String) :
    Saga Db Error (Option String) :=
  reading answers .password fun _ db =>
    match db.accounts collection.name with
    | none => .error (noRelation collection.name)
    | some accounts => .ok ((accounts.find id).bind fun row => row.text (passwordField collection))

/-- The record the token names, as a client reads it. -/
def loadAccount (answers : Answers) (collection : Collection) (id : String) : Saga Db Error Row :=
  reading answers .load fun _ db =>
    match db.accounts collection.name with
    | none => .error (noRelation collection.name)
    | some accounts => okOr (.notFound "the account no longer exists") (accounts.find id)

/-- The signed-in account, checked to belong to this collection. -/
def requireMember (collection : String) (principal : Principal) : Result String := do
  let claims ← okOr (.unauthorized "this action needs a signed-in account")
    (principal.claims.filter fun claims => !claims.superuser)
  failIf (claims.name ≠ collection) (.forbidden "the token belongs to a different collection")
  .ok claims.sub

/-- The token is consumed, and the rest of the request is about it. -/
def redeem {α : Type} (answers : Answers) (collection token : String)
    (rest : Otp → Saga Db Error α) : Saga Db Error α := do
  let found ← consume env answers collection token
  let otp ← lift (okOr (.invalid "invalid or expired token") found)
  rest otp

/-! ### Requests -/

variable (schema : Schema)

/-- The shared half of `request-verification` and `request-password-reset`. -/
def requestEmail (answers : Answers) (fresh : Fresh) (collection : String) (body : Result String) :
    Saga Db Error Unit := do
  let email ← lift body
  let resolved ← lift (schema.resolve collection)
  lift (requireAuthCollection resolved.collection)
  connect answers
  let found ← findAccount env answers resolved.collection email
  match found with
  | some row => do
    mint env answers fresh collection row.id email
    reading answers .enqueue fun _ _ => .ok ()
  | none => pure ()

/-- The account of a token is marked as verified, and read back. -/
def markVerified (answers : Answers) (table : String) (collection : Collection) (otp : Otp) :
    Saga Db Error (Option Row) := do
  updateAccount env answers table otp otp.recordRef (fun row => { row with verified := true })
    fun _ => false
  let row ← loadAccount answers collection otp.recordRef
  pure (some row)

/-- `POST /api/collections/{collection}/confirm-verification` -/
def confirmVerification (answers : Answers) (collection : String) (body : Result String) :
    Saga Db Error (Option Row) := do
  let token ← lift body
  let resolved ← lift (schema.resolve collection)
  lift (requireAuthCollection resolved.collection)
  connect answers
  redeem env answers collection token (markVerified env answers collection resolved.collection)

/-- What `confirm-password-reset` accepts. -/
structure NewPassword where
  token : String
  password : String
  passwordConfirm : Option String

def validatePassword (password : String) (confirm : Option String) : Result Unit := do
  failIf (password = "") (.invalid "A password is required")
  failIf (confirm ≠ some password) (.invalid "Passwords do not match")
  failIf (password.length < minPasswordLen)
    (.invalid ("A password must be at least " ++ toString minPasswordLen ++ " characters"))

/-- `password::hash`, from what the hasher answers. -/
def hashPassword (password : String) (hasher : Except String String) : Result String :=
  if byteLen password < minPasswordLen then
    .error (.invalid ("the password must be at least " ++ toString minPasswordLen ++ " characters"))
  else match hasher with
    | .ok hashed => .ok hashed
    | .error e => .error (.internal ("cannot hash the password: " ++ e))

/-- Assign a text column. -/
def Row.set (row : Row) (column value : String) : Row :=
  { row with text := fun name => if name = column then some value else row.text name }

/-- The account of a token gets another password, which ends the sessions the old one created. -/
def setPassword (answers : Answers) (table : String) (collection : Collection)
    (hashed : Result String) (otp : Otp) : Saga Db Error (Option Row) := do
  let hashed ← lift hashed
  updateAccount env answers table otp otp.recordRef
    (fun row => row.set (passwordField collection) hashed) fun _ => false
  revokeForUser answers collection.id otp.recordRef
  pure none

/-- `POST /api/collections/{collection}/confirm-password-reset` -/
def confirmPasswordReset (answers : Answers) (collection : String) (body : Result NewPassword)
    (hasher : Except String String) : Saga Db Error (Option Row) := do
  let request ← lift body
  lift (validatePassword request.password request.passwordConfirm)
  let resolved ← lift (schema.resolve collection)
  lift (requireAuthCollection resolved.collection)
  connect answers
  redeem env answers collection request.token
    (setPassword env answers collection resolved.collection (hashPassword request.password hasher))

/-- `POST /api/collections/{collection}/request-email-change` -/
def requestEmailChange (answers : Answers) (fresh : Fresh) (collection : String)
    (principal : Principal) (body : Result String) : Saga Db Error Unit := do
  let newEmail ← lift body
  let resolved ← lift (schema.resolve collection)
  lift (requireAuthCollection resolved.collection)
  let userId ← lift (requireMember collection principal)
  lift (failIf (trim newEmail = "") (.invalid "a \x60newEmail\x60 is required"))
  connect answers
  mint env answers fresh collection userId (trim newEmail)
  reading answers .enqueue fun _ _ => .ok ()

/-- What `confirm-email-change` accepts. -/
structure ConfirmEmailChange where
  token : String
  /-- The account's current password. -/
  password : String

/-- The token is read, but not consumed: a mistyped password must not burn the link. It has to be the
account's own, and moving the address also needs the password. -/
def checkOwner (answers : Answers) (collection : String) (target : Collection)
    (request : ConfirmEmailChange) (userId : String) : Saga Db Error Unit := do
  let found ← lookup env answers collection request.token
  let otp ← lift (okOr (.invalid "invalid or expired token") found)
  lift (failIf (otp.recordRef ≠ userId) (.invalid "invalid token"))
  let stored ← storedPassword answers target userId
  lift (failIf (¬ stored.any (env.verify request.password)) (.unauthorized "invalid password"))

/-- The account gets the address of the token, and is read back. -/
def moveAddress (answers : Answers) (table : String) (collection : Collection) (userId : String)
    (otp : Otp) : Saga Db Error (Option Row) := do
  let newEmail ← lift (okOr (.internal "the token has no destination") otp.sentTo)
  updateAccount env answers table otp userId (fun row => row.set (emailField collection) newEmail)
    fun accounts => emailField collection = "email" && accounts.taken env userId newEmail
  let row ← loadAccount answers collection userId
  pure (some row)

/-- `POST /api/collections/{collection}/confirm-email-change` -/
def confirmEmailChange (answers : Answers) (collection : String) (principal : Principal)
    (body : Result ConfirmEmailChange) : Saga Db Error (Option Row) := do
  let request ← lift body
  let resolved ← lift (schema.resolve collection)
  lift (requireAuthCollection resolved.collection)
  let userId ← lift (requireMember collection principal)
  connect answers
  checkOwner env answers collection resolved.collection request userId
  redeem env answers collection request.token
    (moveAddress env answers collection resolved.collection userId)

/-- A request of a confirm half. -/
inductive Confirm where
  | verification (body : Result String)
  | passwordReset (body : Result NewPassword) (hasher : Except String String)
  | emailChange (principal : Principal) (body : Result ConfirmEmailChange)

/-- The answer of a confirm half, and the database afterwards. -/
def Confirm.run (answers : Answers) (collection : String) : Confirm → Saga Db Error (Option Row)
  | verification body => confirmVerification env schema answers collection body
  | passwordReset body hasher => confirmPasswordReset env schema answers collection body hasher
  | emailChange principal body => confirmEmailChange env schema answers collection principal body

/-! ### What an error loses -/

/-- The tables are the same. -/
structure Db.Same (db after : Db) : Prop where
  accounts : after.accounts = db.accounts
  sessions : after.sessions = db.sessions
  otps : after.otps = db.otps

/-- The request is about an auth collection, and the database is there. -/
structure Addresses (answers : Answers) (collection : String) (resolved : Resolved) : Prop where
  resolves : schema.resolve collection = .ok resolved
  isAuth : resolved.collection.collectionType.isAuth = true
  connects : isOk (answers .connect) = true

/-- The statement that consumes a token finds it. -/
def Spends (answers : Answers) (db : Db) (collection token : String) (otp : Otp) : Prop :=
  ∃ now, answers .consume = .ok now ∧
    db.otps.find collection (env.hashToken token) now = some otp

/-- The statement that writes the account fails, whatever it writes. -/
def UpdateFails (answers : Answers) (db : Db) (table : String) : Prop :=
  isOk (answers .update) = false ∨ db.accounts table = none

/-- The account cannot be read back. -/
def LoadFails (answers : Answers) (db : Db) (collection : Collection) (id : String) : Prop :=
  isOk (answers .load) = false ∨
    ∀ accounts, db.accounts collection.name = some accounts → accounts.find id = none

/-- The token is the one of the signed-in account, who knows the password. -/
structure Owns (answers : Answers) (db : Db) (collection : String) (target : Collection)
    (request : ConfirmEmailChange) (userId : String) : Prop where
  looksUp : ∃ now otp, answers .lookup = .ok now ∧
    db.otps.find collection (env.hashToken request.token) now = some otp ∧ otp.recordRef = userId
  knows : ∃ now accounts row hash, answers .password = .ok now ∧
    db.accounts target.name = some accounts ∧ accounts.find userId = some row ∧
    row.text (passwordField target) = some hash ∧
    env.verify request.password hash = true

/-- Another account of the table has the address the token was sent to. -/
def Clashes (db : Db) (table : String) (collection : Collection) (otp : Otp) (id : String) : Prop :=
  emailField collection = "email" ∧ ∃ accounts newEmail, db.accounts table = some accounts ∧
    otp.sentTo = some newEmail ∧ (accounts.find id).isSome = true ∧
    accounts.taken env id newEmail = true

/-- A statement behind the one that consumes the token fails. -/
def Confirm.LosesToken (answers : Answers) (collection : String) (db : Db) : Confirm → Prop
  | verification body => ∃ token resolved otp, body = .ok token ∧
      Addresses schema answers collection resolved ∧ Spends env answers db collection token otp ∧
      (UpdateFails answers db collection ∨
        LoadFails answers db resolved.collection otp.recordRef)
  | passwordReset body hasher => ∃ request resolved otp, body = .ok request ∧
      validatePassword request.password request.passwordConfirm = .ok () ∧
      Addresses schema answers collection resolved ∧
      Spends env answers db collection request.token otp ∧
      (isOk (hashPassword request.password hasher) = false ∨ UpdateFails answers db collection ∨
        isOk (answers .revoke) = false)
  | emailChange principal body => ∃ request resolved userId otp, body = .ok request ∧
      Addresses schema answers collection resolved ∧ requireMember collection principal = .ok userId ∧
      Owns env answers db collection resolved.collection request userId ∧
      Spends env answers db collection request.token otp ∧
      (otp.sentTo = none ∨ UpdateFails answers db collection ∨
        Clashes env db collection resolved.collection otp userId ∨
        LoadFails answers db resolved.collection userId)

end Model

/-! ### Statements that fail -/

variable {env : Env} {schema : Schema} {answers : Answers} {db : Db} {collection token : String}

theorem Db.Same.refl (db : Db) : db.Same db := ⟨rfl, rfl, rfl⟩

variable {α : Type}

theorem quiet_reading (answers : Answers) (stmt : Stmt) (f : Int → Db → Result α) :
    Quiet (reading answers stmt f) :=
  .bind (.lift _) fun _ => .read _

variable {stmt : Stmt}

theorem reading_eq_ok {f : Int → Db → Result α} {a : α} :
    (reading answers stmt f db).1 = .ok a ↔ ∃ now, answers stmt = .ok now ∧ f now db = .ok a := by
  unfold reading
  rw [(Quiet.lift _).bind_apply]
  cases answers stmt <;> simp

theorem fails_reading {f : Int → Db → Result α} :
    Fails (reading answers stmt f) db ↔
      isOk (answers stmt) = false ∨ ∃ now, answers stmt = .ok now ∧ isOk (f now db) = false := by
  unfold reading Fails
  rw [(Quiet.lift _).bind_apply]
  cases answers stmt <;> simp [isOk_eq_false]

theorem statement_of_ok {now : Int} (h : answers stmt = .ok now)
    (work : Int → Tx Db Error α) : statement answers stmt work db = commit (work now) db := by
  unfold statement
  rw [(Quiet.lift _).bind_apply, lift_apply, h]

theorem statement_of_error {e : Error} (h : answers stmt = .error e)
    (work : Int → Tx Db Error α) : statement answers stmt work db = (.error e, db) := by
  unfold statement
  rw [(Quiet.lift _).bind_apply, lift_apply, h]

variable {work : Int → Tx Db Error α}

/-- A statement that succeeds was carried out. -/
theorem statement_eq_ok {a : α} {after : Db} :
    statement answers stmt work db = (.ok a, after) ↔
      ∃ now, answers stmt = .ok now ∧ work now db = .ok (a, after) := by
  cases h : answers stmt with
  | error e => simp [statement_of_error h]
  | ok now => simp [statement_of_ok h, commit_eq_ok]

theorem eq_of_statement_error {e : Error}
    {after : Db} (h : statement answers stmt work db = (.error e, after)) : after = db := by
  cases hanswer : answers stmt with
  | error e =>
    rw [statement_of_error hanswer] at h
    exact (Prod.mk.inj h).2.symm
  | ok now =>
    rw [statement_of_ok hanswer] at h
    exact (commit_eq_error.mp h).2

theorem fails_statement :
    Fails (statement answers stmt work) db ↔
      isOk (answers stmt) = false ∨
        ∃ now e, answers stmt = .ok now ∧ work now db = .error e := by
  cases h : answers stmt with
  | error e => simp [Fails, statement_of_error h]
  | ok now =>
    have hcommit : Fails (statement answers stmt work) db ↔
        Fails (commit (work now)) db := by
      unfold Fails
      rw [statement_of_ok h]
    simp [hcommit, fails_commit]

theorem keeps_statement {τ : Type} {part : Db → τ}
    (h : ∀ now s a t, work now s = .ok (a, t) → part t = part s) :
    Keeps part (statement answers stmt work) := by
  intro s
  cases hanswer : answers stmt with
  | error e => rw [statement_of_error hanswer]
  | ok now =>
    rw [statement_of_ok hanswer, commit]
    cases hwork : work now s with
    | error e => rfl
    | ok r => exact h now s r.1 r.2 hwork

section Redeem

variable {α : Type} {rest : Otp → Saga Db Error α}

theorem mem_of_find {otps : Otps} {hash : String} {now : Int} {otp : Otp}
    (h : otps.find collection hash now = some otp) : otp ∈ otps.rows :=
  List.mem_of_find?_eq_some h

/-- A token that was spent is gone. -/
theorem spend_otps_ne {otp : Otp} {now : Int} (hmem : otp ∈ db.otps.rows) :
    (db.spend otp now).otps ≠ db.otps := by
  intro heq
  have hrow : otp ∈ (db.spend otp now).otps.rows := heq ▸ hmem
  simp [Db.spend, Otps.remove] at hrow

theorem redeem_of_error {e : Error} (h : answers .consume = .error e) :
    redeem env answers collection token rest db = (.error e, db) :=
  bind_of_error (statement_of_error h _) _

theorem redeem_of_none {now : Int} (h : answers .consume = .ok now)
    (hfind : db.otps.find collection (env.hashToken token) now = none) :
    redeem env answers collection token rest db =
      (.error (.invalid "invalid or expired token"), db) := by
  have hconsume : consume env answers collection token db = (.ok none, db) :=
    statement_eq_ok.mpr ⟨now, h, by simp only [Tx.of_apply, hfind]⟩
  unfold redeem
  rw [bind_of_ok hconsume]
  rfl

theorem redeem_of_some {now : Int} {otp : Otp} (h : answers .consume = .ok now)
    (hfind : db.otps.find collection (env.hashToken token) now = some otp) :
    redeem env answers collection token rest db = rest otp (db.spend otp now) := by
  have hconsume : consume env answers collection token db = (.ok (some otp), db.spend otp now) :=
    statement_eq_ok.mpr ⟨now, h, by simp only [Tx.of_apply, hfind]⟩
  unfold redeem
  rw [bind_of_ok hconsume]
  rfl

/-- An error spares everything exactly when nothing fails behind the statement that consumes. -/
theorem spares_redeem (hotps : ∀ otp, Keeps Db.otps (rest otp)) :
    Spares Db.Same (redeem env answers collection token rest) db ↔
      ¬ ∃ now otp, answers .consume = .ok now ∧
        db.otps.find collection (env.hashToken token) now = some otp ∧
        Fails (rest otp) (db.spend otp now) := by
  cases hnow : answers .consume with
  | error e =>
    simp only [Spares, redeem_of_error hnow, reduceCtorEq, false_and, exists_false,
      not_false_eq_true, iff_true]
    rintro e' after h
    rw [← (Prod.mk.inj h).2]
    exact .refl db
  | ok now =>
    cases hfind : db.otps.find collection (env.hashToken token) now with
    | none =>
      simp only [Spares, redeem_of_none hnow hfind]
      refine iff_of_true (fun e after h => (Prod.mk.inj h).2 ▸ .refl db) ?_
      rintro ⟨now', otp, hnow', hotp, -⟩
      rw [Except.ok.inj hnow'] at hfind
      simp [hfind] at hotp
    | some otp =>
      simp only [Spares, redeem_of_some hnow hfind]
      constructor
      · rintro hspares ⟨now', otp', hnow', hotp, e, he⟩
        obtain rfl := Except.ok.inj hnow'
        obtain rfl := Option.some.inj (hfind.symm.trans hotp)
        have hsame := (hspares e _ (Prod.ext he rfl)).otps
        rw [hotps otp] at hsame
        exact spend_otps_ne (mem_of_find hfind) hsame
      · intro hnone e after h
        exact absurd ⟨now, otp, rfl, hfind, e, by rw [h]⟩ hnone

end Redeem

/-! ### The statements behind it -/

variable {id : String} {breaks : Accounts → Bool}

theorem updated_eq_error (env : Env) (otp : Otp) (f : Row → Row) :
    (∃ e, db.updated env collection otp id f breaks = .error e) ↔
      db.accounts collection = none ∨ ∃ accounts, db.accounts collection = some accounts ∧
        (accounts.find id).isSome = true ∧ breaks accounts = true := by
  unfold Db.updated
  cases db.accounts collection with
  | none => simp
  | some accounts =>
    by_cases hbreaks : (accounts.find id).isSome = true ∧ breaks accounts = true
    · simp [hbreaks]
    · simp [hbreaks]

theorem fails_updateAccount (env : Env) (otp : Otp) (f : Row → Row) :
    Fails (updateAccount env answers collection otp id f breaks) db ↔
      UpdateFails answers db collection ∨ ∃ accounts, db.accounts collection = some accounts ∧
        (accounts.find id).isSome = true ∧ breaks accounts = true := by
  unfold updateAccount UpdateFails
  rw [fails_statement, or_assoc, ← updated_eq_error env otp f]
  cases hanswer : answers .update with
  | error e => simp
  | ok now => simp [map_eq_error]

/-- An update that is carried out keeps every row, under its id. -/
theorem find_update (accounts : Accounts) (id other : String) (f : Row → Row) :
    ((accounts.update id f).find other).isSome = (accounts.find other).isSome := by
  unfold Accounts.find Accounts.update
  rw [List.find?_map, Option.isSome_map]
  congr 2
  funext row
  simp only [Function.comp_apply]
  split <;> rfl

variable {f : Row → Row}

theorem eq_write_of_updated {otp : Otp}
    {after : Db} (h : db.updated env collection otp id f breaks = .ok after) :
    ∃ accounts, db.accounts collection = some accounts ∧
      after = db.write collection accounts otp id f := by
  unfold Db.updated at h
  cases haccounts : db.accounts collection with
  | none =>
    rw [haccounts] at h
    cases h
  | some accounts =>
    simp only [haccounts] at h
    split at h
    · cases h
    · exact ⟨accounts, rfl, (Except.ok.inj h).symm⟩

theorem updateAccount_eq_ok {otp : Otp}
    {after : Db} (h : updateAccount env answers collection otp id f breaks db = (.ok (), after)) :
    ∃ accounts, db.accounts collection = some accounts ∧
      after = db.write collection accounts otp id f := by
  obtain ⟨now, -, h⟩ := statement_eq_ok.mp h
  cases hupdated : db.updated env collection otp id f breaks with
  | error e =>
    rw [Tx.of_apply, hupdated] at h
    cases h
  | ok written =>
    rw [Tx.of_apply, hupdated] at h
    obtain rfl : written = after := congrArg Prod.snd (Except.ok.inj h)
    exact eq_write_of_updated hupdated

/-- Who can be read back is the same after an update. -/
theorem loadFails_write {accounts : Accounts} (haccounts : db.accounts token = some accounts)
    (otp : Otp) (id : String) (f : Row → Row) (collection : Collection) (other : String) :
    LoadFails answers (db.write token accounts otp id f) collection other ↔
      LoadFails answers db collection other := by
  unfold LoadFails
  by_cases hname : collection.name = token
  · have hfind : (accounts.update id f).find other = none ↔ accounts.find other = none := by
      rw [← Option.not_isSome_iff_eq_none, ← Option.not_isSome_iff_eq_none, find_update]
    simp [Db.write, hname, haccounts, hfind]
  · simp [Db.write, Db.note, hname]

variable {target : Collection}

theorem fails_loadAccount :
    Fails (loadAccount answers target id) db ↔ LoadFails answers db target id := by
  unfold loadAccount LoadFails
  rw [fails_reading]
  cases hanswer : answers .load with
  | error e => simp
  | ok now =>
    cases haccounts : db.accounts target.name with
    | none => simp
    | some accounts => cases hfind : accounts.find id <;> simp [hfind]

/-- The account is written and read back. -/
theorem fails_update_load {otp : Otp} {other : String} :
    Fails (do
      updateAccount env answers collection otp id f breaks
      let row ← loadAccount answers target other
      pure (some row)) db ↔
      (UpdateFails answers db collection ∨ ∃ accounts, db.accounts collection = some accounts ∧
        (accounts.find id).isSome = true ∧ breaks accounts = true) ∨
        LoadFails answers db target other := by
  rw [← fails_updateAccount env otp f]
  refine fails_bind_iff fun a after hupdate => ?_
  obtain ⟨accounts, haccounts, rfl⟩ := updateAccount_eq_ok hupdate
  rw [fails_bind, ← loadFails_write haccounts otp id f, ← fails_loadAccount]
  simp

theorem keeps_otps_update {otp : Otp} :
    Keeps Db.otps (updateAccount env answers collection otp id f breaks) := by
  refine keeps_statement fun _ s a t h => ?_
  cases hupdated : s.updated env collection otp id f breaks with
  | error e =>
    rw [Tx.of_apply, hupdated] at h
    cases h
  | ok written =>
    rw [Tx.of_apply, hupdated] at h
    obtain ⟨accounts, -, rfl⟩ := eq_write_of_updated hupdated
    obtain rfl := congrArg Prod.snd (Except.ok.inj h)
    rfl

theorem keeps_otps_revoke (collectionId userId : String) :
    Keeps Db.otps (revokeForUser answers collectionId userId) := by
  refine keeps_statement fun _ s a t h => ?_
  obtain ⟨-, rfl⟩ := Prod.mk.inj (Except.ok.inj h)
  rfl

theorem requireAuthCollection_eq_ok {u : Unit} :
    requireAuthCollection target = .ok u ↔ target.collectionType.isAuth = true := by
  simp [requireAuthCollection]

theorem connect_eq_ok {u : Unit} :
    (connect answers db).1 = .ok u ↔ isOk (answers .connect) = true := by
  simp [connect, reading_eq_ok, isOk_iff]

theorem quiet_connect (answers : Answers) : Quiet (connect answers) := quiet_reading _ _ _

/-- What spending a token leaves for the statements behind. -/
theorem fails_update_load_spend {otp : Otp} {now : Int} :
    Fails (do
      updateAccount env answers collection otp id f breaks
      let row ← loadAccount answers target id
      pure (some row)) (db.spend otp now) ↔
      (UpdateFails answers db collection ∨ ∃ accounts, db.accounts collection = some accounts ∧
        (accounts.find id).isSome = true ∧ breaks accounts = true) ∨
        LoadFails answers db target id :=
  fails_update_load

section Tails

variable {target : Collection} {otp : Otp} {now : Int}

theorem keeps_update_load {id : String} {f : Row → Row} {breaks : Accounts → Bool} :
    Keeps Db.otps (do
      updateAccount env answers collection otp id f breaks
      let row ← loadAccount answers target id
      pure (some row)) :=
  keeps_otps_update.bind fun _ => ((quiet_reading _ _ _).bind fun _ _ => rfl).keeps _

theorem keeps_markVerified :
    Keeps Db.otps (markVerified env answers collection target otp) := keeps_update_load

theorem fails_markVerified :
    Fails (markVerified env answers collection target otp) (db.spend otp now) ↔
      UpdateFails answers db collection ∨ LoadFails answers db target otp.recordRef := by
  unfold markVerified
  rw [fails_update_load_spend]
  simp

theorem keeps_setPassword {hashed : Result String} :
    Keeps Db.otps (setPassword env answers collection target hashed otp) :=
  ((Quiet.lift _).keeps _).bind fun _ => keeps_otps_update.bind fun _ =>
    (keeps_otps_revoke _ _).bind fun _ _ => rfl

theorem fails_setPassword {hashed : Result String} :
    Fails (setPassword env answers collection target hashed otp) (db.spend otp now) ↔
      isOk hashed = false ∨ UpdateFails answers db collection ∨ isOk (answers .revoke) = false := by
  unfold setPassword
  rw [fails_bind_iff fun hash s hhash => ?_, fails_lift, isOk_eq_false]
  obtain rfl : db.spend otp now = s := (Prod.mk.inj hhash).2
  rw [fails_bind_iff fun a after hupdate => ?_, fails_updateAccount]
  · simp only [Bool.false_eq_true, and_false, exists_false, or_false]
    rfl
  · rw [fails_bind, revokeForUser, fails_statement]
    simp

theorem keeps_moveAddress {userId : String} :
    Keeps Db.otps (moveAddress env answers collection target userId otp) :=
  ((Quiet.lift _).keeps _).bind fun _ => keeps_update_load

theorem fails_moveAddress {userId : String} :
    Fails (moveAddress env answers collection target userId otp) (db.spend otp now) ↔
      otp.sentTo = none ∨ UpdateFails answers db collection ∨
        Clashes env db collection target otp userId ∨ LoadFails answers db target userId := by
  unfold moveAddress Clashes
  rw [fails_bind, fails_lift]
  cases hsent : otp.sentTo with
  | none => simp
  | some newEmail =>
    simp only [okOr_some, lift_apply, Prod.mk.injEq, Except.ok.injEq, reduceCtorEq,
      exists_false, false_or, exists_and_left, ↓existsAndEq, true_and, fails_update_load_spend,
      Bool.and_eq_true, decide_eq_true_eq, Option.some.injEq, or_assoc]
    refine or_congr_right (or_congr_left ⟨?_, ?_⟩)
    · rintro ⟨accounts, haccounts, hrow, hfield, htaken⟩
      exact ⟨hfield, accounts, haccounts, hrow, htaken⟩
    · rintro ⟨hfield, accounts, haccounts, hrow, htaken⟩
      exact ⟨accounts, haccounts, hrow, hfield, htaken⟩

end Tails

/-! ### The three confirm halves -/

/-- Whether an error of `confirm-verification` spares everything. -/
theorem spares_confirmVerification (body : Result String) :
    Spares Db.Same (confirmVerification env schema answers collection body) db ↔
      ¬ (Confirm.verification body).LosesToken env schema answers collection db := by
  unfold confirmVerification
  simp only [(Quiet.lift _).spares_bind Db.Same.refl,
    (quiet_connect _).spares_bind Db.Same.refl, lift_apply, requireAuthCollection_eq_ok,
    connect_eq_ok, spares_redeem fun _ => keeps_markVerified, fails_markVerified]
  constructor
  · rintro hspares ⟨token, resolved, otp, hbody, haddress, ⟨now, hnow, hfind⟩, hfails⟩
    exact hspares token hbody resolved haddress.resolves () haddress.isAuth () haddress.connects
      ⟨now, otp, hnow, hfind, hfails⟩
  · rintro hloses token hbody resolved hresolves - hauth - hconnects ⟨now, otp, hnow, hfind, hfails⟩
    exact hloses ⟨token, resolved, otp, hbody, ⟨hresolves, hauth, hconnects⟩, ⟨now, hnow, hfind⟩,
      hfails⟩

/-- Whether an error of `confirm-password-reset` spares everything. -/
theorem spares_confirmPasswordReset (body : Result NewPassword) (hasher : Except String String) :
    Spares Db.Same (confirmPasswordReset env schema answers collection body hasher) db ↔
      ¬ (Confirm.passwordReset body hasher).LosesToken env schema answers collection db := by
  unfold confirmPasswordReset
  simp only [(Quiet.lift _).spares_bind Db.Same.refl,
    (quiet_connect _).spares_bind Db.Same.refl, lift_apply, requireAuthCollection_eq_ok,
    connect_eq_ok, spares_redeem fun _ => keeps_setPassword, fails_setPassword]
  constructor
  · rintro hspares ⟨request, resolved, otp, hbody, hvalid, haddress, ⟨now, hnow, hfind⟩, hfails⟩
    exact hspares request hbody () hvalid resolved haddress.resolves () haddress.isAuth ()
      haddress.connects ⟨now, otp, hnow, hfind, hfails⟩
  · rintro hloses request hbody ⟨⟩ hvalid resolved hresolves - hauth - hconnects
      ⟨now, otp, hnow, hfind, hfails⟩
    exact hloses ⟨request, resolved, otp, hbody, hvalid, ⟨hresolves, hauth, hconnects⟩,
      ⟨now, hnow, hfind⟩, hfails⟩

theorem quiet_checkOwner (request : ConfirmEmailChange) (target : Collection) (userId : String) :
    Quiet (checkOwner env answers collection target request userId) :=
  (quiet_reading _ _ _).bind fun _ => (Quiet.lift _).bind fun _ => (Quiet.lift _).bind
    fun _ => (quiet_reading _ _ _).bind fun _ => .lift _

theorem checkOwner_eq_ok {request : ConfirmEmailChange} {userId : String}
    {u : Unit} : (checkOwner env answers collection target request userId db).1 = .ok u ↔
      Owns env answers db collection target request userId := by
  unfold checkOwner lookup storedPassword
  simp only [(quiet_reading _ _ _).bind_eq_ok, (Quiet.lift _).bind_eq_ok, reading_eq_ok,
    lift_apply, okOr_eq_ok, failIf_eq_ok, not_not]
  constructor
  · rintro ⟨found, ⟨now, hnow, hfound⟩, otp, rfl, -, howner, stored, ⟨at', hat, hstored⟩, hverify⟩
    refine ⟨⟨now, otp, hnow, Except.ok.inj hfound, howner⟩, ?_⟩
    cases haccounts : db.accounts target.name with
    | none => simp [haccounts] at hstored
    | some accounts =>
      simp only [haccounts, Except.ok.injEq] at hstored
      subst hstored
      obtain ⟨hash, hhash, hverify⟩ := (Option.any_eq_true _ _).mp hverify
      obtain ⟨row, hrow, hhash⟩ := Option.bind_eq_some_iff.mp hhash
      exact ⟨at', accounts, row, hash, hat, rfl, hrow, hhash, hverify⟩
  · rintro ⟨⟨now, otp, hnow, hfind, howner⟩, at', accounts, row, hash, hat, haccounts, hrow, hhash,
      hverify⟩
    refine ⟨some otp, ⟨now, hnow, by rw [hfind]⟩, otp, rfl, (), howner, some hash,
      ⟨at', hat, ?_⟩, hverify⟩
    simp [haccounts, hrow, hhash]

/-- Whether an error of `confirm-email-change` spares everything. -/
theorem spares_confirmEmailChange (principal : Principal) (body : Result ConfirmEmailChange) :
    Spares Db.Same (confirmEmailChange env schema answers collection principal body) db ↔
      ¬ (Confirm.emailChange principal body).LosesToken env schema answers collection db := by
  unfold confirmEmailChange
  simp only [(Quiet.lift _).spares_bind Db.Same.refl,
    (quiet_connect _).spares_bind Db.Same.refl, (quiet_checkOwner _ _ _).spares_bind Db.Same.refl,
    lift_apply, requireAuthCollection_eq_ok, connect_eq_ok, checkOwner_eq_ok,
    spares_redeem fun _ => keeps_moveAddress, fails_moveAddress]
  constructor
  · rintro hspares ⟨request, resolved, userId, otp, hbody, haddress, hmember, howns,
      ⟨now, hnow, hfind⟩, hfails⟩
    exact hspares request hbody resolved haddress.resolves () haddress.isAuth userId hmember ()
      haddress.connects () howns ⟨now, otp, hnow, hfind, hfails⟩
  · rintro hloses request hbody resolved hresolves - hauth userId hmember - hconnects - howns
      ⟨now, otp, hnow, hfind, hfails⟩
    exact hloses ⟨request, resolved, userId, otp, hbody, ⟨hresolves, hauth, hconnects⟩, hmember,
      howns, ⟨now, hnow, hfind⟩, hfails⟩

/-- **A failed confirmation.** An error leaves the accounts, the sessions and the tokens as they were
exactly when no statement fails behind the one that consumes the token. -/
theorem Confirm.error_keeps_iff (request : Confirm) :
    (∀ e after, request.run env schema answers collection db = (.error e, after) → db.Same after) ↔
      ¬ request.LosesToken env schema answers collection db := by
  cases request with
  | verification body => exact spares_confirmVerification body
  | passwordReset body hasher => exact spares_confirmPasswordReset body hasher
  | emailChange principal body => exact spares_confirmEmailChange principal body

/-! ### A collection that is spelled by its id -/

section ById

def users : Collection where
  id := "kq3v8x1n5b7m2z4"
  name := "users"
  collectionType := .auth
  options := .object []
  rules := .object []
  fields := []

def usersOnly : Schema := ⟨[users]⟩

/-- Every statement is carried out. -/
def promptly : Answers := fun _ => .ok 0

/-- The hash of one token. -/
def oneToken : Env where
  hashToken token := if token = "dG9rZW4" then
    
    "5f2f7aae6f3eaed632da5906afb8c598f02e7493d25bfdca24b54bf534b945b6" else ""
  lower s := String.ofList (s.toList.map Sql.asciiLower)
  verify _ _ := false
  indexSuffix _ := ""

/-- A token of the account, asked for with a spelling of the collection. -/
def tokenOf (spelling : String) : Otp where
  id := "a1b2c3d4e5f6g7h"
  collectionRef := spelling
  recordRef := "ada456789012345"
  passwordHash := oneToken.hashToken "dG9rZW4"
  sentTo := some "ada@example.com"
  createdAt := 0

/-- One account, and its token. -/
def oneAccount (spelling : String) : Db where
  accounts := fun name => if name = "users" then
    some ⟨[⟨"ada456789012345", false, fun column =>
      if column = "email" then some "ada@example.com" else none⟩], by decide⟩ else none
  sessions := fun _ => none
  otps := ⟨[tokenOf spelling], List.nodup_singleton _⟩
  journal := []

/-- **The table of the path.** The path spells the collection by its id, and there is no table of that
name. The account stays unverified and the token is lost. -/
theorem confirm_by_id_loses_token :
    ¬ ∀ (env : Env) (schema : Schema) (answers : Answers) (collection : String) (db : Db)
      (request : Confirm) (e : Error) (after : Db),
      request.run env schema answers collection db = (.error e, after) → db.Same after := by
  intro hall
  have hresolves : isOk (usersOnly.resolve users.id) = true := by decide
  obtain ⟨resolved, hresolved⟩ := isOk_iff.mp hresolves
  have hget : resolved.collection = users := by
    have h := (Schema.resolve_eq_ok.mp hresolved).1
    rw [show usersOnly.get users.id = some users by decide, Option.some.injEq] at h
    exact h.symm
  have hspares : Spares Db.Same
      (confirmVerification oneToken usersOnly promptly users.id (.ok "dG9rZW4"))
      (oneAccount users.id) :=
    hall oneToken usersOnly promptly users.id (oneAccount users.id) (.verification (.ok "dG9rZW4"))
  exact (spares_confirmVerification _).mp hspares
    ⟨"dG9rZW4", resolved, tokenOf users.id, rfl, ⟨hresolved, by rw [hget]; decide, rfl⟩,
      ⟨0, rfl, by decide⟩, .inl (.inr rfl)⟩

/-- Spelled by its name, it is confirmed. -/
example : isOk (Confirm.run oneToken usersOnly promptly "users" (.verification (.ok "dG9rZW4"))
    (oneAccount "users")).1 = true := by decide

end ById

end LazyPock.Emails
