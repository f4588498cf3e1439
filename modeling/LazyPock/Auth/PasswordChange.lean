import LazyPock.Auth.Sessions
import LazyPock.Machine.Scripts

/-!
# Password changes

The four routes that can write an account's password: the update of a record
(`crates/api/src/records.rs`), an update inside a batch (`crates/api/src/batch.rs`), the end of a
password reset (`crates/api/src/emails.rs`) and a save from a hook (`crates/api/src/hooks_host.rs`).
Each is a list of statements, run in one transaction or one by one, that can be interrupted between
any two of them.

A password change is meant to end the sessions of the account. The routes differ in whether they
revoke them, under which condition, and in which transaction; `goTogether_iff_not_partsThem` says
for which requests the two go together.

Only the credentials of an account are kept here, and of the checks before a statement only whether
they pass. A password is hashed with a fresh salt, so a new hash differs from the stored one.

## Main definitions

* `Auth.authColumns`: what a body writes to the credentials.
* `Auth.Db`, `Auth.Request`, `Auth.Request.run`.
* `Auth.GoTogether`, `Auth.Request.PartsThem`.

## Main results

* `Auth.goTogether_iff_not_partsThem`, `Auth.refused_patch_ends_sessions`.
-/

namespace LazyPock

/-- The collection's password field, when it has one. -/
def Collection.passwordField (collection : Collection) : Option Field :=
  collection.fields.find? fun field => field.fieldType = .password

/-- The password value in an incoming body, under either spelling. -/
def Collection.passwordInput (collection : Collection) (input : Json) : Option Json :=
  collection.passwordField.bind fun field => (input.get "password").or (input.get field.name)

namespace Auth

open Machine

/-! ### Credentials -/

/-- The server-managed columns an auth-collection write needs: a supplied password, hashed, and a
new token key. -/
def authColumns (collection : Collection) (input : Json) (hashed tokenKey : String) :
    List (String × Option String) :=
  if ¬ collection.collectionType.isAuth then []
  else match collection.passwordInput input, collection.passwordField with
    | some (.string _), some field =>
      [(field.name, some hashed), ("token_key", some tokenKey)]
    | _, _ => []

/-- A stored collection: a password field can only be the built-in one. -/
structure StoredCollection where
  collection : Collection
  builtin : ∀ field, collection.passwordField = some field → field.name = "password_hash"

/-- The credentials of an account. -/
structure Account where
  passwordHash : Option String
  tokenKey : Option String
deriving DecidableEq

/-- Assign one column. -/
def Account.set (account : Account) (column : String) (value : Option String) : Account :=
  if column = "password_hash" then { account with passwordHash := value }
  else if column = "token_key" then { account with tokenKey := value }
  else account

/-- A row of `_otps`, of a password reset. -/
structure Otp where
  collectionRef : String
  tokenHash : String
  recordRef : String
  createdAt : Int
deriving DecidableEq

/-- The accounts by collection id and record id, and what belongs to them. -/
structure Db where
  accounts : String × String → Option Account
  sessions : Sessions.Table
  otps : List Otp
  now : Int

namespace Db

/-- Assign columns of an account. -/
def write (db : Db) (key : String × String) (columns : List (String × Option String)) : Db :=
  { db with accounts := fun k =>
      if k = key then (db.accounts k).map fun account =>
        columns.foldl (fun account column => account.set column.1 column.2) account
      else db.accounts k }

/-- Add an account. -/
def create (db : Db) (key : String × String) (columns : List (String × Option String)) : Db :=
  let account : Account :=
    columns.foldl (fun account column => account.set column.1 column.2) ⟨none, none⟩
  { db with accounts := fun k => if k = key then some account else db.accounts k }

/-- Remove an account. Its sessions stay. -/
def delete (db : Db) (key : String × String) : Db :=
  { db with accounts := fun k => if k = key then none else db.accounts k }

def revoke (db : Db) (key : String × String) : Db :=
  { db with sessions := db.sessions.revokeForUser key.1 key.2 db.now }

/-- Whether an `update` of the account finds it. -/
def finds (db : Db) (key : String × String) (allowed : Bool) : Bool :=
  allowed && (db.accounts key).isSome

end Db

/-! ### Routes -/

/-- How the checks and the database answer an update of a record. -/
structure Answers where
  /-- The body is valid, for the checks before the statement and the hooks. -/
  checks : Bool
  /-- The policies let the caller update the record. -/
  allowed : Bool
  /-- The update breaks no constraint. -/
  stores : Bool
  /-- The files of the stored record can be attached. -/
  syncs : Bool
deriving DecidableEq

/-- The update of a record; one that finds nothing is no error. -/
def updateWith (key : String × String) (extra : List (String × Option String)) (answers : Answers) :
    Statement Db := fun db =>
  if ¬ answers.checks then none
  else if ¬ db.finds key answers.allowed then some db
  else if ¬ answers.stores then none
  else some (db.write key extra)

def revokeForUser (key : String × String) : Statement Db := fun db => some (db.revoke key)

/-- `sync_files`, of the stored record. -/
def syncFiles (key : String × String) (answers : Answers) : Statement Db := fun db =>
  if db.finds key answers.allowed ∧ ¬ answers.syncs then none else some db

/-- A change of one record: where, with what body, and how it is answered. -/
structure Change where
  target : StoredCollection
  id : String
  input : Json
  /-- The hash of the password in the body. -/
  hashed : String
  tokenKey : String
  answers : Answers

namespace Change

def key (change : Change) : String × String := (change.target.collection.id, change.id)

def extra (change : Change) : List (String × Option String) :=
  authColumns change.target.collection change.input change.hashed change.tokenKey

end Change

/-- The statements of `update_record`. -/
def updateRecord (change : Change) : List (Statement Db) :=
  let changedPassword := change.extra ≠ []
  [updateWith change.key change.extra change.answers] ++
    (if changedPassword then [revokeForUser change.key] else []) ++
    [syncFiles change.key change.answers]

/-- `create_with`: an id that is taken breaks the primary key. -/
def createWith (key : String × String) (extra : List (String × Option String)) (answers : Answers) :
    Statement Db := fun db =>
  if ¬ answers.checks ∨ ¬ answers.allowed ∨ ¬ answers.stores ∨ (db.accounts key).isSome then none
  else some (db.create key extra)

/-- A step of a batch. The record that a read or a delete is about is given by its key. -/
inductive BatchStep where
  | get (key : String × String) (allowed : Bool)
  | post (change : Change)
  | patch (change : Change)
  | delete (key : String × String) (answers : Answers)

/-- The statement of a batch step: a step that finds no record fails. -/
@[grind =]
def BatchStep.execute : BatchStep → Statement Db
  | .get key allowed => fun db => if db.finds key allowed then some db else none
  | .post change => fun db =>
    (createWith change.key change.extra change.answers db).bind
      fun stored => if change.answers.syncs then some stored else none
  | .patch change => fun db =>
    if ¬ db.finds change.key change.answers.allowed then none
    else (updateWith change.key change.extra change.answers db).bind
      (syncFiles change.key change.answers)
  | .delete key answers => fun db =>
    if ¬ answers.checks ∨ ¬ db.finds key answers.allowed ∨ ¬ answers.stores then none
    else some (db.delete key)

/-- `TOKEN_TTL_SECONDS`, in microseconds. -/
def tokenTtl : Int := 24 * 60 * 60 * 1000000

/-- The reset that a token belongs to. -/
def findOtp (db : Db) (collection : Collection) (tokenHash : String) : Option Otp :=
  db.otps.find? fun otp =>
    otp.collectionRef = collection.name && otp.tokenHash = tokenHash &&
      db.now - tokenTtl ≤ otp.createdAt

/-- `consume`: the row is deleted by the statement that reads it. -/
def consume (otp : Otp) : Statement Db := fun db =>
  some { db with otps := db.otps.filter (· ≠ otp) }

/-- The statements of `confirm_password_reset`. -/
def confirmPasswordReset (target : StoredCollection) (tokenHash hashed : String) (valid : Bool)
    (db : Db) : List (Statement Db) :=
  if ¬ valid ∨ ¬ target.collection.collectionType.isAuth then []
  else match findOtp db target.collection tokenHash with
    | none => []
    | some otp =>
      let key := (target.collection.id, otp.recordRef)
      [consume otp, fun db => some (db.write key [("password_hash", some hashed)]),
        revokeForUser key]

/-- The statements of a save from a hook: an update when the record carries an id. -/
def save (change : Change) (create : Bool) : List (Statement Db) :=
  if create then [createWith change.key change.extra change.answers]
  else [updateWith change.key change.extra change.answers]

/-- A request that can write a password, and the number of its statements that are run before it is
interrupted. -/
inductive Request where
  | patch (change : Change) (completed : ℕ)
  | batch (steps : List BatchStep) (completed : ℕ)
  | confirmReset (target : StoredCollection) (tokenHash hashed : String) (valid : Bool)
      (completed : ℕ)
  | hookSave (change : Change) (create : Bool) (completed : ℕ)

/-- What the database holds when the request is over. -/
def Request.run (db : Db) : Request → Db
  | .patch change completed => transaction (updateRecord change) completed db
  | .batch steps completed => transaction (steps.map BatchStep.execute) completed db
  | .confirmReset target tokenHash hashed valid completed =>
    autocommit (confirmPasswordReset target tokenHash hashed valid db) completed db
  | .hookSave change create completed => transaction (save change create) completed db

/-! ### What goes together -/

/-- The stored hash of the account is another one than before. -/
def Changed (before after : Db) (key : String × String) : Prop :=
  ∃ old new, before.accounts key = some old ∧ after.accounts key = some new ∧
    new.passwordHash ≠ old.passwordHash

/-- A session is revoked afterwards. -/
def Revoked (after : Db) (h : String) : Prop := ∃ y, after.sessions h = some y ∧ ¬ y.Live

/-- A live session of the account. -/
def LiveSession (db : Db) (key : String × String) (h : String) : Prop :=
  ∃ x, db.sessions h = some x ∧ x.Live ∧ x.account = key

/-- The sessions that the account had are revoked if and only if its password was changed. -/
def GoTogether (before after : Db) (key : String × String) : Prop :=
  ∀ h, LiveSession before key h → (Revoked after h ↔ Changed before after key)

/-- The change supplies a password. -/
def Change.SuppliesPassword (change : Change) : Prop := change.extra ≠ []

namespace BatchStep

/-- A batch step can be carried out. -/
@[grind =]
def Succeeds (db : Db) : BatchStep → Prop
  | .get key allowed => db.finds key allowed = true
  | .post change => change.answers = ⟨true, true, true, true⟩ ∧ db.accounts change.key = none
  | .patch change => change.answers = ⟨true, true, true, true⟩ ∧
      db.finds change.key change.answers.allowed = true
  | .delete key answers => answers.checks = true ∧ answers.stores = true ∧
      db.finds key answers.allowed = true

/-- What a batch step that succeeds does. -/
@[grind =]
def effect (db : Db) : BatchStep → Db
  | .get _ _ => db
  | .post change => db.create change.key change.extra
  | .patch change => db.write change.key change.extra
  | .delete key _ => db.delete key

/-- Each step of a batch can be carried out, after those before it. -/
def AllSucceed (db : Db) : List BatchStep → Prop
  | [] => True
  | step :: rest => step.Succeeds db ∧ AllSucceed (step.effect db) rest

/-- The step decides what hash the account has. -/
def Decides (key : String × String) : BatchStep → Prop
  | .get _ _ => False
  | .post change => change.key = key
  | .patch change => change.key = key ∧ change.SuppliesPassword
  | .delete other _ => other = key

/-- The step gives the account another hash than the given one. -/
def Replaces (key : String × String) (hash : Option String) : BatchStep → Prop
  | .get _ _ | .delete _ _ => False
  | .post change => change.key = key ∧ (change.SuppliesPassword ∨ hash ≠ none)
  | .patch change => change.key = key ∧ change.SuppliesPassword

/-- The last step of a batch that decides about the account gives it another hash. -/
def LastReplaces (db : Db) (key : String × String) (steps : List BatchStep) : Prop :=
  ∃ account before step after, db.accounts key = some account ∧
    steps = before ++ step :: after ∧ step.Replaces key account.passwordHash ∧
    ∀ later ∈ after, ¬ later.Decides key

end BatchStep

/-- The requests that part the two for an account. -/
def Request.PartsThem (db : Db) (key : String × String) : Request → Prop
  -- The sessions are revoked even though the update found no record it may change.
  | .patch change completed => change.key = key ∧ change.SuppliesPassword ∧
      change.answers.checks = true ∧ db.finds key change.answers.allowed = false ∧ 3 < completed
  -- Nothing is revoked.
  | .batch steps completed => steps.length < completed ∧ BatchStep.AllSucceed db steps ∧
      BatchStep.LastReplaces db key steps
  -- The two statements are not in one transaction, and the account may be gone.
  | .confirmReset target tokenHash _ valid completed => valid = true ∧
      target.collection.collectionType.isAuth = true ∧
      ∃ otp, findOtp db target.collection tokenHash = some otp ∧
        key = (target.collection.id, otp.recordRef) ∧
        ((completed = 2 ∧ (db.accounts key).isSome = true) ∨
          (2 < completed ∧ (db.accounts key).isSome = false))
  -- Nothing is revoked.
  | .hookSave change create completed => create = false ∧ change.key = key ∧
      change.SuppliesPassword ∧ change.answers.checks = true ∧ change.answers.stores = true ∧
      db.finds key change.answers.allowed = true ∧ 1 < completed

/-- No hash the request computes is the one stored for the account. -/
def Request.Salted (db : Db) (key : String × String) : Request → Prop
  | .patch change _ | .hookSave change _ _ => Fresh change.hashed
  | .batch steps _ => ∀ change, .patch change ∈ steps ∨ .post change ∈ steps → Fresh change.hashed
  | .confirmReset _ _ hashed _ _ => Fresh hashed
where
  Fresh (hashed : String) : Prop :=
    ∀ account, db.accounts key = some account → account.passwordHash ≠ some hashed

section Lemmas

variable {db : Db} {key : String × String} {h : String}

variable {after : Db}

theorem not_revoked_self (hlive : LiveSession db key h) : ¬ Revoked db h := by
  rintro ⟨y, hy, hdead⟩
  obtain ⟨x, hx, hxlive, -⟩ := hlive
  rw [hx, Option.some.injEq] at hy
  exact hdead (hy ▸ hxlive)

theorem not_changed_self (db : Db) : ¬ Changed db db key := by
  rintro ⟨old, new, hold, hnew, hne⟩
  rw [hold, Option.some.injEq] at hnew
  exact hne (hnew ▸ rfl)

theorem not_changed_of_accounts (haccounts : after.accounts key = db.accounts key) :
    ¬ Changed db after key := by
  rintro ⟨old, new, hold, hnew, hne⟩
  rw [haccounts, hold, Option.some.injEq] at hnew
  exact hne (hnew ▸ rfl)

/-- Where the account's sessions are left alone, its password must be. -/
theorem goTogether_iff_of_kept
    (hkept : ∀ h, LiveSession db key h → ¬ Revoked after h) :
    GoTogether db after key ↔ (∀ h, ¬ LiveSession db key h) ∨ ¬ Changed db after key := by
  constructor
  · intro hboth
    by_cases hchanged : Changed db after key
    · exact .inl fun h hlive => hkept h hlive ((hboth h hlive).mpr hchanged)
    · exact .inr hchanged
  · rintro (hnone | hsame) h hlive
    · exact absurd hlive (hnone h)
    · exact iff_of_false (hkept h hlive) hsame

/-- Where they are revoked, it must be changed. -/
theorem goTogether_iff_of_revoked
    (hrevoked : ∀ h, LiveSession db key h → Revoked after h) :
    GoTogether db after key ↔ (∀ h, ¬ LiveSession db key h) ∨ Changed db after key := by
  constructor
  · intro hboth
    by_cases hlive : ∃ h, LiveSession db key h
    · obtain ⟨h, hlive⟩ := hlive
      exact .inr ((hboth h hlive).mp (hrevoked h hlive))
    · exact .inl fun h hh => hlive ⟨h, hh⟩
  · rintro (hnone | hchanged) h hlive
    · exact absurd hlive (hnone h)
    · exact iff_of_true (hrevoked h hlive) hchanged

theorem goTogether_self : GoTogether db db key :=
  (goTogether_iff_of_kept fun _ hlive => not_revoked_self hlive).mpr (.inr (not_changed_self db))

theorem revoked_revoke (hlive : LiveSession db key h)
    (hsessions : after.sessions = (db.revoke key).sessions) : Revoked after h := by
  obtain ⟨x, hx, hxlive, rfl⟩ := hlive
  refine ⟨{ x with revokedAt := some db.now }, ?_, fun hdead => by cases hdead⟩
  rw [hsessions]
  simp [Db.revoke, Sessions.Table.revokeForUser, Sessions.Table.revokeWhere, hx, hxlive,
    Sessions.Session.account]

theorem not_revoked_revoke {other : String × String} (hother : other ≠ key)
    (hlive : LiveSession db key h)
    (hsessions : after.sessions = (db.revoke other).sessions) : ¬ Revoked after h := by
  obtain ⟨x, hx, hxlive, rfl⟩ := hlive
  rintro ⟨y, hy, hdead⟩
  have hkept : (db.revoke other).sessions h = some x := by
    simp [Db.revoke, Sessions.Table.revokeForUser, Sessions.Table.revokeWhere, hx,
      Ne.symm hother]
  rw [hsessions, hkept, Option.some.injEq] at hy
  exact hdead (hy ▸ hxlive)

/-- The credentials a change writes: a new hash, or nothing. -/
theorem Change.extra_cases (change : Change) :
    change.extra = [] ∨ change.extra =
      [("password_hash", some change.hashed), ("token_key", some change.tokenKey)] := by
  unfold Change.extra authColumns
  split
  · exact .inl rfl
  · split
    · rename_i field hinput hfield
      rw [change.target.builtin field hfield]
      exact .inr rfl
    · exact .inl rfl

@[simp] theorem finds_write (other : String × String) (columns : List (String × Option String))
    (allowed : Bool) : (db.write other columns).finds key allowed = db.finds key allowed := by
  by_cases hkey : key = other
  · simp [Db.finds, Db.write, hkey]
  · simp [Db.finds, Db.write, hkey]

@[simp] theorem finds_revoke (other : String × String) (allowed : Bool) :
    (db.revoke other).finds key allowed = db.finds key allowed := rfl

theorem accounts_write_of_ne {other : String × String} (hother : other ≠ key)
    (columns : List (String × Option String)) :
    (db.write other columns).accounts key = db.accounts key := by
  simp [Db.write, Ne.symm hother]

@[simp] theorem accounts_create_self (columns : List (String × Option String)) :
    (db.create key columns).accounts key =
      some (columns.foldl (fun account column => account.set column.1 column.2) ⟨none, none⟩) :=
  if_pos rfl

@[simp] theorem accounts_delete_self : (db.delete key).accounts key = none := if_pos rfl

theorem write_nil (other : String × String) : db.write other [] = db := by
  have haccounts : (db.write other []).accounts = db.accounts := by
    funext k
    simp [Db.write]
  cases db
  simp only [Db.write] at haccounts ⊢
  rw [haccounts]

/-- A fresh hash that is written to an account changes it. -/
theorem changed_of_hash {hashed : String} {account : Account}
    (haccount : db.accounts key = some account)
    (hafter : ∃ new, after.accounts key = some new ∧ new.passwordHash = some hashed)
    (hsalted : Request.Salted.Fresh db key hashed) : Changed db after key := by
  obtain ⟨new, hnew, hhash⟩ := hafter
  refine ⟨account, new, haccount, hnew, ?_⟩
  rw [hhash]
  exact (hsalted account haccount).symm

/-- What an update with a password leaves in the account. -/
theorem accounts_write_password {hashed tokenKey : String} {account : Account}
    (haccount : db.accounts key = some account) :
    (db.write key [("password_hash", some hashed), ("token_key", some tokenKey)]).accounts key =
      some ⟨some hashed, some tokenKey⟩ := by
  simp [Db.write, haccount, Account.set]

end Lemmas

/-! ### The four routes -/

section Routes

variable {db : Db} {key : String × String}

theorem exists_account_of_finds {allowed : Bool} (hfinds : db.finds key allowed = true) :
    ∃ account, db.accounts key = some account := by
  simp only [Db.finds, Bool.and_eq_true] at hfinds
  exact Option.isSome_iff_exists.mp hfinds.2

/-- The transaction of an update, run to its end. -/
theorem runAll_updateRecord (db : Db) (change : Change) :
    runAll (updateRecord change) db =
      if ¬ change.answers.checks then none
      else if ¬ db.finds change.key change.answers.allowed then
        some (if change.extra ≠ [] then db.revoke change.key else db)
      else if ¬ change.answers.stores ∨ ¬ change.answers.syncs then none
      else some (if change.extra ≠ [] then (db.write change.key change.extra).revoke change.key
        else db) := by
  obtain ⟨⟨checks, allowed, stores, syncs⟩, hanswers⟩ : ∃ answers, change.answers = answers :=
    ⟨_, rfl⟩
  rcases change.extra_cases with hextra | hextra
  · cases checks <;> cases hfinds : db.finds change.key allowed <;> cases stores <;>
      cases syncs <;>
      simp [updateRecord, runAll, updateWith, syncFiles, hextra, hanswers, hfinds, write_nil]
  · cases checks <;> cases hfinds : db.finds change.key allowed <;> cases stores <;>
      cases syncs <;>
      simp [updateRecord, runAll, updateWith, syncFiles, revokeForUser, hextra, hanswers, hfinds]

/-- A database that a request has left as it was. -/
theorem goTogether_iff_of_eq {after : Db} {P : Prop} (hafter : after = db) (hP : ¬ P) :
    GoTogether db after key ↔ (∀ h, ¬ LiveSession db key h) ∨ ¬ P := by
  rw [hafter]
  exact iff_of_true goTogether_self (.inr hP)

/-- A database in which only another account was touched. -/
theorem goTogether_iff_of_other {after : Db} {P : Prop}
    (haccounts : after.accounts key = db.accounts key)
    (hkept : ∀ h, LiveSession db key h → ¬ Revoked after h) (hP : ¬ P) :
    GoTogether db after key ↔ (∀ h, ¬ LiveSession db key h) ∨ ¬ P := by
  rw [goTogether_iff_of_kept hkept]
  exact iff_of_true (.inr (not_changed_of_accounts haccounts)) (.inr hP)

theorem goTogether_patch_iff (change : Change) (completed : ℕ)
    (hsalted : (Request.patch change completed).Salted db key) :
    GoTogether db ((Request.patch change completed).run db) key ↔
      (∀ h, ¬ LiveSession db key h) ∨ ¬ (Request.patch change completed).PartsThem db key := by
  have hrunAll := runAll_updateRecord db change
  by_cases hsupplies : change.extra = []
  · -- Nothing is written and nothing revoked.
    refine goTogether_iff_of_eq ?_ fun hparts => hparts.2.1 hsupplies
    simp only [hsupplies, ne_eq, not_true_eq_false, ↓reduceIte] at hrunAll
    simp only [Request.run, transaction, hrunAll]
    split_ifs <;> rfl
  have hlength : (updateRecord change).length = 3 := by simp [updateRecord, hsupplies]
  by_cases hcommit : completed ≤ 3
  · refine goTogether_iff_of_eq (transaction_of_le (hlength ▸ hcommit) db) fun hparts => ?_
    exact absurd hparts.2.2.2.2 (Nat.not_lt.mpr hcommit)
  have hrun : (Request.patch change completed).run db =
      (runAll (updateRecord change) db).getD db :=
    transaction_of_lt (hlength ▸ Nat.lt_of_not_le hcommit) db
  rw [if_pos hsupplies, if_pos hsupplies] at hrunAll
  by_cases hchecks : change.answers.checks = true
  swap
  · rw [if_pos hchecks] at hrunAll
    exact goTogether_iff_of_eq (by rw [hrun, hrunAll]; rfl) fun hparts => hchecks hparts.2.2.1
  rw [if_neg (not_not.mpr hchecks)] at hrunAll
  by_cases hfinds : db.finds change.key change.answers.allowed = true
  · by_cases hdone : change.answers.stores = true ∧ change.answers.syncs = true
    swap
    · rw [if_neg (not_not.mpr hfinds), if_pos (not_and_or.mp hdone)] at hrunAll
      refine goTogether_iff_of_eq (by rw [hrun, hrunAll]; rfl) ?_
      · rintro ⟨rfl, -, -, hnot, -⟩
        rw [hfinds] at hnot
        cases hnot
    rw [if_neg (not_not.mpr hfinds), if_neg fun hfails => not_and_or.mpr hfails hdone] at hrunAll
    rw [hrun, hrunAll, Option.getD_some]
    by_cases hkey : change.key = key
    · subst hkey
      obtain ⟨account, haccount⟩ := exists_account_of_finds hfinds
      have hextra := change.extra_cases.resolve_left hsupplies
      have hchanged : Changed db ((db.write change.key change.extra).revoke change.key)
          change.key := by
        rw [hextra]
        exact changed_of_hash haccount ⟨_, accounts_write_password haccount, rfl⟩ hsalted
      have hrevoked : ∀ h, LiveSession db change.key h →
          Revoked ((db.write change.key change.extra).revoke change.key) h :=
        fun h hlive => revoked_revoke hlive rfl
      have htogether := (goTogether_iff_of_revoked hrevoked).mpr (.inr hchanged)
      refine iff_of_true htogether (.inr fun hparts => ?_)
      rw [hparts.2.2.2.1] at hfinds
      cases hfinds
    · exact goTogether_iff_of_other (accounts_write_of_ne hkey _)
        (fun h hlive => not_revoked_revoke hkey hlive rfl) fun hparts => hkey hparts.1
  · rw [if_pos hfinds] at hrunAll
    rw [hrun, hrunAll, Option.getD_some]
    by_cases hkey : change.key = key
    · subst hkey
      have hparts : (Request.patch change completed).PartsThem db change.key :=
        ⟨rfl, hsupplies, hchecks, Bool.eq_false_of_not_eq_true hfinds, Nat.lt_of_not_le hcommit⟩
      rw [goTogether_iff_of_revoked fun h hlive => revoked_revoke hlive rfl]
      exact or_congr_right (iff_of_false (not_changed_of_accounts rfl) (not_not.mpr hparts))
    · exact goTogether_iff_of_other rfl (fun h hlive => not_revoked_revoke hkey hlive rfl)
        fun hparts => hkey hparts.1

theorem BatchStep.execute_eq_some {step : BatchStep} {after : Db} :
    step.execute db = some after ↔ step.Succeeds db ∧ step.effect db = after := by
  cases step with
  | get key allowed => simp [execute, Succeeds, effect]
  | post change =>
    obtain ⟨⟨checks, allowed, stores, syncs⟩, hanswers⟩ : ∃ answers, change.answers = answers :=
      ⟨_, rfl⟩
    cases checks <;> cases allowed <;> cases stores <;> cases syncs <;>
      cases haccount : db.accounts change.key <;>
      simp [execute, createWith, Succeeds, effect, hanswers, haccount]
  | patch change =>
    obtain ⟨⟨checks, allowed, stores, syncs⟩, hanswers⟩ : ∃ answers, change.answers = answers :=
      ⟨_, rfl⟩
    cases checks <;> cases allowed <;> cases stores <;> cases syncs <;>
      cases haccount : db.accounts change.key <;>
      simp [execute, updateWith, syncFiles, Succeeds, effect, hanswers, Db.finds, haccount, Db.write]
  | delete key answers =>
    cases hchecks : answers.checks <;> cases hstores : answers.stores <;>
      cases hfinds : db.finds key answers.allowed <;>
      simp [execute, Succeeds, effect, hchecks, hstores, hfinds]

variable {steps : List BatchStep}

/-- A batch runs to its end when each of its steps can be carried out. -/
theorem runAll_batch {after : Db} :
    runAll (steps.map BatchStep.execute) db = some after ↔
      BatchStep.AllSucceed db steps ∧ steps.foldl BatchStep.effect db = after := by
  induction steps generalizing db with
  | nil => simp [runAll, BatchStep.AllSucceed]
  | cons step rest ih =>
    simp only [List.map_cons, runAll, Option.bind_eq_some_iff, BatchStep.execute_eq_some,
      BatchStep.AllSucceed, List.foldl_cons]
    constructor
    · rintro ⟨_, ⟨hstep, rfl⟩, hrest⟩
      obtain ⟨hsucceed, rfl⟩ := ih.mp hrest
      exact ⟨⟨hstep, hsucceed⟩, rfl⟩
    · rintro ⟨⟨hstep, hrest⟩, rfl⟩
      exact ⟨_, ⟨hstep, rfl⟩, ih.mpr ⟨hrest, rfl⟩⟩

theorem sessions_batch (steps : List BatchStep) :
    (steps.foldl BatchStep.effect db).sessions = db.sessions := by
  induction steps generalizing db with
  | nil => rfl
  | cons step rest ih =>
    rw [List.foldl_cons, ih]
    cases step <;> rfl

theorem accounts_effect_of_not_decides {step : BatchStep} (hnot : ¬ step.Decides key) :
    (step.effect db).accounts key = db.accounts key := by
  cases step with
  | get other allowed => rfl
  | post change => exact if_neg (Ne.symm hnot)
  | delete other answers => exact if_neg (Ne.symm hnot)
  | patch change =>
    by_cases hkey : change.key = key
    · have hnil : change.extra = [] := by
        by_contra hsupplies
        exact hnot ⟨hkey, hsupplies⟩
      rw [BatchStep.effect, hnil, write_nil]
    · exact accounts_write_of_ne hkey _

theorem accounts_batch_of_not_decides
    (hnot : ∀ step ∈ steps, ¬ step.Decides key) :
    (steps.foldl BatchStep.effect db).accounts key = db.accounts key := by
  induction steps generalizing db with
  | nil => rfl
  | cons step rest ih =>
    obtain ⟨hstep, hrest⟩ := List.forall_mem_cons.mp hnot
    rw [List.foldl_cons, ih hrest, accounts_effect_of_not_decides hstep]

/-- Only the last step that decides about an account matters to it. -/
theorem accounts_batch_of_last {before after : List BatchStep} {step : BatchStep}
    (hafter : ∀ later ∈ after, ¬ later.Decides key) :
    ((before ++ step :: after).foldl BatchStep.effect db).accounts key =
      (step.effect (before.foldl BatchStep.effect db)).accounts key := by
  rw [List.foldl_append, List.foldl_cons, accounts_batch_of_not_decides hafter]

theorem BatchStep.AllSucceed.of_append {before after : List BatchStep}
    (h : BatchStep.AllSucceed db (before ++ after)) :
    BatchStep.AllSucceed (before.foldl BatchStep.effect db) after := by
  induction before generalizing db with
  | nil => exact h
  | cons step rest ih => exact ih h.2

/-- The step that decides last, when one does. -/
theorem exists_last_decides (h : ∃ step ∈ steps, step.Decides key) :
    ∃ before step after, steps = before ++ step :: after ∧ step.Decides key ∧
      ∀ later ∈ after, ¬ later.Decides key := by
  induction steps with
  | nil => simp at h
  | cons first rest ih =>
    by_cases hrest : ∃ step ∈ rest, step.Decides key
    · obtain ⟨before, step, after, rfl, hdecides, hafter⟩ := ih hrest
      exact ⟨first :: before, step, after, rfl, hdecides, hafter⟩
    · refine ⟨[], first, rest, rfl, ?_, fun later hlater hdecides => hrest ⟨later, hlater, hdecides⟩⟩
      obtain ⟨step, hstep, hdecides⟩ := h
      rcases List.mem_cons.mp hstep with rfl | hstep
      · exact hdecides
      · exact absurd ⟨step, hstep, hdecides⟩ hrest

/-- A batch that is carried out changes the hash of an account exactly when the last step that
decides about it does. -/
theorem changed_batch_iff (hsucceed : BatchStep.AllSucceed db steps)
    (hsalted : (Request.batch steps 0).Salted db key) :
    Changed db (steps.foldl BatchStep.effect db) key ↔ BatchStep.LastReplaces db key steps := by
  constructor
  · rintro ⟨old, new, hold, hnew, hne⟩
    have hdecides : ∃ step ∈ steps, step.Decides key := by
      by_contra hnone
      rw [accounts_batch_of_not_decides fun step hstep h => hnone ⟨step, hstep, h⟩, hold,
        Option.some.injEq] at hnew
      exact hne (hnew ▸ rfl)
    obtain ⟨before, step, after, rfl, hdecides, hafter⟩ := exists_last_decides hdecides
    rw [accounts_batch_of_last hafter] at hnew
    refine ⟨old, before, step, after, hold, rfl, ?_, hafter⟩
    cases step with
    | get other allowed => exact hdecides
    | patch change => exact hdecides
    | delete other answers =>
      obtain rfl : other = key := hdecides
      rw [BatchStep.effect, accounts_delete_self] at hnew
      cases hnew
    | post change =>
      obtain rfl : change.key = key := hdecides
      refine ⟨rfl, ?_⟩
      by_contra hnot
      obtain ⟨hnil, hnull⟩ := not_or.mp hnot
      rw [BatchStep.effect, accounts_create_self, not_not.mp hnil, Option.some.injEq] at hnew
      exact hne (hnew ▸ (not_not.mp hnull).symm)
  · rintro ⟨account, before, step, after, haccount, rfl, hreplaces, hafter⟩
    have hstep := (BatchStep.AllSucceed.of_append hsucceed).1
    have hlast : ((before ++ step :: after).foldl BatchStep.effect db).accounts key =
        (step.effect (before.foldl BatchStep.effect db)).accounts key :=
      accounts_batch_of_last hafter
    cases step with
    | get other allowed => exact hreplaces.elim
    | delete other answers => exact hreplaces.elim
    | patch change =>
      obtain ⟨rfl, hsupplies⟩ := hreplaces
      obtain ⟨current, hcurrent⟩ := exists_account_of_finds hstep.2
      refine changed_of_hash haccount ⟨⟨some change.hashed, some change.tokenKey⟩, ?_, rfl⟩
        (hsalted change (.inl (by simp)))
      rw [hlast, BatchStep.effect, change.extra_cases.resolve_left hsupplies]
      exact accounts_write_password hcurrent
    | post change =>
      obtain ⟨rfl, hnew⟩ := hreplaces
      rcases change.extra_cases with hextra | hextra
      · have hnull := hnew.resolve_left fun hsupplies => hsupplies hextra
        refine ⟨account, ⟨none, none⟩, haccount, ?_, fun heq => hnull heq.symm⟩
        rw [hlast, BatchStep.effect, hextra, accounts_create_self]
        rfl
      · refine changed_of_hash haccount ⟨⟨some change.hashed, some change.tokenKey⟩, ?_, rfl⟩
          (hsalted change (.inr (by simp)))
        rw [hlast, BatchStep.effect, hextra, accounts_create_self]
        rfl

theorem goTogether_batch_iff (steps : List BatchStep) (completed : ℕ)
    (hsalted : (Request.batch steps completed).Salted db key) :
    GoTogether db ((Request.batch steps completed).run db) key ↔
      (∀ h, ¬ LiveSession db key h) ∨ ¬ (Request.batch steps completed).PartsThem db key := by
  have hlength : (steps.map BatchStep.execute).length = steps.length := by simp
  by_cases hcommit : completed ≤ steps.length
  · refine goTogether_iff_of_eq (transaction_of_le (hlength ▸ hcommit) db) fun hparts => ?_
    exact absurd hparts.1 (Nat.not_lt.mpr hcommit)
  have hrun : (Request.batch steps completed).run db =
      (runAll (steps.map BatchStep.execute) db).getD db :=
    transaction_of_lt (hlength ▸ Nat.lt_of_not_le hcommit) db
  by_cases hsucceed : BatchStep.AllSucceed db steps
  swap
  · have hfails : runAll (steps.map BatchStep.execute) db = none := by
      cases hall : runAll (steps.map BatchStep.execute) db with
      | none => rfl
      | some after => exact absurd (runAll_batch.mp hall).1 hsucceed
    exact goTogether_iff_of_eq (by rw [hrun, hfails]; rfl) fun hparts => hsucceed hparts.2.1
  rw [hrun, runAll_batch.mpr ⟨hsucceed, rfl⟩, Option.getD_some]
  have hkept : ∀ h, LiveSession db key h → ¬ Revoked (steps.foldl BatchStep.effect db) h := by
    intro h hlive hrevoked
    refine not_revoked_self hlive ?_
    unfold Revoked at hrevoked ⊢
    rwa [sessions_batch] at hrevoked
  rw [goTogether_iff_of_kept hkept, changed_batch_iff hsucceed hsalted]
  refine or_congr_right (not_congr ⟨fun hlast => ?_, fun hparts => hparts.2.2⟩)
  exact ⟨Nat.lt_of_not_le hcommit, hsucceed, hlast⟩

theorem accounts_write_hash {hashed : String} {account : Account}
    (haccount : db.accounts key = some account) :
    (db.write key [("password_hash", some hashed)]).accounts key =
      some ⟨some hashed, account.tokenKey⟩ := by
  simp [Db.write, haccount, Account.set]

/-- A reset changes the hash of an account that exists. -/
theorem changed_write_hash_iff {after : Db} {hashed : String}
    (hafter : after.accounts key = (db.write key [("password_hash", some hashed)]).accounts key)
    (hsalted : Request.Salted.Fresh db key hashed) :
    Changed db after key ↔ (db.accounts key).isSome = true := by
  constructor
  · rintro ⟨old, -, hold, -⟩
    rw [hold]
    rfl
  · intro hsome
    obtain ⟨account, haccount⟩ := Option.isSome_iff_exists.mp hsome
    refine changed_of_hash haccount ⟨_, hafter.trans (accounts_write_hash haccount), rfl⟩ hsalted

theorem goTogether_confirm_iff (target : StoredCollection) (tokenHash hashed : String)
    (valid : Bool) (completed : ℕ)
    (hsalted : (Request.confirmReset target tokenHash hashed valid completed).Salted db key) :
    GoTogether db ((Request.confirmReset target tokenHash hashed valid completed).run db) key ↔
      (∀ h, ¬ LiveSession db key h) ∨
        ¬ (Request.confirmReset target tokenHash hashed valid completed).PartsThem db key := by
  rw [Request.run, confirmPasswordReset]
  by_cases hrefused : ¬ valid = true ∨ ¬ target.collection.collectionType.isAuth = true
  · rw [if_pos hrefused]
    refine goTogether_iff_of_eq (autocommit_nil _ _) fun hparts => ?_
    exact hrefused.elim (· hparts.1) (· hparts.2.1)
  rw [if_neg hrefused]
  obtain ⟨hvalid, hauth⟩ := not_or.mp hrefused
  cases hotp : findOtp db target.collection tokenHash with
  | none =>
    refine goTogether_iff_of_eq (autocommit_nil _ _) ?_
    rintro ⟨-, -, otp, hfound, -⟩
    rw [hotp] at hfound
    cases hfound
  | some otp =>
    have hparts : (Request.confirmReset target tokenHash hashed valid completed).PartsThem db key ↔
        key = (target.collection.id, otp.recordRef) ∧
          ((completed = 2 ∧ (db.accounts key).isSome = true) ∨
            (2 < completed ∧ (db.accounts key).isSome = false)) := by
      constructor
      · rintro ⟨-, -, found, hfound, hrest⟩
        rw [hotp, Option.some.injEq] at hfound
        exact hfound ▸ hrest
      · exact fun hrest => ⟨not_not.mp hvalid, not_not.mp hauth, otp, hotp, hrest⟩
    rw [hparts]
    -- The account the token belongs to, and the three places to stop at.
    set owner := (target.collection.id, otp.recordRef)
    have hkept (columns : List (String × Option String)) : ∀ h, LiveSession db key h →
        ¬ Revoked (Db.write { db with otps := db.otps.filter (· ≠ otp) } owner columns) h :=
      fun h hlive => not_revoked_self hlive
    by_cases hkey : key = owner
    swap
    · have haccounts (columns : List (String × Option String)) :
          (Db.write { db with otps := db.otps.filter (· ≠ otp) } owner columns).accounts key =
            db.accounts key := accounts_write_of_ne (Ne.symm hkey) _
      rcases completed with _ | _ | _ | rest
      · exact goTogether_iff_of_eq rfl fun h => hkey h.1
      · exact goTogether_iff_of_other rfl (fun h hlive => not_revoked_self hlive) fun h => hkey h.1
      · exact goTogether_iff_of_other (haccounts _) (hkept _) fun h => hkey h.1
      · exact goTogether_iff_of_other (haccounts _)
          (fun h hlive => not_revoked_revoke (Ne.symm hkey) hlive rfl) fun h => hkey h.1
    subst hkey
    rcases completed with _ | _ | _ | rest
    · exact goTogether_iff_of_eq rfl (by simp)
    · exact goTogether_iff_of_other rfl (fun h hlive => not_revoked_self hlive) (by simp)
    · have hchanged : Changed db (Db.write { db with otps := db.otps.filter (· ≠ otp) } owner
          [("password_hash", some hashed)]) owner ↔ (db.accounts owner).isSome = true :=
        changed_write_hash_iff rfl hsalted
      refine (goTogether_iff_of_kept (hkept _)).trans (or_congr_right (not_congr ?_))
      simpa using hchanged
    · have hchanged : Changed db ((Db.write { db with otps := db.otps.filter (· ≠ otp) } owner
          [("password_hash", some hashed)]).revoke owner) owner ↔
            (db.accounts owner).isSome = true :=
        changed_write_hash_iff rfl hsalted
      have hrevoked : ∀ h, LiveSession db owner h →
          Revoked ((Db.write { db with otps := db.otps.filter (· ≠ otp) } owner
            [("password_hash", some hashed)]).revoke owner) h :=
        fun h hlive => revoked_revoke hlive rfl
      refine (goTogether_iff_of_revoked hrevoked).trans (or_congr_right (hchanged.trans ?_))
      simp [Option.isSome_iff_ne_none]

theorem goTogether_save_iff (change : Change) (create : Bool) (completed : ℕ)
    (hsalted : (Request.hookSave change create completed).Salted db key) :
    GoTogether db ((Request.hookSave change create completed).run db) key ↔
      (∀ h, ¬ LiveSession db key h) ∨
        ¬ (Request.hookSave change create completed).PartsThem db key := by
  have hlength : (save change create).length = 1 := by cases create <;> rfl
  by_cases hcommit : completed ≤ 1
  · refine goTogether_iff_of_eq (transaction_of_le (hlength ▸ hcommit) db) fun hparts => ?_
    exact absurd hparts.2.2.2.2.2.2 (Nat.not_lt.mpr hcommit)
  have hrun : (Request.hookSave change create completed).run db =
      (runAll (save change create) db).getD db :=
    transaction_of_lt (hlength ▸ Nat.lt_of_not_le hcommit) db
  rw [hrun]
  cases create with
  | true =>
    -- An account that is created was not there before.
    have hparts : ¬ (Request.hookSave change true completed).PartsThem db key :=
      fun h => Bool.noConfusion h.1
    simp only [save, if_true, runAll, createWith]
    split_ifs with hfails
    · exact goTogether_iff_of_eq rfl hparts
    · have hkept : ∀ h, LiveSession db key h → ¬ Revoked (db.create change.key change.extra) h :=
        fun h hlive => not_revoked_self hlive
      refine iff_of_true ((goTogether_iff_of_kept hkept).mpr (.inr ?_)) (.inr hparts)
      by_cases hkey : key = change.key
      · subst hkey
        rintro ⟨old, -, hold, -⟩
        simp [hold] at hfails
      · exact not_changed_of_accounts (if_neg hkey)
  | false =>
    simp only [save, Bool.false_eq_true, if_false, runAll, updateWith]
    have hkept : ∀ h, LiveSession db key h → ¬ Revoked (db.write change.key change.extra) h :=
      fun h hlive => not_revoked_self hlive
    split_ifs with hchecks hfinds hstores
    · rw [Option.bind_some, Option.getD_some]
      by_cases hkey : change.key = key
      swap
      · exact goTogether_iff_of_other (accounts_write_of_ne hkey _) hkept fun hparts =>
          hkey hparts.2.1
      subst hkey
      rw [goTogether_iff_of_kept hkept]
      refine or_congr_right (not_congr ⟨fun hchanged => ?_, fun hparts => ?_⟩)
      · have hsupplies : change.SuppliesPassword := by
          intro hnil
          rw [hnil, write_nil] at hchanged
          exact not_changed_self db hchanged
        exact ⟨rfl, rfl, hsupplies, hchecks, hstores, hfinds, Nat.lt_of_not_le hcommit⟩
      · obtain ⟨account, haccount⟩ := exists_account_of_finds hfinds
        rw [change.extra_cases.resolve_left hparts.2.2.1]
        exact changed_of_hash haccount ⟨_, accounts_write_password haccount, rfl⟩ hsalted
    · exact goTogether_iff_of_eq rfl fun hparts => hstores hparts.2.2.2.2.1
    · refine goTogether_iff_of_eq rfl ?_
      rintro ⟨-, rfl, -, -, -, hfound, -⟩
      exact hfinds hfound
    · exact goTogether_iff_of_eq rfl fun hparts => hchecks hparts.2.2.2.1

end Routes

/-- **A password change and the end of the sessions go together for an account that has sessions
exactly when the request does not part them.** A new hash has a fresh salt, so it is another one than
the stored one. -/
theorem goTogether_iff_not_partsThem {db : Db} {key : String × String} (request : Request)
    (hsalted : request.Salted db key) :
    GoTogether db (request.run db) key ↔
      (∀ h, ¬ LiveSession db key h) ∨ ¬ request.PartsThem db key := by
  cases request with
  | patch change completed => exact goTogether_patch_iff change completed hsalted
  | batch steps completed => exact goTogether_batch_iff steps completed hsalted
  | confirmReset target tokenHash hashed valid completed =>
    exact goTogether_confirm_iff target tokenHash hashed valid completed hsalted
  | hookSave change create completed => exact goTogether_save_iff change create completed hsalted

/-! ### A refused update -/

section Refused

/-- An auth collection with its built-in password field. -/
def users : StoredCollection where
  collection :=
    { id := "users", name := "users", collectionType := .auth, options := .object [],
      rules := .object [],
      fields := [⟨"f1", "users", "password_hash", .password, false, false, .object [], 0⟩] }
  builtin := by
    intro field hfield
    rw [Collection.passwordField, List.find?_cons_of_pos (by decide), Option.some.injEq] at hfield
    rw [← hfield]

/-- One account with one session. -/
def oneAccount : Db where
  accounts := fun key => if key = ("users", "ada") then some ⟨some "h0", some "k0"⟩ else none
  sessions := fun h => if h = "t" then some ⟨"s", "users", "ada", "t", "f", 100, none⟩ else none
  otps := []
  now := 7

/-- A stranger's update of the account's password, refused by the policies. -/
def refusedPatch : Request :=
  .patch ⟨users, "ada", .object [("password", .string "guess")], "h1", "k1",
    ⟨true, false, true, true⟩⟩ 4

/-- The same update, by the account's owner. -/
def ownPatch : Request :=
  .patch ⟨users, "ada", .object [("password", .string "guess")], "h1", "k1",
    ⟨true, true, true, true⟩⟩ 4

theorem oneAccount_live : LiveSession oneAccount ("users", "ada") "t" :=
  ⟨⟨"s", "users", "ada", "t", "f", 100, none⟩, rfl, rfl, rfl⟩

/-- **A stranger's update that stores no password ends the sessions of the account.** -/
theorem refused_patch_ends_sessions :
    ¬ ∀ (db : Db) (key : String × String) (request : Request), request.Salted db key →
      GoTogether db (request.run db) key := by
  intro hall
  have htogether := hall oneAccount ("users", "ada") refusedPatch (by
    intro account haccount
    obtain rfl : (⟨some "h0", some "k0"⟩ : Account) = account := Option.some.inj haccount
    decide)
  have hrevoked : Revoked (refusedPatch.run oneAccount) "t" :=
    ⟨⟨"s", "users", "ada", "t", "f", 100, some 7⟩, by decide, by decide⟩
  exact not_changed_of_accounts rfl ((htogether "t" oneAccount_live).mp hrevoked)

/-- The owner's update does both. -/
theorem own_patch_goTogether :
    (∃ h, LiveSession oneAccount ("users", "ada") h) ∧
      Changed oneAccount (ownPatch.run oneAccount) ("users", "ada") ∧
      GoTogether oneAccount (ownPatch.run oneAccount) ("users", "ada") := by
  refine ⟨⟨"t", oneAccount_live⟩, ⟨⟨some "h0", some "k0"⟩, ⟨some "h1", some "k1"⟩, rfl, ?_, ?_⟩, ?_⟩
  · decide
  · decide
  · refine (goTogether_iff_not_partsThem ownPatch ?_).mpr (.inr ?_)
    · intro account haccount
      obtain rfl : (⟨some "h0", some "k0"⟩ : Account) = account := Option.some.inj haccount
      decide
    · rintro ⟨-, -, -, hfinds, -⟩
      exact Bool.noConfusion hfinds

end Refused

end Auth

end LazyPock
