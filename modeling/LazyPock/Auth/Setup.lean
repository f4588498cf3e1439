import Mathlib.Data.Fintype.Basic
import Mathlib.Data.List.Infix
import LazyPock.Core.Error
import LazyPock.Machine.Sessions

/-!
# The first superuser

The three ways to create a superuser: `POST /api/superusers/setup` of `crates/api/src/superusers.rs`,
`bootstrap_superuser` and `superuser_create` of `crates/app/src/main.rs`, all through `create` of
`crates/auth/src/superuser.rs`. The first two count the accounts under the advisory lock `SETUP_LOCK`
and create one only where there is none; the command inserts outside of a transaction and without the
lock, so it may come between the count and the commit of either.

The migrations that the command runs first are those of `Schema.Migrations`; the hash of a
password, the token of the log-in after a setup and `lower` of the database are parameters.

## Main definitions

* `Setup.normaliseEmail`, `Setup.create`.
* `Setup.Store`, `Setup.Statement`, `Setup.host`: the server.
* `Setup.setup`, `Setup.bootstrapSuperuser`, `Setup.superuserCreate`.

## Main results

* `Setup.meets`: the programs meet the agreement of the setup lock.
* `setup_first_iff`, `setup_second`.
-/

namespace LazyPock.Setup

open Machine Text

/-! ### Data -/

/-- A row of `_superusers`. -/
structure Superuser where
  id : String
  email : String
  passwordHash : String
  tokenKey : String
deriving DecidableEq

/-- What is generated for a new account: its id, the salt of its password and its token key. -/
structure Generated where
  id : String
  salt : String
  tokenKey : Result String
deriving DecidableEq

/-- What the programs use of others. -/
structure Env where
  /-- argon2id with a salt. -/
  argon2 : (salt password : String) → Result String
  /-- The log-in that follows a setup: its token. -/
  authenticate : (email password : String) → Result String

/-- What the server keeps: the accounts in the order in which they were committed, the session that
holds the setup lock, and for each session the rows of its open transaction and whether it is still there.

Two fields are history: the accounts that were committed by a transaction, and for each session those
that were inserted outside of one since it last counted. -/
structure Store (ι : Type) where
  superusers : List Superuser
  lock : Option ι
  txn : ι → Option (List Superuser)
  alive : ι → Bool
  claimed : List Superuser
  joined : ι → List Superuser

/-! ### The server -/

/-- The statements of the programs. -/
inductive Statement where
  | transaction
  | setupLock
  | count
  | insert (account : Superuser)
  | commit
  | rollback
deriving DecidableEq

/-- What a statement answers. -/
abbrev Reply : Statement → Type
  | .count => ℕ
  | .insert _ => Superuser
  | _ => Unit

/-- `db_error` -/
def failure (_ : Statement) (text : String) : Error := .internal ("database error " ++ text)

/-- How `create` reports an address that is taken. -/
def emailTaken (email : String) : Error :=
  .conflict ("a superuser with the email " ++ debug email ++ " already exists")

variable {ι : Type} [DecidableEq ι]

namespace Store

def setTxn (s : Store ι) (i : ι) (txn : Option (List Superuser)) : Store ι :=
  { s with txn := Function.update s.txn i txn }

/-- A transaction is over: what it held is released. -/
def endTxn (s : Store ι) (i : ι) : Store ι :=
  { s.setTxn i none with lock := if s.lock = some i then none else s.lock }

/-- A session ends. -/
def die (s : Store ι) (i : ι) : Store ι :=
  { s.endTxn i with alive := Function.update s.alive i false }

end Store

section Server

variable (lower : String → String)

/-- Two accounts that the primary key or the index on `lower(email)` keep apart. -/
def clash (a b : Superuser) : Bool := a.id = b.id || lower a.email = lower b.email

/-- A statement that waits for another session: for the lock, or for the end of a transaction that has
inserted the same key. -/
def Waits (i : ι) : Statement → Store ι → Prop
  | .setupLock, s => ∃ j, j ≠ i ∧ s.lock = some j
  | .insert account, s => ∃ j, j ≠ i ∧ ((s.txn j).any fun rows => rows.any (clash lower account)) = true
  | _, _ => False

/-- A statement that is run, at the isolation level `READ COMMITTED`. A lock that is taken outside of a
transaction is released at once. -/
@[grind =]
def perform (i : ι) : (s : Statement) → Store ι → Except Error (Reply s) × Store ι
  | .transaction, s => (.ok (), s.setTxn i (some ((s.txn i).getD [])))
  | .setupLock, s => (.ok (), { s with lock := if (s.txn i).isSome then some i else s.lock })
  | .count, s =>
    (.ok (s.superusers ++ (s.txn i).getD []).length,
      { s with joined := Function.update s.joined i [] })
  | .insert account, s =>
    if (s.superusers ++ (s.txn i).getD []).any (clash lower account) then
      (.error (emailTaken account.email), s)
    else
      match s.txn i with
      | some rows => (.ok account, s.setTxn i (some (rows ++ [account])))
      | none =>
        (.ok account, { s with
          superusers := s.superusers ++ [account]
          joined := fun j => s.joined j ++ [account] })
  | .commit, s =>
    (.ok (), { s.endTxn i with
      superusers := s.superusers ++ (s.txn i).getD []
      claimed := s.claimed ++ (s.txn i).getD [] })
  | .rollback, s => (.ok (), s.endTxn i)

/-- What is left of a statement the server refuses: a commit that fails has rolled back. -/
def refuse (i : ι) : Statement → Store ι → Store ι
  | .commit, s => s.endTxn i
  | _, s => s

/-- The server, as the programs use it. -/
def host : Host ι (Store ι) Statement Reply Error where
  alive := Store.alive
  Waits := Waits lower
  perform := perform lower
  Refusable s := s ≠ .rollback
  refuse := refuse
  die := Store.die
  failure := failure

end Server

/-! ### The programs -/

/-- A program that works on `_superusers`. -/
abbrev Program (α : Type) : Type := Task Statement Reply Error α

/-- One statement of a program. -/
abbrev query (s : Statement) : Program (Reply s) := Task.statement s

/-- The error for an address that is none. -/
def invalidEmail (email : String) : Error := .invalid (debug email ++ " is not a valid email address")

/-- `normalise_email` -/
def normaliseEmail (email : String) : Result String :=
  let email := toAsciiLowercase (trim email)
  if email = "" || !contains "@" email || 320 < byteLen email || email.toList.any isWhitespace then
    .error (invalidEmail email)
  else
    match splitOnce '@' email with
    | none => .error (invalidEmail email)
    | some (user, domain) =>
      if user = "" || !contains "." domain || startsWith "." domain || endsWith "." domain then
        .error (invalidEmail email)
      else .ok email

/-- `MIN_PASSWORD_LEN` of `crates/auth/src/password.rs`, in bytes. -/
def minPasswordLen : ℕ := 8

/-- `MIN_PASSWORD` of `crates/api/src/superusers.rs`, in characters. -/
def minPassword : ℕ := 8

/-- The error for a password that is too short. -/
def shortPassword : Error := .invalid "the password must be at least 8 characters"

section Programs

variable (env : Env)

/-- `password::hash` -/
def hash (salt password : String) : Result String :=
  if byteLen password < minPasswordLen then .error shortPassword else env.argon2 salt password

/-- Create a superuser. -/
def create (email pass : String) (made : Generated) : Program Superuser := do
  let email ← Task.lift (normaliseEmail email)
  let passwordHash ← Task.lift (hash env made.salt pass)
  let tokenKey ← Task.lift made.tokenKey
  query (.insert ⟨made.id, email, passwordHash, tokenKey⟩)

/-- What a program gets. -/
inductive Answer where
  /-- A setup: the token of the log-in. -/
  | token (token : String)
  /-- A boot: the account, where it made one. -/
  | booted (account : Option Superuser)
  /-- The command. -/
  | account (account : Superuser)
deriving DecidableEq

/-- `POST /api/superusers/setup`: a transaction that is dropped rolls back. -/
def setup (email password : String) (made : Generated) : Program Answer :=
  let email := trim email
  if email = "" || !contains "@" email then
    Task.lift (.error (.invalid "a valid email address is required"))
  else if password.length < minPassword then Task.lift (.error shortPassword)
  else do
    query .transaction
    let _ ← Task.onError (do
      query .setupLock
      let existing ← query .count
      if 0 < existing then
        Task.lift (.error (.forbidden
          "this installation already has a superuser; log in instead of setting up"))
      else create env email password made) (query .rollback)
    query .commit
    let token ← Task.lift (env.authenticate email password)
    return .token token

/-- A non-empty environment variable. -/
def environmentVariable (value : Option String) : Option String :=
  (value.map trim).filter fun value => value ≠ ""

/-- Half a pair of the boot variables. -/
def halfPair (isSet isNotSet : String) : Error :=
  .config (isSet ++ " is set but " ++ isNotSet ++
    " is not; set both to create the first superuser, or neither")

/-- `bootstrap_superuser`: the variables are ignored where there is an account. -/
def bootstrapSuperuser (email password : Option String) (made : Generated) : Program Answer :=
  match environmentVariable email, environmentVariable password with
  | none, none => return .booted none
  | some _, none =>
    Task.lift (.error (halfPair "LAZYPOCK_SUPERUSER_EMAIL" "LAZYPOCK_SUPERUSER_PASSWORD"))
  | none, some _ =>
    Task.lift (.error (halfPair "LAZYPOCK_SUPERUSER_PASSWORD" "LAZYPOCK_SUPERUSER_EMAIL"))
  | some email, some password => do
    query .transaction
    let created ← Task.onError (do
      query .setupLock
      let existing ← query .count
      if 0 < existing then return none
      else
        let account ← create env email password made
        return some account) (query .rollback)
    match created with
    | none =>
      let _ ← (query .rollback).attempt
      return .booted none
    | some account =>
      query .commit
      return .booted (some account)

/-- `lazypock superuser create` -/
def superuserCreate (email password : String) (made : Generated) : Program Answer := do
  let account ← create env email password made
  return .account account

/-- What may be asked for. -/
inductive Op where
  | setup (email password : String) (made : Generated)
  | bootstrap (email password : Option String) (made : Generated)
  | command (email password : String) (made : Generated)
deriving DecidableEq

/-- The programs. -/
def code : Op → Program Answer
  | .setup email password made => setup env email password made
  | .bootstrap email password made => bootstrapSuperuser env email password made
  | .command email password made => superuserCreate env email password made

end Programs

/-! ### What the lock is for -/

section Agreement

/-- What holds between any two statements, from the accounts `S₀` on. -/
structure Inv (S₀ : List Superuser) (s : Store ι) : Prop where
  grown : S₀ <+: s.superusers
  claimed : s.claimed ⊆ s.superusers
  once : s.claimed.length ≤ 1
  first : S₀ ≠ [] → s.claimed = []

/-- What a session relies on: as long as it is there its transaction is its own; and while it holds the
setup lock, accounts are only added to those it counted, and by no transaction. -/
def Rely (i : ι) (a b : Store ι) : Prop :=
  b.alive i = true → a.alive i = true ∧ b.txn i = a.txn i ∧ (a.lock = some i → b.lock = some i ∧
    b.claimed = a.claimed ∧ ∃ more, b.superusers = a.superusers ++ more ∧
      b.joined i = a.joined i ++ more)

omit [DecidableEq ι] in
theorem Rely.refl (i : ι) (a : Store ι) : Rely i a a :=
  fun halive => ⟨halive, rfl, fun hlock => ⟨hlock, rfl, [], (List.append_nil _).symm,
    (List.append_nil _).symm⟩⟩

omit [DecidableEq ι] in
theorem Rely.trans {i : ι} {a b c : Store ι} (hab : Rely i a b) (hbc : Rely i b c) : Rely i a c := by
  intro halive
  obtain ⟨halive', htxn', hlocked'⟩ := hbc halive
  obtain ⟨halive, htxn, hlocked⟩ := hab halive'
  refine ⟨halive, htxn'.trans htxn, fun hlock => ?_⟩
  obtain ⟨hlock, hclaimed, more, hmore, hjoined⟩ := hlocked hlock
  obtain ⟨hlock', hclaimed', more', hmore', hjoined'⟩ := hlocked' hlock
  exact ⟨hlock', hclaimed'.trans hclaimed, more ++ more', by rw [hmore', hmore, List.append_assoc],
    by rw [hjoined', hjoined, List.append_assoc]⟩

/-- What the programs keep together. A commit is the first exactly where no account joined. -/
def agreement (S₀ : List Superuser) : Agreement ι (Store ι) Statement where
  Inv := Inv S₀
  Rely := Rely
  Check i s a := s = .commit → a.alive i = true → (a.superusers = [] ↔ a.joined i = [])
  refl := Rely.refl
  trans := Rely.trans

/-- A session that may begin: it has no transaction open. -/
def Ready (i : ι) (s : Store ι) : Prop := s.alive i = true → s.txn i = none

/-- A session in a transaction that has only begun. -/
def Begun (i : ι) (s : Store ι) : Prop := s.alive i = true → s.txn i = some []

/-- A session that holds the setup lock, and has inserted nothing. -/
def Locked (i : ι) (s : Store ι) : Prop := s.alive i = true → s.txn i = some [] ∧ s.lock = some i

/-- A session that has counted no account under the lock, with what it has inserted. -/
def Deciding (S₀ : List Superuser) (i : ι) (rows : List Superuser) (s : Store ι) : Prop :=
  s.alive i = true → S₀ = [] ∧ s.txn i = some rows ∧ s.lock = some i ∧
    s.superusers = s.joined i ∧ s.claimed = []

variable {lower : String → String} {S₀ : List Superuser} {i : ι} {a b : Store ι}

omit [DecidableEq ι] in
theorem Ready.later (h : Ready i a) (hrely : Rely i a b) : Ready i b := fun halive =>
  (hrely halive).2.1.trans (h (hrely halive).1)

omit [DecidableEq ι] in
theorem Begun.later (h : Begun i a) (hrely : Rely i a b) : Begun i b := fun halive =>
  (hrely halive).2.1.trans (h (hrely halive).1)

omit [DecidableEq ι] in
theorem Locked.later (h : Locked i a) (hrely : Rely i a b) : Locked i b := by
  intro halive
  obtain ⟨halive', htxn, hlocked⟩ := hrely halive
  obtain ⟨hbegun, hlock⟩ := h halive'
  exact ⟨htxn.trans hbegun, (hlocked hlock).1⟩

omit [DecidableEq ι] in
theorem Deciding.later {rows : List Superuser} (h : Deciding S₀ i rows a) (hrely : Rely i a b) :
    Deciding S₀ i rows b := by
  intro halive
  obtain ⟨halive', htxn, hlocked⟩ := hrely halive
  obtain ⟨hold, hrows, hlock, hcounted, hclaimed⟩ := h halive'
  obtain ⟨hlock', hclaimed', more, hmore, hjoined⟩ := hlocked hlock
  exact ⟨hold, htxn.trans hrows, hlock', by rw [hmore, hjoined, hcounted], hclaimed'.trans hclaimed⟩

/-- The end of a transaction does not touch the others. -/
theorem endTxn_rely (a : Store ι) {i j : ι} (hj : j ≠ i) : Rely j a (a.endTxn i) := by
  intro halive
  refine ⟨halive, Function.update_of_ne hj _ _, fun hlock => ⟨?_, rfl, [], (List.append_nil _).symm,
    (List.append_nil _).symm⟩⟩
  have hne : a.lock ≠ some i := fun h => hj (Option.some.inj (hlock.symm.trans h))
  simp only [Store.endTxn, if_neg hne]
  exact hlock

/-- A session that ends leaves the others what they rely on. -/
theorem survives : (host lower : Host ι (Store ι) Statement Reply Error).Survives (agreement S₀) where
  dies _ _ := Function.update_self ..
  inv _ _ h := ⟨h.grown, h.claimed, h.once, h.first⟩
  rely a i j := by
    intro halive
    have hj : j ≠ i := by
      rintro rfl
      simp [host, Store.die] at halive
    have halive' : a.alive j = true := by simpa [host, Store.die, Function.update_of_ne hj] using halive
    exact endTxn_rely a hj halive'

/-! ### Statements -/

theorem setTxn_rely (a : Store ι) {i j : ι} (hj : j ≠ i) (txn : Option (List Superuser)) :
    Rely j a (a.setTxn i txn) :=
  fun halive => ⟨halive, Function.update_of_ne hj _ _, fun hlock => ⟨hlock, rfl, [],
    (List.append_nil _).symm, (List.append_nil _).symm⟩⟩

/-- What is asked of a program: to end in a state where its session may begin anew. -/
abbrev Keeps (lower : String → String) (S₀ : List Superuser) (i : ι) {α : Type}
    (post : Except Error α → Store ι → Prop) (t : Program α) (a : Store ι) : Prop :=
  (agreement S₀).Valid (host lower).Exec i post t a

theorem keeps_transaction (h : Ready i a) :
    Keeps lower S₀ i (fun r b => match r with
      | .ok _ => Begun i b
      | .error _ => Ready i b) (query .transaction) a := by
  refine .request (s := .transaction) survives (P := fun b => b.txn i = none) (fun _ _ _ => nofun)
    (fun b hrely _ halive => h.later hrely halive) (fun b hinv halive htxn _ => ?_)
    (fun b text hinv halive htxn _ => ?_) (fun b text hdead halive => ?_) fun r b c hpost hrely _ => ?_
  · refine ⟨⟨hinv.grown, hinv.claimed, hinv.once, hinv.first⟩, fun j hj => setTxn_rely b hj _,
      fun _ => ?_⟩
    simp only [host, perform, htxn, Option.getD_none]
    exact Function.update_self ..
  · exact ⟨hinv, fun j _ => Rely.refl j b, fun _ => htxn⟩
  · exact absurd (hdead.symm.trans halive) Bool.false_ne_true
  · cases r with
    | ok _ => exact Begun.later hpost hrely
    | error e => exact Ready.later hpost hrely

/-- Taking the lock inside a transaction: nobody else holds it until that ends. -/
theorem keeps_setupLock (h : Begun i a) :
    Keeps lower S₀ i (fun r b => match r with
      | .ok _ => Locked i b
      | .error _ => True) (query .setupLock) a := by
  refine .request (s := .setupLock) survives (P := fun b => b.txn i = some []) (fun _ _ _ => nofun)
    (fun b hrely _ halive => h.later hrely halive) (fun b hinv halive htxn hwaits => ?_)
    (fun b text hinv halive htxn _ => ?_) (fun b text hdead => trivial) fun r b c hpost hrely _ => ?_
  · refine ⟨⟨hinv.grown, hinv.claimed, hinv.once, hinv.first⟩, fun j hj halive' => ?_, fun _ => ?_⟩
    · exact ⟨halive', rfl, fun hlock => absurd ⟨j, hj, hlock⟩ hwaits⟩
    · simp only [host, perform, htxn, Option.isSome_some, ↓reduceIte, and_self]
  · exact ⟨hinv, fun j _ => Rely.refl j b, trivial⟩
  · cases r with
    | ok _ => exact Locked.later hpost hrely
    | error e => trivial

omit [DecidableEq ι] in
/-- Where there is no account, there never was one. -/
theorem Inv.of_empty (h : Inv S₀ a) (hempty : a.superusers = []) : S₀ = [] ∧ a.claimed = [] := by
  have hgrown := h.grown
  have hclaimed := h.claimed
  rw [hempty] at hgrown hclaimed
  exact ⟨List.prefix_nil.mp hgrown, List.subset_nil.mp hclaimed⟩

/-- Counting under the lock: from zero on, only accounts that join are there. -/
theorem keeps_count (h : Locked i a) :
    Keeps lower S₀ i (fun r b => match r with
      | .ok n => n = 0 → Deciding S₀ i [] b
      | .error _ => True) (query .count) a := by
  refine .request (s := .count) survives (P := fun b => b.txn i = some [] ∧ b.lock = some i)
    (fun _ _ _ => nofun)
    (fun b hrely _ halive => h.later hrely halive) (fun b hinv halive hP hwaits => ?_)
    (fun b text hinv halive hP _ => ?_) (fun b text hdead => trivial) fun r b c hpost hrely _ => ?_
  · obtain ⟨htxn, hlock⟩ := hP
    refine ⟨⟨hinv.grown, hinv.claimed, hinv.once, hinv.first⟩, fun j hj halive' => ?_,
      fun hzero _ => ?_⟩
    · exact ⟨halive', rfl, fun hlock' => ⟨hlock', rfl, [], (List.append_nil _).symm,
        by simp [host, perform, Function.update_of_ne hj]⟩⟩
    · have hempty : b.superusers = [] := by
        simpa [htxn] using List.eq_nil_of_length_eq_zero hzero
      obtain ⟨hold, hclaimed⟩ := hinv.of_empty hempty
      exact ⟨hold, htxn, hlock, by simp [host, perform, hempty], hclaimed⟩
  · exact ⟨hinv, fun j _ => Rely.refl j b, trivial⟩
  · cases r with
    | ok n => exact fun hzero => (hpost hzero).later hrely
    | error e => trivial

/-- Inserting in the transaction that has counted. -/
theorem keeps_insert (account : Superuser) (h : Deciding S₀ i [] a) :
    Keeps lower S₀ i (fun r b => match r with
      | .ok u => Deciding S₀ i [u] b
      | .error _ => True) (query (.insert account)) a := by
  refine .request (s := .insert account) survives
    (P := fun b => b.alive i = true ∧ Deciding S₀ i [] b) (fun _ _ _ => nofun)
    (fun b hrely _ halive => ⟨halive, h.later hrely⟩) (fun b hinv _ hP hwaits => ?_)
    (fun b text hinv _ hP _ => ?_) (fun b text hdead => trivial) fun r b c hpost hrely _ => ?_
  · obtain ⟨halive, hdeciding⟩ := hP
    obtain ⟨hold, htxn, hlock, hcounted, hclaimed⟩ := hdeciding halive
    simp only [host, perform, htxn]
    split_ifs
    · exact ⟨hinv, fun j _ => Rely.refl j b, trivial⟩
    · exact ⟨⟨hinv.grown, hinv.claimed, hinv.once, hinv.first⟩, fun j hj => setTxn_rely b hj _,
        fun _ => ⟨hold, Function.update_self .., hlock, hcounted, hclaimed⟩⟩
  · exact ⟨hinv, fun j _ => Rely.refl j b, trivial⟩
  · cases r with
    | ok u => exact Deciding.later hpost hrely
    | error e => trivial

/-- **The commit**: the account is the first one a transaction commits. -/
theorem keeps_commit {account : Superuser} (h : Deciding S₀ i [account] a) :
    Keeps lower S₀ i (fun _ b => Ready i b) (query .commit) a := by
  refine .request (s := .commit) survives (P := fun b => b.alive i = true ∧ Deciding S₀ i [account] b)
    (fun b hrely _ _ halive => ?_)
    (fun b hrely _ halive => ⟨halive, h.later hrely⟩) (fun b hinv _ hP hwaits => ?_)
    (fun b text hinv _ hP _ => ?_) (fun b text hdead halive => ?_) fun r b c hpost hrely _ => ?_
  · obtain ⟨-, -, -, hcounted, -⟩ := h.later hrely halive
    rw [hcounted]
  · obtain ⟨halive, hdeciding⟩ := hP
    obtain ⟨rfl, htxn, hlock, -, hclaimed⟩ := hdeciding halive
    have hperform : (perform lower i .commit b).2 = { b.endTxn i with
        superusers := b.superusers ++ [account], claimed := [account] } := by
      simp only [perform, htxn, Option.getD_some, hclaimed, List.nil_append]
    refine ⟨?_, fun j hj => ?_, ?_⟩
    · rw [show (host lower).perform i .commit b = perform lower i .commit b from rfl, hperform]
      exact ⟨List.nil_prefix, by simp, by simp, fun hne => absurd rfl hne⟩
    · rw [show (host lower).perform i .commit b = perform lower i .commit b from rfl, hperform]
      refine fun halive' => ⟨halive', Function.update_of_ne hj _ _, fun hlock' => ?_⟩
      exact absurd (Option.some.inj (hlock'.symm.trans hlock)) hj
    · exact fun _ => Function.update_self ..
  · exact ⟨⟨hinv.grown, hinv.claimed, hinv.once, hinv.first⟩, fun j hj => endTxn_rely b hj,
      fun _ => Function.update_self ..⟩
  · exact absurd (hdead.symm.trans halive) Bool.false_ne_true
  · exact Ready.later hpost hrely

theorem keeps_rollback (a : Store ι) :
    Keeps lower S₀ i (fun _ b => Ready i b) (query .rollback) a := by
  refine .request (s := .rollback) survives (P := fun _ => True) (fun _ _ _ => nofun)
    (fun _ _ _ _ => trivial)
    (fun b hinv _ _ _ => ?_) (fun b text _ _ _ hs => absurd rfl hs) (fun b text hdead halive => ?_)
    fun r b c hpost hrely _ => Ready.later hpost hrely
  · exact ⟨⟨hinv.grown, hinv.claimed, hinv.once, hinv.first⟩, fun j hj => endTxn_rely b hj,
      fun _ => Function.update_self ..⟩
  · exact absurd (hdead.symm.trans halive) Bool.false_ne_true

/-- Inserting outside of a transaction: the account joins those that anyone has counted. -/
theorem keeps_command (account : Superuser) (h : Ready i a) :
    Keeps lower S₀ i (fun _ b => Ready i b) (query (.insert account)) a := by
  refine .request (s := .insert account) survives (P := fun b => b.txn i = none) (fun _ _ _ => nofun)
    (fun b hrely _ halive => h.later hrely halive) (fun b hinv halive htxn _ => ?_)
    (fun b text hinv halive htxn _ => ⟨hinv, fun j _ => Rely.refl j b, fun _ => htxn⟩)
    (fun b text hdead halive => ?_) fun r b c hpost hrely _ => Ready.later hpost hrely
  · simp only [host, perform, htxn]
    split_ifs
    · exact ⟨hinv, fun j _ => Rely.refl j b, fun _ => htxn⟩
    · refine ⟨⟨hinv.grown.trans (List.prefix_append _ _), fun u hu => ?_, hinv.once, hinv.first⟩,
        fun j _ halive' => ⟨halive', rfl, fun hlock => ⟨hlock, rfl, [account], rfl, rfl⟩⟩,
        fun _ => htxn⟩
      exact List.mem_append_left _ (hinv.claimed hu)
  · exact absurd (hdead.symm.trans halive) Bool.false_ne_true

/-! ### Programs -/

section Programs

variable {env : Env} {email password : String} {made : Generated}

/-- An account is made by one insert, or by nothing. -/
theorem keeps_create {P : Store ι → Prop} {post : Except Error Superuser → Store ι → Prop} (hP : P a)
    (hlater : ∀ b c, P b → Rely i b c → P c) (herror : ∀ e b, P b → post (.error e) b)
    (hinsert : ∀ account b, P b → Keeps lower S₀ i post (query (.insert account)) b) :
    Keeps lower S₀ i post (create env email password made) a := by
  refine .bind (.lift fun b hb _ => ?_)
  have hb : P b := hlater a b hP hb
  cases normaliseEmail email with
  | error e => exact herror e b hb
  | ok email =>
    refine .bind (.lift fun c hc _ => ?_)
    have hc : P c := hlater b c hb hc
    cases hash env made.salt password with
    | error e => exact herror e c hc
    | ok passwordHash =>
      refine .bind (.lift fun d hd _ => ?_)
      have hd : P d := hlater c d hc hd
      cases made.tokenKey with
      | error e => exact herror e d hd
      | ok tokenKey => exact hinsert _ d hd

/-- Making an account in the transaction that has counted none. -/
theorem keeps_create_deciding (h : Deciding S₀ i [] a) :
    Keeps lower S₀ i (fun r b => match r with
      | .ok u => Deciding S₀ i [u] b
      | .error _ => True) (create env email password made) a :=
  keeps_create h (fun _ _ h hrely => h.later hrely) (fun _ _ _ => trivial)
    fun account _ h => keeps_insert account h

/-- **The lock and the count**: what follows may rely on there being no account but those that join. -/
theorem keeps_counted {α : Type} {post : Except Error α → Store ι → Prop} {t : ℕ → Program α}
    (h : Begun i a) (herror : ∀ e b, post (.error e) b)
    (ht : ∀ n b, (n = 0 → Deciding S₀ i [] b) → Keeps lower S₀ i post (t n) b) :
    Keeps lower S₀ i post (do query .setupLock; let existing ← query .count; t existing) a := by
  refine .bind ((keeps_setupLock h).imp fun r b hinv hpost => ?_)
  have hpost := hpost b (Rely.refl i b) hinv
  cases r with
  | error e => exact herror e b
  | ok _ =>
    refine .bind ((keeps_count hpost).imp fun r c hinv hpost => ?_)
    have hpost := hpost c (Rely.refl i c) hinv
    cases r with
    | error e => exact herror e c
    | ok n => exact ht n c hpost

theorem keeps_setup (h : Ready i a) :
    Keeps lower S₀ i (fun _ b => Ready i b) (setup env email password made) a := by
  have hlift : ∀ o : Result Answer, Keeps lower S₀ i (fun _ b => Ready i b) (Task.lift o) a :=
    fun o => .lift fun b hrely _ => h.later hrely
  unfold setup
  dsimp only
  split_ifs
  · exact hlift _
  · exact hlift _
  refine .bind ((keeps_transaction h).imp fun r b hinv hpost => ?_)
  have hpost := hpost b (Rely.refl i b) hinv
  cases r with
  | error e => exact hpost
  | ok _ =>
    have hbody : Keeps lower S₀ i (fun r c => match r with
        | .ok u => Deciding S₀ i [u] c
        | .error _ => True) (do
          query .setupLock
          let existing ← query .count
          if 0 < existing then
            Task.lift (.error (.forbidden
              "this installation already has a superuser; log in instead of setting up"))
          else create env (trim email) password made) b := by
      refine keeps_counted hpost (fun _ _ => trivial) fun n c hcounted => ?_
      split_ifs with hpos
      · exact .lift fun _ _ _ => trivial
      · exact keeps_create_deciding (hcounted (Nat.eq_zero_of_not_pos hpos))
    refine .bind (.onError (hbody.imp fun r c hinv hpost => ?_))
    have hpost := hpost c (Rely.refl i c) hinv
    cases r with
    | error e => exact keeps_rollback c
    | ok u =>
      refine .bind ((keeps_commit hpost).imp fun r d hinv hpost => ?_)
      have hpost := hpost d (Rely.refl i d) hinv
      cases r with
      | error e => exact hpost
      | ok _ =>
        refine .bind (.lift fun f hf _ => ?_)
        have hf := hpost.later hf
        cases env.authenticate (trim email) password with
        | error e => exact hf
        | ok token => exact .pure fun g hg _ => hf.later hg

/-- A boot that makes an account is deciding on it. -/
def BootMade (S₀ : List Superuser) (i : ι) : Except Error (Option Superuser) → Store ι → Prop
  | .ok (some u), s => Deciding S₀ i [u] s
  | _, _ => True

theorem keeps_bootstrapSuperuser {email password : Option String} (h : Ready i a) :
    Keeps lower S₀ i (fun _ b => Ready i b) (bootstrapSuperuser env email password made) a := by
  have hlift : ∀ o : Result Answer, Keeps lower S₀ i (fun _ b => Ready i b) (Task.lift o) a :=
    fun o => .lift fun b hrely _ => h.later hrely
  unfold bootstrapSuperuser
  split
  · exact hlift _
  · exact hlift _
  · exact hlift _
  next email password _ _ =>
  refine .bind ((keeps_transaction h).imp fun r b hinv hpost => ?_)
  have hpost := hpost b (Rely.refl i b) hinv
  cases r with
  | error e => exact hpost
  | ok _ =>
    have hbody : Keeps lower S₀ i (BootMade S₀ i) (do
        query .setupLock
        let existing ← query .count
        if 0 < existing then return none
        else
          let account ← create env email password made
          return some account) b := by
      refine keeps_counted hpost (fun _ _ => trivial) fun n c hcounted => ?_
      split_ifs with hpos
      · exact .pure fun _ _ _ => trivial
      · have hcreate : Keeps lower S₀ i _ (create env email password made) c :=
          keeps_create_deciding (hcounted (Nat.eq_zero_of_not_pos hpos))
        refine .bind (hcreate.imp fun r d hinv hpost => ?_)
        cases r with
        | error e => exact trivial
        | ok u => exact .pure fun f hf hinv => hpost f hf hinv
    refine .bind (.onError (hbody.imp fun r c hinv hpost => ?_))
    have hpost := hpost c (Rely.refl i c) hinv
    cases r with
    | error e => exact keeps_rollback c
    | ok account =>
      cases account with
      | none =>
        refine .bind (.attempt ((keeps_rollback c).imp fun r d hinv hpost => ?_))
        exact .pure fun f hf hinv => hpost f hf hinv
      | some u =>
        have hdeciding : Deciding S₀ i [u] c := hpost
        refine .bind ((keeps_commit hdeciding).imp fun r d hinv hpost => ?_)
        cases r with
        | error e => exact hpost d (Rely.refl i d) hinv
        | ok _ => exact .pure fun f hf hinv => hpost f hf hinv

theorem keeps_superuserCreate (h : Ready i a) :
    Keeps lower S₀ i (fun _ b => Ready i b) (superuserCreate env email password made) a := by
  have hcreate : Keeps lower S₀ i (fun _ b => Ready i b) (create env email password made) a :=
    keeps_create h (fun _ _ h hrely => h.later hrely) (fun _ _ h => h)
      fun account _ h => keeps_command account h
  refine .bind (hcreate.imp fun r b hinv hpost => ?_)
  cases r with
  | error e => exact hpost b (Rely.refl i b) hinv
  | ok u => exact .pure fun c hc hinv => hpost c hc hinv

/-- **The programs keep the agreement of the setup lock.** -/
theorem meets (lower : String → String) (env : Env) (S₀ : List Superuser) :
    Agreement.Meets (agreement S₀) (host lower : Host ι (Store ι) Statement Reply Error).Exec Ready
      (fun _ i _ s => Ready i s) (code env) (host lower).Ends where
  valid p i a _ hready := by
    cases p with
    | setup email password made => exact keeps_setup hready
    | bootstrap email password made => exact keeps_bootstrapSuperuser hready
    | command email password made => exact keeps_superuserCreate hready
  ready _ _ _ _ _ hpost := hpost
  keeps _ _ _ hready hrely _ := hready.later hrely
  other _ _ hends hinv := by
    obtain ⟨i, rfl⟩ := hends
    exact ⟨survives.inv _ i hinv, survives.rely _ i⟩

end Programs

/-! ### Runs -/

/-- Nothing has begun yet, on an installation of any age. -/
structure Fresh (w : World ι (Store ι) Op Statement Reply Error Answer) : Prop where
  idle : ∀ i, w.threads i = .idle
  txn : ∀ i, w.state.txn i = none
  claimed : w.state.claimed = []

theorem Fresh.sound {w : World ι (Store ι) Op Statement Reply Error Answer} (h : Fresh w) :
    Agreement.Sound (agreement w.state.superusers) (host lower).Exec Ready
      (fun _ i _ s => Ready i s) w where
  inv := {
    grown := List.prefix_rfl
    claimed := by rw [h.claimed]; exact List.nil_subset _
    once := by rw [h.claimed]; exact Nat.zero_le 1
    first := fun _ => h.claimed }
  holds i := by
    rw [h.idle i]
    exact fun _ => h.txn i

end Agreement

end LazyPock.Setup

namespace LazyPock

open Machine Setup

/-- **When a setup or a boot creates the first superuser.** Whatever the interleaving of setups, boots
and commands, wherever one of the first two is about to commit an account there is no other, exactly
where no command has inserted one since it counted. At most one account is committed by a setup or a
boot, and none on an installation that had one at the start. -/
theorem setup_first_iff {ι : Type} [DecidableEq ι] {lower : String → String} {env : Env}
    {w₀ w : World ι (Store ι) Op Statement Reply Error Answer} {es : List (Occurrence ι Op)}
    (hfresh : Fresh w₀)
    (hrun : Run (World.Step (code env) (host lower).Exec (host lower).Ends) w₀ es w) :
    (∀ i p, (w.threads i).asked = some (p, .commit) → w.state.alive i = true →
      (w.state.superusers = [] ↔ w.state.joined i = [])) ∧
    w.state.claimed.length ≤ 1 ∧ (w₀.state.superusers ≠ [] → w.state.claimed = []) := by
  have hsound := Agreement.Sound.run (meets lower env w₀.state.superusers) hfresh.sound hrun
  exact ⟨fun i p hasked => hsound.check_of_asked hasked rfl, hsound.inv.once, hsound.inv.first⟩

section Race

instance decidableSetupWaits (lower : String → String) (i : Bool) (s : Statement) (a : Store Bool) :
    Decidable ((host lower).Waits i s a) := by
  cases s <;> unfold host Waits <;> infer_instance

/-- Programs that hash a password by writing the salt before it. -/
def plainEnv : Env := ⟨fun salt password => .ok (salt ++ password), fun email _ => .ok email⟩

/-- A new installation, with two sessions. -/
def newInstallation : World Bool (Store Bool) Op Statement Reply Error Answer :=
  ⟨⟨[], none, fun _ => none, fun _ => true, [], fun _ => []⟩, fun _ => .idle⟩

theorem fresh_newInstallation : Fresh newInstallation := ⟨fun _ => rfl, fun _ => rfl, rfl⟩

/-- A setup for one address, and a command for another. -/
def raceSetup : Op := .setup "first@example.com" "password1" ⟨"a", "s", .ok "k"⟩

def raceCommand : Op := .command "second@example.com" "password2" ⟨"b", "s", .ok "k"⟩

/-- A setup that nothing interferes with commits where there is no account. -/
theorem setup_first_alone :
    ∃ es, ∃ w : World Bool (Store Bool) Op Statement Reply Error Answer,
      Run (World.Step (code plainEnv) (host id).Exec (host id).Ends) newInstallation es w ∧
        (w.threads false).asked = some (raceSetup, .commit) ∧ w.state.superusers = [] := by
  have hends : ((exec (World.next (code plainEnv) (host id).answer) newInstallation
      (.begins false raceSetup :: List.replicate 4 (.asks false))).any fun w =>
        (w.threads false).asked = some (raceSetup, .commit) ∧ w.state.alive false = true ∧
          w.state.joined false = []) = true := by decide
  obtain ⟨w, hexec, hobserved⟩ := (Option.any_eq_true _ _).mp hends
  obtain ⟨hasked, halive, hjoined⟩ := of_decide_eq_true hobserved
  have hrun : Run (World.Step (code plainEnv) (host id).Exec (host id).Ends) newInstallation _ w :=
    World.run_of_exec_next Host.exec_of_answer hexec
  exact ⟨_, w, hrun, hasked,
    ((setup_first_iff fresh_newInstallation hrun).1 false _ hasked halive).mpr hjoined⟩

/-- **A setup creates a second superuser**: the command inserts behind the count, and the setup commits
behind it. -/
theorem setup_second :
    ∃ es, ∃ w w' : World Bool (Store Bool) Op Statement Reply Error Answer,
      Run (World.Step (code plainEnv) (host id).Exec (host id).Ends) newInstallation es w ∧
        (w.threads false).asked = some (raceSetup, .commit) ∧ w.state.superusers ≠ [] ∧
        World.Step (code plainEnv) (host id).Exec (host id).Ends w (.asks false) w' ∧
        w'.state.superusers.map (·.email) = ["second@example.com", "first@example.com"] ∧
        w'.state.claimed.map (·.email) = ["first@example.com"] := by
  have hends : ((exec (World.next (code plainEnv) (host id).answer) newInstallation
      (.begins false raceSetup :: List.replicate 3 (.asks false) ++
        [.begins true raceCommand, .asks true, .asks false])).any fun w =>
        decide ((w.threads false).asked = some (raceSetup, .commit) ∧ w.state.superusers ≠ []) &&
          (World.next (code plainEnv) (host id).answer w (.asks false)).any fun w' =>
            w'.state.superusers.map (·.email) = ["second@example.com", "first@example.com"] ∧
              w'.state.claimed.map (·.email) = ["first@example.com"]) = true := by decide
  obtain ⟨w, hexec, hobserved⟩ := (Option.any_eq_true _ _).mp hends
  obtain ⟨hasked, hcommits⟩ := (Bool.and_eq_true _ _).mp hobserved
  obtain ⟨hasked, hother⟩ := of_decide_eq_true hasked
  obtain ⟨w', hstep, hafter⟩ := (Option.any_eq_true _ _).mp hcommits
  obtain ⟨hemails, hclaimed⟩ := of_decide_eq_true hafter
  exact ⟨_, w, w', World.run_of_exec_next Host.exec_of_answer hexec, hasked, hother,
    World.step_of_next Host.exec_of_answer hstep, hemails, hclaimed⟩

end Race

end LazyPock
