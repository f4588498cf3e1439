import Mathlib.Data.Fintype.Basic
import Mathlib.Data.List.Infix
import Mathlib.Data.List.Nodup
import Mathlib.Data.List.Sort
import LazyPock.Core.Error
import LazyPock.Machine.Sessions

/-!
# The migration runner

The runner of `crates/db/src/migrate.rs`, as the program of a session, and the part of the server it
talks to: the ledger, the migrations that have taken effect, the advisory lock and the transaction of
each session. Any number of nodes run it, or ask for the status, at once; a session may end and a node
may crash between any two statements.

The texts of the migrations only appear through their checksums, and the texts of server errors are not
followed.

## Main definitions

* `Migrate.Migration`, `Migrate.LedgerRow`, `Migrate.MigrationReport`.
* `Migrate.Store`, `Migrate.Statement`, `Migrate.perform`,
  `Migrate.host`: the server.
* `Migrate.run`, `Migrate.status`: the programs.

## Main results

* `Migrate.meets`: the runner meets the agreement of the migration lock.
* `migrations_safe`.
-/

namespace LazyPock.Migrate

open Machine List Function

/-! ### Data -/

/-- A single migration compiled into the binary. -/
structure Migration where
  version : Int
  name : String
  sql : String
deriving DecidableEq

/-- A row of `_migrations`. -/
structure LedgerRow where
  version : Int
  name : String
  checksum : String
deriving DecidableEq

/-- Outcome of a migration run. -/
structure MigrationReport where
  applied : List Int := []
  alreadyApplied : List Int := []
deriving DecidableEq

/-- State of a known migration relative to the database. -/
structure MigrationStatus where
  version : Int
  name : String
  applied : Bool
  checksumMatches : Bool
deriving DecidableEq

/-- What a transaction has done that is not committed. -/
structure Txn where
  rows : List LedgerRow
  effects : List Migration
deriving DecidableEq

/-- What the server keeps for the runner: the ledger once it is created, the migrations whose SQL has
taken effect, and for each session how often it holds the lock, its open transaction and whether it
is still there. -/
structure Store (ι : Type) where
  ledger : Option (List LedgerRow)
  effects : List Migration
  held : ι → ℕ
  txn : ι → Option Txn
  alive : ι → Bool

/-! ### The server -/

/-- The statements of the runner. -/
inductive Statement where
  | lock
  | unlock
  | ledgerExists
  | createLedger
  | selectApplied
  | transaction
  | batch (migration : Migration)
  | insertRow (row : LedgerRow)
  | commit
  | rollback
deriving DecidableEq

/-- What a statement answers. -/
abbrev Reply : Statement → Type
  | .ledgerExists => Bool
  | .selectApplied => List LedgerRow
  | _ => Unit

/-- How the runner reports a statement that failed. -/
def failure : Statement → (text : String) → Error
  | .createLedger, text => .internal ("failed to create the migration ledger: " ++ text)
  | .batch m, text =>
    .internal ("migration " ++ toString m.version ++ " (" ++ m.name ++ ") failed: " ++ text)
  | _, text => .internal ("database error " ++ text)

variable {ι : Type} [DecidableEq ι]

namespace Store

/-- The rows of the ledger. -/
def rows (s : Store ι) : List LedgerRow := s.ledger.getD []

def setTxn (s : Store ι) (i : ι) (txn : Option Txn) : Store ι :=
  { s with txn := update s.txn i txn }

def setHeld (s : Store ι) (i : ι) (held : ℕ) : Store ι :=
  { s with held := update s.held i held }

/-- A session ends: its lock is released and its transaction rolled back. -/
def die (s : Store ι) (i : ι) : Store ι :=
  { (s.setTxn i none).setHeld i 0 with alive := update s.alive i false }

end Store

/-- A statement that waits for another session. -/
def Waits (i : ι) : Statement → Store ι → Prop
  | .lock, s => ∃ j, j ≠ i ∧ 0 < s.held j
  | .insertRow row, s =>
    ∃ j, j ≠ i ∧ ((s.txn j).any fun txn => txn.rows.any (·.version = row.version)) = true
  | _, _ => False

/-- A statement that is run. Outside of a transaction it is committed at once. -/
@[grind =]
def perform (i : ι) : (s : Statement) → Store ι → Except Error (Reply s) × Store ι
  | .lock, s => (.ok (), s.setHeld i (s.held i + 1))
  | .unlock, s => (.ok (), s.setHeld i (s.held i - 1))
  | .ledgerExists, s => (.ok s.ledger.isSome, s)
  | .createLedger, s => (.ok (), { s with ledger := some s.rows })
  | .selectApplied, s =>
    match s.ledger with
    | some rows => (.ok (rows.insertionSort fun a b => a.version ≤ b.version), s)
    | none => (.error (failure .selectApplied "42P01"), s)
  | .transaction, s => (.ok (), s.setTxn i (some ((s.txn i).getD ⟨[], []⟩)))
  | .batch m, s =>
    match s.txn i with
    | some txn => (.ok (), s.setTxn i (some { txn with effects := txn.effects ++ [m] }))
    | none => (.ok (), { s with effects := s.effects ++ [m] })
  | .insertRow row, s =>
    match s.ledger with
    | none => (.error (failure (.insertRow row) "42P01"), s)
    | some rows =>
      let txn := (s.txn i).getD ⟨[], []⟩
      if (rows ++ txn.rows).any (·.version = row.version) then
        (.error (failure (.insertRow row) "23505"), s)
      else if s.txn i = none then (.ok (), { s with ledger := some (rows ++ [row]) })
      else (.ok (), s.setTxn i (some { txn with rows := txn.rows ++ [row] }))
  | .commit, s =>
    let txn := (s.txn i).getD ⟨[], []⟩
    (.ok (), { s.setTxn i none with
      ledger := s.ledger.map (· ++ txn.rows)
      effects := s.effects ++ txn.effects })
  | .rollback, s => (.ok (), s.setTxn i none)

/-- What is left of a statement the server refuses: a commit that fails has rolled back. -/
def refuse (i : ι) : Statement → Store ι → Store ι
  | .commit, s => s.setTxn i none
  | _, s => s

/-- The server, as the runner uses it. -/
def host : Host ι (Store ι) Statement Reply Error where
  alive := Store.alive
  Waits := Waits
  perform := perform
  Refusable s := s ≠ .rollback
  refuse := refuse
  die := Store.die
  failure := failure

/-! ### The runner -/

/-- A program of the runner. -/
abbrev Session (α : Type) : Type := Task Statement Reply Error α

/-- One statement of a program. -/
abbrev query (s : Statement) : Session (Reply s) := Task.statement s

section Programs

variable (sha : String → String) (migrations : List Migration)

/-- The checksum recorded for a migration. -/
def checksum (m : Migration) : String := sha m.sql

/-- The row that records a migration. -/
def ledgerRow (m : Migration) : LedgerRow := ⟨m.version, m.name, checksum sha m⟩

/-- `ensure_ledger`: nothing is created where the ledger is there. -/
def ensureLedger : Session Unit := do
  let found ← query .ledgerExists
  if found then return () else query .createLedger

/-- `load_applied`: the rows ordered by version. -/
def loadApplied : Session (List LedgerRow) := query .selectApplied

/-- The row that records a version. -/
def recorded (applied : List LedgerRow) (m : Migration) : Option LedgerRow :=
  applied.find? fun row => row.version = m.version

/-- A transaction that is dropped rolls back; the commit that fails is not rolled back again. -/
def apply (m : Migration) : Session Unit := do
  query .transaction
  Task.onError (do
    query (.batch m)
    query (.insertRow (ledgerRow sha m))) (query .rollback)
  query .commit

/-- The error for a recorded migration that the binary does not know. -/
def unknownMigration (row : LedgerRow) : Error :=
  .invalid ("database has migration " ++ toString row.version ++ " (" ++ row.name ++
    ") applied but this binary does not know it; the database is newer than the server")

/-- The error for a migration that was edited. -/
def modifiedMigration (m : Migration) (row : LedgerRow) : Error :=
  .invalid ("migration " ++ toString m.version ++ " (" ++ row.name ++
    ") was modified after it was applied (recorded checksum " ++ row.checksum ++ ", current " ++
    checksum sha m ++ "); add a new migration instead of editing an applied one")

/-- The loop over the known migrations. -/
def migrate (applied : List LedgerRow) : List Migration → MigrationReport → Session MigrationReport
  | [], report => return report
  | m :: rest, report =>
    match recorded applied m with
    | some row =>
      if row.checksum ≠ checksum sha m then Task.lift (.error (modifiedMigration sha m row))
      else migrate applied rest { report with alreadyApplied := report.alreadyApplied ++ [m.version] }
    | none => do
      apply sha m
      migrate applied rest { report with applied := report.applied ++ [m.version] }

/-- Whether the binary knows a recorded version. -/
def knows (row : LedgerRow) : Bool := migrations.any fun m => m.version = row.version

/-- `run_locked`. -/
def runLocked : Session MigrationReport := do
  ensureLedger
  let applied ← loadApplied
  match applied.find? fun row => !knows migrations row with
  | some row => Task.lift (.error (unknownMigration row))
  | none => migrate sha applied migrations {}

/-- `status_locked`. -/
def statusLocked : Session (List MigrationStatus) := do
  ensureLedger
  let applied ← loadApplied
  return migrations.map fun m =>
    ⟨m.version, m.name, (recorded applied m).isSome,
      (recorded applied m).any fun row => row.checksum = checksum sha m⟩

/-- The lock around the body of `run` and of `status`: it is released whatever the outcome, and the
outcome is reported before a failure to release. -/
def locked {α : Type} (body : Session α) : Session α := do
  query .lock
  let outcome ← body.attempt
  let unlocked ← (query .unlock).attempt
  let value ← Task.lift outcome
  Task.lift unlocked
  return value

/-- Apply every pending system migration. -/
def run : Session MigrationReport := locked (runLocked sha migrations)

/-- Report which known migrations are applied. -/
def status : Session (List MigrationStatus) := locked (statusLocked sha migrations)

/-- What a node may do. -/
inductive Op where
  | run
  | status
deriving DecidableEq

/-- What it gets. -/
inductive Answer where
  | report (report : MigrationReport)
  | statuses (statuses : List MigrationStatus)
deriving DecidableEq

/-- The programs of a node. -/
def code : Op → Session Answer
  | .run => do return .report (← run sha migrations)
  | .status => do return .statuses (← status sha migrations)

end Programs

/-! ### What the lock is for -/

section Agreement

variable (sha : String → String) (migrations : List Migration) (L₀ : List LedgerRow)
  (E₀ : List Migration)

/-- The known migrations that a ledger does not record. -/
def pending (rows : List LedgerRow) : List Migration :=
  migrations.filter fun m => (recorded rows m).isNone

/-- How far a database has come from the ledger `L₀` and the effects `E₀`: what it has taken of the
pending migrations, and what is left of them. -/
structure Progress (ledger : Option (List LedgerRow)) (effects taken left : List Migration) :
    Prop where
  pending : pending migrations L₀ = taken ++ left
  ledger : ledger.getD [] = L₀ ++ taken.map (ledgerRow sha)
  effects : effects = E₀ ++ taken
  known : (∀ row ∈ L₀, knows migrations row = true) ∨ taken = []

/-- What holds between any two statements. -/
structure Inv (s : Store ι) : Prop where
  progress : ∃ taken left, Progress sha migrations L₀ E₀ s.ledger s.effects taken left
  exclusive : ∀ i j, 0 < s.held i → 0 < s.held j → i = j
  guarded : ∀ i, s.txn i ≠ none → 0 < s.held i

/-- What a session relies on: the ledger only grows; and as long as the session is there, its lock and
its transaction are its own, and nothing changes while it holds the lock. -/
structure Rely (i : ι) (a b : Store ι) : Prop where
  grows : a.rows <+: b.rows
  keeps : b.alive i = true → a.alive i = true ∧ b.held i = a.held i ∧ b.txn i = a.txn i ∧
    (0 < a.held i → b.ledger = a.ledger ∧ b.effects = a.effects)

omit [DecidableEq ι] in
theorem Rely.refl (i : ι) (a : Store ι) : Rely i a a :=
  ⟨prefix_rfl, fun h => ⟨h, rfl, rfl, fun _ => ⟨rfl, rfl⟩⟩⟩

omit [DecidableEq ι] in
theorem Rely.trans {i : ι} {a b c : Store ι} (hab : Rely i a b) (hbc : Rely i b c) : Rely i a c where
  grows := hab.grows.trans hbc.grows
  keeps halive := by
    obtain ⟨halive', hheld', htxn', hsame'⟩ := hbc.keeps halive
    obtain ⟨halive, hheld, htxn, hsame⟩ := hab.keeps halive'
    refine ⟨halive, hheld'.trans hheld, htxn'.trans htxn, fun hpos => ?_⟩
    obtain ⟨hledger, heffects⟩ := hsame hpos
    obtain ⟨hledger', heffects'⟩ := hsame' (hheld ▸ hpos)
    exact ⟨hledger'.trans hledger, heffects'.trans heffects⟩

/-- What the sessions of the runner keep together. -/
def agreement : Agreement ι (Store ι) Statement where
  Inv := Inv sha migrations L₀ E₀
  Rely := Rely
  Check _ _ _ := True
  refl := Rely.refl
  trans := Rely.trans

/-- A session that may begin: it has no transaction open. -/
def Ready (i : ι) (s : Store ι) : Prop := s.alive i = true → s.txn i = none

/-- What a session that holds the lock knows, as long as it is there. -/
def Owns (i : ι) (R : Option Txn → Option (List LedgerRow) → List Migration → Prop) (s : Store ι) :
    Prop :=
  s.alive i = true → 0 < s.held i ∧ R (s.txn i) s.ledger s.effects

variable {sha migrations L₀ E₀} {i : ι} {a b : Store ι}
  {R : Option Txn → Option (List LedgerRow) → List Migration → Prop}

omit [DecidableEq ι] in
theorem Owns.later (h : Owns i R a) (hrely : Rely i a b) : Owns i R b := by
  intro halive
  obtain ⟨halive', hheld, htxn, hsame⟩ := hrely.keeps halive
  obtain ⟨hpos, hR⟩ := h halive'
  obtain ⟨hledger, heffects⟩ := hsame hpos
  rw [hheld, htxn, hledger, heffects]
  exact ⟨hpos, hR⟩

omit [DecidableEq ι] in
theorem Owns.imp {R' : Option Txn → Option (List LedgerRow) → List Migration → Prop}
    (h : Owns i R a) (himp : ∀ t l e, R t l e → R' t l e) : Owns i R' a :=
  fun halive => (h halive).imp_right (himp _ _ _)

omit [DecidableEq ι] in
theorem Ready.later (h : Ready i a) (hrely : Rely i a b) : Ready i b := by
  intro halive
  obtain ⟨halive', -, htxn, -⟩ := hrely.keeps halive
  rw [htxn, h halive']

/-! ### Statements -/

/-- A session that ends leaves everything else as it is. -/
theorem die_inv (h : Inv sha migrations L₀ E₀ a) (i : ι) : Inv sha migrations L₀ E₀ (a.die i) where
  progress := h.progress
  exclusive j k hj hk := by
    simp only [Store.die, Store.setHeld, update_apply] at hj hk
    split_ifs at hj hk with hji hki
    · exact absurd hj (lt_irrefl 0)
    · exact absurd hj (lt_irrefl 0)
    · exact absurd hk (lt_irrefl 0)
    · exact h.exclusive j k hj hk
  guarded j hj := by
    simp only [Store.die, Store.setHeld, Store.setTxn, update_apply] at hj ⊢
    split_ifs at hj ⊢
    · exact absurd rfl hj
    · exact h.guarded j hj

theorem die_rely (a : Store ι) (i j : ι) : Rely j a (a.die i) where
  grows := prefix_rfl
  keeps halive := by
    have hj : j ≠ i := by
      rintro rfl
      simp [Store.die] at halive
    simp only [Store.die, Store.setHeld, Store.setTxn, update_of_ne hj] at halive ⊢
    exact ⟨halive, trivial, trivial, fun _ => ⟨trivial, trivial⟩⟩

/-- A session that ends leaves the others what they rely on. -/
theorem survives : (host : Host ι (Store ι) Statement Reply Error).Survives
    (agreement sha migrations L₀ E₀) where
  dies _ _ := update_self ..
  inv _ i h := die_inv h i
  rely := die_rely

/-- What a statement of a session that holds the lock leaves alone. -/
structure Touches (i : ι) (b c : Store ι) : Prop where
  held : c.held = b.held
  alive : c.alive = b.alive
  txn : ∀ j, j ≠ i → c.txn j = b.txn j
  rows : b.rows <+: c.rows

theorem Touches.setTxn (i : ι) (b : Store ι) (txn : Option Txn) : Touches i b (b.setTxn i txn) :=
  ⟨rfl, rfl, fun _ hj => update_of_ne hj _ _, prefix_rfl⟩

theorem touches_perform {s : Statement} (hlock : s ≠ .lock) (hunlock : s ≠ .unlock) (b : Store ι) :
    Touches i b (perform i s b).2 := by
  have hsame : Touches i b b := ⟨rfl, rfl, fun _ _ => rfl, prefix_rfl⟩
  cases s with
  | lock => exact absurd rfl hlock
  | unlock => exact absurd rfl hunlock
  | ledgerExists => exact hsame
  | createLedger => exact ⟨rfl, rfl, fun _ _ => rfl, prefix_rfl⟩
  | selectApplied =>
    simp only [perform]
    split <;> exact hsame
  | transaction => exact .setTxn i b _
  | batch m =>
    simp only [perform]
    split
    · exact .setTxn i b _
    · exact ⟨rfl, rfl, fun _ _ => rfl, prefix_rfl⟩
  | insertRow row =>
    simp only [perform]
    split
    · exact hsame
    · next rows hledger =>
      split_ifs
      · exact hsame
      · exact ⟨rfl, rfl, fun _ _ => rfl, ⟨[row], by simp [Store.rows, hledger]⟩⟩
      · exact .setTxn i b _
  | commit =>
    refine ⟨rfl, rfl, fun _ hj => update_of_ne hj _ _, ?_⟩
    cases hledger : b.ledger with
    | none => simp [perform, Store.rows, hledger]
    | some rows => exact ⟨((b.txn i).getD ⟨[], []⟩).rows, by simp [perform, Store.rows, hledger]⟩
  | rollback => exact .setTxn i b _

theorem touches_refuse (s : Statement) (b : Store ι) : Touches i b (refuse i s b) := by
  cases s with
  | commit => exact .setTxn i b _
  | _ => exact ⟨rfl, rfl, fun _ _ => rfl, prefix_rfl⟩

omit [DecidableEq ι] in
/-- Who holds the lock may change what the others do not hold. -/
theorem Touches.keeps (h : Touches i b a) (hinv : Inv sha migrations L₀ E₀ b) (hheld : 0 < b.held i)
    (hprogress : ∃ taken left, Progress sha migrations L₀ E₀ a.ledger a.effects taken left) :
    Inv sha migrations L₀ E₀ a ∧ ∀ j, j ≠ i → Rely j b a := by
  refine ⟨⟨hprogress, fun j k => ?_, fun j hj => ?_⟩, fun j hj => ⟨h.rows, fun halive => ?_⟩⟩
  · rw [h.held]
    exact hinv.exclusive j k
  · rw [h.held]
    by_cases hji : j = i
    · exact hji ▸ hheld
    · exact hinv.guarded j (h.txn j hji ▸ hj)
  · rw [h.alive] at halive
    exact ⟨halive, by rw [h.held], h.txn j hj, fun hpos => absurd (hinv.exclusive j i hpos hheld) hj⟩

/-- A program of a session that holds the lock: what it knows at its end. -/
def Owned (sha : String → String) (migrations : List Migration) (L₀ : List LedgerRow)
    (E₀ : List Migration) (i : ι) {α : Type}
    (R : Except Error α → Option Txn → Option (List LedgerRow) → List Migration → Prop)
    (t : Session α) (a : Store ι) : Prop :=
  (agreement sha migrations L₀ E₀).Valid host.Exec i (fun o => Owns i (R o)) t a

/-- **One statement of a session that holds the lock.** -/
theorem valid_owned {s : Statement}
    {R' : Except Error (Reply s) → Option Txn → Option (List LedgerRow) → List Migration → Prop}
    (hlock : s ≠ .lock) (hunlock : s ≠ .unlock) (hpre : Owns i R a)
    (hperform : ∀ b, Inv sha migrations L₀ E₀ b → R (b.txn i) b.ledger b.effects →
      (∃ taken left, Progress sha migrations L₀ E₀ (perform i s b).2.ledger (perform i s b).2.effects
        taken left) ∧
      R' (perform i s b).1 ((perform i s b).2.txn i) (perform i s b).2.ledger (perform i s b).2.effects)
    (hrefuse : ∀ b text, Inv sha migrations L₀ E₀ b → R (b.txn i) b.ledger b.effects → s ≠ .rollback →
      R' (.error (failure s text)) ((refuse i s b).txn i) b.ledger b.effects) :
    Owned sha migrations L₀ E₀ i R' (query s) a := by
  refine .request survives (P := fun b => 0 < b.held i ∧ R (b.txn i) b.ledger b.effects)
    (fun _ _ _ => trivial) (fun b hrely _ halive => hpre.later hrely halive)
    (fun b hinv halive hP _ => ?_)
    (fun b text hinv halive hP hs => ?_) (fun b text hdead => ?_) fun r b c h hrely _ => h.later hrely
  · obtain ⟨hheld, hR⟩ := hP
    obtain ⟨hprogress, hR'⟩ := hperform b hinv hR
    have htouches := touches_perform (i := i) hlock hunlock b
    obtain ⟨hinv', hothers⟩ := htouches.keeps hinv hheld hprogress
    exact ⟨hinv', hothers, fun _ => ⟨htouches.held ▸ hheld, hR'⟩⟩
  · obtain ⟨hheld, hR⟩ := hP
    have htouches := touches_refuse (i := i) s b
    have hsame : (refuse i s b).ledger = b.ledger ∧ (refuse i s b).effects = b.effects := by
      cases s <;> exact ⟨rfl, rfl⟩
    obtain ⟨hledger, heffects⟩ := hsame
    obtain ⟨hinv', hothers⟩ :=
      htouches.keeps hinv hheld (by rw [hledger, heffects]; exact hinv.progress)
    have hkept := hrefuse b text hinv hR hs
    rw [← hledger, ← heffects] at hkept
    exact ⟨hinv', hothers, fun _ => ⟨htouches.held ▸ hheld, hkept⟩⟩
  · exact fun halive => absurd (hdead.symm.trans halive) Bool.false_ne_true

/-! ### Programs -/

/-- What a session knows with a transaction, or with none. -/
def With (txn : Option Txn) (F : Option (List LedgerRow) → List Migration → Prop) :
    Option Txn → Option (List LedgerRow) → List Migration → Prop :=
  fun t l e => t = txn ∧ F l e

/-- What a session knows that has no transaction open, where a program has not failed. -/
def After {α : Type} (F : α → Option (List LedgerRow) → List Migration → Prop) :
    Except Error α → Option Txn → Option (List LedgerRow) → List Migration → Prop
  | .ok x => With none (F x)
  | .error _ => With none fun _ _ => True

section Programs

variable {α β : Type} {F : Option (List LedgerRow) → List Migration → Prop}

theorem With.weaken {txn : Option Txn} (t : Option Txn) (l : Option (List LedgerRow))
    (e : List Migration) (h : With txn F t l e) : With txn (fun _ _ => True) t l e := ⟨h.1, trivial⟩

theorem Owned.bind {t : Session α} {f : α → Session β}
    {S : Except Error α → Option Txn → Option (List LedgerRow) → List Migration → Prop}
    {T : Except Error β → Option Txn → Option (List LedgerRow) → List Migration → Prop}
    (ht : Owned sha migrations L₀ E₀ i S t a)
    (hok : ∀ x b, Owns i (S (.ok x)) b → Owned sha migrations L₀ E₀ i T (f x) b)
    (herror : ∀ e t l m, S (.error e) t l m → T (.error e) t l m) :
    Owned sha migrations L₀ E₀ i T (t >>= f) a := by
  refine Agreement.Valid.bind (ht.imp fun o b hinv hpost => ?_)
  have hown : Owns i (S o) b := hpost b (Rely.refl i b) hinv
  cases o with
  | ok x => exact hok x b hown
  | error e => exact hown.imp (herror e)

theorem Owned.done {o : Except Error α}
    {T : Except Error α → Option Txn → Option (List LedgerRow) → List Migration → Prop}
    (h : Owns i (T o) a) : Owned sha migrations L₀ E₀ i T (Task.lift o) a :=
  Agreement.Valid.lift fun _ hrely _ => h.later hrely

/-- `ensure_ledger` leaves the ledger created. -/
theorem owned_ensureLedger (h : Owns i (With none fun _ _ => True) a) :
    Owned sha migrations L₀ E₀ i (After fun _ l _ => l.isSome = true) ensureLedger a := by
  have hfound : Owned sha migrations L₀ E₀ i
      (After fun found l _ => found = true → l.isSome = true) (query .ledgerExists) a := by
    refine valid_owned (s := .ledgerExists) (by simp) (by simp) h (fun b hinv hR => ?_)
      fun b text hinv hR _ => hR
    exact ⟨hinv.progress, hR.1, id⟩
  refine hfound.bind (fun found b hown => ?_) fun _ _ _ _ => id
  cases found with
  | true => exact .done (hown.imp fun t l e hR => ⟨hR.1, hR.2 rfl⟩)
  | false =>
    refine valid_owned (s := .createLedger) (by simp) (by simp) hown (fun c hinv hR => ⟨?_, hR.1, rfl⟩)
      fun c text hinv hR _ => ⟨hR.1, trivial⟩
    obtain ⟨taken, left, hprogress⟩ := hinv.progress
    exact ⟨taken, left, hprogress.pending, hprogress.ledger, hprogress.effects, hprogress.known⟩

/-- `load_applied` answers the rows of the ledger. -/
theorem owned_loadApplied (h : Owns i (With none fun l _ => l.isSome = true) a) :
    Owned sha migrations L₀ E₀ i (After fun applied l e => l.isSome = true ∧
      applied.Perm (l.getD []) ∧ ∃ taken left, Progress sha migrations L₀ E₀ l e taken left)
      loadApplied a := by
  refine valid_owned (s := .selectApplied) (by simp) (by simp) h (fun b hinv hR => ?_)
    fun b text hinv hR _ => ⟨hR.1, trivial⟩
  obtain ⟨rows, hrows⟩ := Option.isSome_iff_exists.mp hR.2
  have hperform : perform i .selectApplied b =
      (.ok (rows.insertionSort fun a b => a.version ≤ b.version), b) := by simp only [perform, hrows]
  rw [hperform]
  exact ⟨hinv.progress, hR.1, by rw [hrows]; rfl, by rw [hrows]; exact (perm_insertionSort _ rows),
    hinv.progress⟩

omit [DecidableEq ι] in
/-- What is left shrinks by what is applied. -/
theorem Progress.advance {l : Option (List LedgerRow)} {e taken left : List Migration}
    {m : Migration} (h : Progress sha migrations L₀ E₀ l e taken (m :: left))
    (hcreated : l.isSome = true) (hknown : ∀ row ∈ L₀, knows migrations row = true) :
    Progress sha migrations L₀ E₀ (l.map (· ++ [ledgerRow sha m])) (e ++ [m]) (taken ++ [m]) left where
  pending := by rw [h.pending, append_assoc, singleton_append]
  ledger := by
    obtain ⟨rows, rfl⟩ := Option.isSome_iff_exists.mp hcreated
    have hledger : rows = L₀ ++ taken.map (ledgerRow sha) := h.ledger
    simp [hledger]
  effects := by rw [h.effects, append_assoc]
  known := .inl hknown

/-- **One migration**: its SQL and its row are committed together, or neither is. -/
theorem owned_apply {m : Migration} {F' : Option (List LedgerRow) → List Migration → Prop}
    (h : Owns i (With none F) a)
    (hF : ∀ l e, F l e → l.isSome = true ∧ (∀ row ∈ L₀, knows migrations row = true) ∧
      (∃ taken left, Progress sha migrations L₀ E₀ l e taken (m :: left)) ∧
      F' (l.map (· ++ [ledgerRow sha m])) (e ++ [m])) :
    Owned sha migrations L₀ E₀ i (After fun _ => F') (apply sha m) a := by
  let row := ledgerRow sha m
  have hbegin : Owned sha migrations L₀ E₀ i (fun r => match r with
      | .ok _ => With (some ⟨[], []⟩) F
      | .error _ => With none fun _ _ => True) (query .transaction) a := by
    refine valid_owned (s := .transaction) (by simp) (by simp) h
      (fun b hinv hR => ⟨hinv.progress, ?_, hR.2⟩)
      fun b text hinv hR _ => ⟨hR.1, trivial⟩
    simp [perform, Store.setTxn, hR.1]
  refine hbegin.bind (fun _ b hown => ?_) fun _ _ _ _ => id
  -- Whatever fails inside leaves a transaction that is dropped.
  have hbody : Owned sha migrations L₀ E₀ i (fun r => match r with
      | .ok _ => With (some ⟨[row], [m]⟩) F
      | .error _ => fun _ _ _ => True) (do query (.batch m); query (.insertRow row)) b := by
    have hbatch : Owned sha migrations L₀ E₀ i (fun r => match r with
        | .ok _ => With (some ⟨[], [m]⟩) F
        | .error _ => fun _ _ _ => True) (query (.batch m)) b := by
      refine valid_owned (s := .batch m) (by simp) (by simp) hown (fun c hinv hR => ?_)
        fun _ _ _ _ _ => trivial
      have hperform : perform i (.batch m) c = (.ok (), c.setTxn i (some ⟨[], [m]⟩)) := by
        simp only [perform, hR.1, nil_append]
      rw [hperform]
      exact ⟨hinv.progress, update_self i _ _, hR.2⟩
    refine hbatch.bind (fun _ c hown' => ?_) fun _ _ _ _ => id
    refine valid_owned (s := .insertRow row) (by simp) (by simp) hown' (fun d hinv hR => ?_)
      fun _ _ _ _ _ => trivial
    obtain ⟨rows, hrows⟩ := Option.isSome_iff_exists.mp (hF _ _ hR.2).1
    simp only [perform, hrows, hR.1, Option.getD_some, List.append_nil, reduceCtorEq, ↓reduceIte,
      nil_append]
    split_ifs
    · exact ⟨hinv.progress, trivial⟩
    · exact ⟨hinv.progress, update_self i _ _, hR.2⟩
  have hrolled : Owned sha migrations L₀ E₀ i (fun r => match r with
      | .ok _ => With (some ⟨[row], [m]⟩) F
      | .error _ => With none fun _ _ => True)
      (Task.onError (do query (.batch m); query (.insertRow row)) (query .rollback)) b := by
    refine Agreement.Valid.onError (hbody.imp fun o c hinv hpost => ?_)
    have hown' := hpost c (Rely.refl i c) hinv
    cases o with
    | ok _ => exact hown'
    | error e =>
      have hclosed : Owned sha migrations L₀ E₀ i (fun _ => With none fun _ _ => True)
          (query .rollback) c :=
        valid_owned (s := .rollback) (by simp) (by simp) hown'
          (fun d hinv _ => ⟨hinv.progress, update_self i _ _, trivial⟩)
          fun _ _ _ _ hs => absurd rfl hs
      exact hclosed
  refine hrolled.bind (fun _ c hown' => ?_) fun _ _ _ _ => id
  refine valid_owned (s := .commit) (by simp) (by simp) hown' (fun d hinv hR => ?_)
    fun d text hinv _ _ => ⟨update_self i _ _, trivial⟩
  obtain ⟨hcreated, hknown, ⟨taken, left, hprogress⟩, hF'⟩ := hF _ _ hR.2
  have hperform : perform i .commit d = (.ok (), { d.setTxn i none with
      ledger := d.ledger.map (· ++ [row]), effects := d.effects ++ [m] }) := by
    simp only [perform, hR.1, Option.getD_some]
  rw [hperform]
  exact ⟨⟨_, _, hprogress.advance hcreated hknown⟩, update_self i _ _, hF'⟩

end Programs

/-! ### The loop -/

section Loop

/-- The binary's migrations in the order in which it applies them. -/
def Ordered (migrations : List Migration) : Prop := migrations.Pairwise fun m n => m.version < n.version

/-- The ledger holds exactly the known versions with their current checksums. -/
def Exact (sha : String → String) (migrations : List Migration) (rows : List LedgerRow) : Prop :=
  ∀ version sum, (∃ row ∈ rows, row.version = version ∧ row.checksum = sum) ↔
    ∃ m ∈ migrations, m.version = version ∧ checksum sha m = sum

/-- What is known in the loop, with the rows it was started with and the migrations that are to come. -/
structure Loop (sha : String → String) (migrations : List Migration) (L₀ : List LedgerRow)
    (E₀ : List Migration) (applied : List LedgerRow) (rest : List Migration)
    (l : Option (List LedgerRow)) (e : List Migration) : Prop where
  created : l.isSome = true
  known : ∀ row ∈ L₀, knows migrations row = true
  old : L₀ ⊆ applied
  current : applied ⊆ l.getD []
  checked : ∀ m ∈ migrations, m ∈ rest ∨
    ∀ row, recorded applied m = some row → row.checksum = checksum sha m
  progress : ∃ taken, Progress sha migrations L₀ E₀ l e taken
    (rest.filter fun m => (recorded applied m).isNone)

/-- The ledger when a run has gone through. -/
def Finished (sha : String → String) (migrations : List Migration) (L₀ rows : List LedgerRow) : Prop :=
  rows = L₀ ++ (pending migrations L₀).map (ledgerRow sha) ∧ Exact sha migrations rows

variable {applied : List LedgerRow} {m : Migration} {rest : List Migration}
  {l : Option (List LedgerRow)} {e : List Migration}

theorem recorded_eq_none {rows : List LedgerRow} :
    recorded rows m = none ↔ ∀ row ∈ rows, row.version ≠ m.version := by
  simp [recorded]

theorem recorded_eq_some {row : LedgerRow} (h : recorded applied m = some row) :
    row ∈ applied ∧ row.version = m.version :=
  ⟨mem_of_find?_eq_some h, by simpa using List.find?_some h⟩

theorem pairwise_ne (hordered : Ordered migrations) {before after : List Migration}
    (h : pending migrations L₀ = before ++ after) :
    (before ++ after).Pairwise fun m n => m.version ≠ n.version := by
  rw [← h]
  exact (hordered.filter _).imp fun hlt => hlt.ne

/-- The migrations that a loaded ledger does not record are those that are left. -/
theorem filter_recorded (hordered : Ordered migrations) {taken left : List Migration}
    (hprogress : Progress sha migrations L₀ E₀ l e taken left)
    (hperm : applied.Perm (l.getD [])) :
    migrations.filter (fun m => (recorded applied m).isNone) = left := by
  have happlied : applied.Perm (L₀ ++ taken.map (ledgerRow sha)) := hprogress.ledger ▸ hperm
  have hboth : ∀ m, (recorded applied m).isNone =
      (decide (∀ t ∈ taken, t.version ≠ m.version) && (recorded L₀ m).isNone) := by
    intro m
    rw [Bool.eq_iff_iff, Bool.and_eq_true, decide_eq_true_eq, Option.isNone_iff_eq_none,
      Option.isNone_iff_eq_none, recorded_eq_none, recorded_eq_none]
    constructor
    · intro h
      exact ⟨fun t ht => h (ledgerRow sha t) (happlied.mem_iff.mpr
          (mem_append_right _ (mem_map_of_mem ht))),
        fun row hrow => h row (happlied.mem_iff.mpr (List.mem_append_left _ hrow))⟩
    · rintro ⟨htaken, hold⟩ row hrow
      rcases List.mem_append.mp (happlied.mem_iff.mp hrow) with hrow | hrow
      · exact hold row hrow
      · obtain ⟨t, ht, rfl⟩ := List.mem_map.mp hrow
        exact htaken t ht
  have hdistinct := pairwise_ne hordered hprogress.pending
  calc migrations.filter (fun m => (recorded applied m).isNone)
      = (pending migrations L₀).filter fun m => decide (∀ t ∈ taken, t.version ≠ m.version) := by
        rw [pending, filter_filter]
        exact filter_congr fun m _ => hboth m
    _ = (taken ++ left).filter fun m => decide (∀ t ∈ taken, t.version ≠ m.version) := by
        rw [hprogress.pending]
    _ = left := by
        rw [filter_append, filter_eq_nil_iff.mpr, filter_eq_self.mpr, nil_append]
        · intro m hm
          exact decide_eq_true fun t ht => (pairwise_append.mp hdistinct).2.2 t ht m hm
        · intro t ht
          simp only [decide_eq_true_eq, not_forall, not_not]
          exact ⟨t, ht, rfl⟩

/-- The loop starts from what was loaded. -/
theorem Loop.start (hordered : Ordered migrations) (hcreated : l.isSome = true)
    (hperm : applied.Perm (l.getD []))
    (hprogress : ∃ taken left, Progress sha migrations L₀ E₀ l e taken left)
    (hknown : ∀ row ∈ applied, knows migrations row = true) :
    Loop sha migrations L₀ E₀ applied migrations l e := by
  obtain ⟨taken, left, hprogress⟩ := hprogress
  have hold : L₀ ⊆ applied := fun row hrow =>
    hperm.mem_iff.mpr (hprogress.ledger ▸ List.mem_append_left _ hrow)
  exact {
    created := hcreated
    known := fun row hrow => hknown row (hold hrow)
    old := hold
    current := fun _ hrow => hperm.mem_iff.mp hrow
    checked := fun m hm => .inl hm
    progress := ⟨taken, by rwa [filter_recorded hordered hprogress hperm]⟩ }

/-- A recorded migration with its current checksum is passed over. -/
theorem Loop.skip {row : LedgerRow} (h : Loop sha migrations L₀ E₀ applied (m :: rest) l e)
    (hrow : recorded applied m = some row) (hsum : row.checksum = checksum sha m) :
    Loop sha migrations L₀ E₀ applied rest l e := by
  refine { h with checked := fun n hn => ?_, progress := ?_ }
  · rcases h.checked n hn with hmem | hsum'
    · rcases mem_cons.mp hmem with rfl | hmem
      · refine .inr fun other hother => ?_
        obtain rfl := Option.some.inj (hrow.symm.trans hother)
        exact hsum
      · exact .inl hmem
    · exact .inr hsum'
  · simpa [hrow] using h.progress

/-- A migration that is applied goes over to the ledger. -/
theorem Loop.advance (h : Loop sha migrations L₀ E₀ applied (m :: rest) l e)
    (hrow : recorded applied m = none) :
    Loop sha migrations L₀ E₀ applied rest (l.map (· ++ [ledgerRow sha m])) (e ++ [m]) := by
  obtain ⟨rows, rfl⟩ := Option.isSome_iff_exists.mp h.created
  obtain ⟨taken, hprogress⟩ := h.progress
  have hleft : (m :: rest).filter (fun m => (recorded applied m).isNone) =
      m :: rest.filter fun m => (recorded applied m).isNone := by simp [hrow]
  rw [hleft] at hprogress
  exact {
    created := rfl
    known := h.known
    old := h.old
    current := fun row hmem => List.mem_append_left _ (h.current hmem)
    checked := fun n hn => by
      rcases h.checked n hn with hmem | hsum
      · rcases mem_cons.mp hmem with rfl | hmem
        · exact .inr fun other hother => by rw [hrow] at hother; cases hother
        · exact .inl hmem
      · exact .inr hsum
    progress := ⟨_, hprogress.advance h.created h.known⟩ }

/-- The versions of a ledger that has made progress are distinct where they were. -/
theorem nodup_of_progress (hordered : Ordered migrations) (hnodup : (L₀.map (·.version)).Nodup)
    {taken left : List Migration} (h : Progress sha migrations L₀ E₀ l e taken left) :
    ((l.getD []).map (·.version)).Nodup := by
  have htaken : (taken.map (·.version)).Nodup :=
    pairwise_map.mpr (pairwise_append.mp (pairwise_ne hordered h.pending)).1
  rw [h.ledger, map_append, map_map]
  refine hnodup.append htaken fun version hold hnew => ?_
  obtain ⟨row, hrow, rfl⟩ := List.mem_map.mp hold
  obtain ⟨m, hm, hversion⟩ := List.mem_map.mp hnew
  have hpending : m ∈ pending migrations L₀ := h.pending ▸ List.mem_append_left _ hm
  exact recorded_eq_none.mp (Option.isNone_iff_eq_none.mp (List.mem_filter.mp hpending).2) row hrow
    hversion.symm

/-- **The loop has gone through**: the ledger is what the binary knows. -/
theorem Loop.finished (hordered : Ordered migrations) (hnodup : (L₀.map (·.version)).Nodup)
    (h : Loop sha migrations L₀ E₀ applied [] l e) : Finished sha migrations L₀ (l.getD []) := by
  obtain ⟨taken, hprogress⟩ := h.progress
  have htaken : pending migrations L₀ = taken := by
    rw [hprogress.pending, filter_nil, List.append_nil]
  have hledger : l.getD [] = L₀ ++ (pending migrations L₀).map (ledgerRow sha) :=
    htaken ▸ hprogress.ledger
  have hdistinct := nodup_of_progress hordered hnodup hprogress
  have hsum : ∀ m ∈ migrations, ∀ row, recorded applied m = some row →
      row.checksum = checksum sha m := fun m hm =>
    (h.checked m hm).resolve_left not_mem_nil
  refine ⟨hledger, fun version sum => ⟨?_, ?_⟩⟩
  · rintro ⟨row, hrow, rfl, rfl⟩
    rw [hledger] at hrow
    rcases List.mem_append.mp hrow with hold | hnew
    · -- An old row is known, and the row that was checked for its version is this one.
      obtain ⟨m, hm, hversion⟩ := List.any_eq_true.mp (h.known row hold)
      have hversion : m.version = row.version := of_decide_eq_true hversion
      obtain ⟨found, hfound⟩ : ∃ found, recorded applied m = some found := by
        refine Option.ne_none_iff_exists'.mp fun hnone => ?_
        exact recorded_eq_none.mp hnone row (h.old hold) hversion.symm
      obtain ⟨hmem, hsame⟩ := recorded_eq_some hfound
      have heq : found = row := inj_on_of_nodup_map hdistinct (h.current hmem)
        (h.current (h.old hold)) (hsame.trans hversion)
      exact ⟨m, hm, hversion, heq ▸ (hsum m hm found hfound).symm⟩
    · obtain ⟨m, hm, rfl⟩ := List.mem_map.mp hnew
      exact ⟨m, (List.mem_filter.mp hm).1, rfl, rfl⟩
  · rintro ⟨m, hm, rfl, rfl⟩
    cases hrecorded : recorded applied m with
    | some row =>
      obtain ⟨hmem, hversion⟩ := recorded_eq_some hrecorded
      exact ⟨row, h.current hmem, hversion, hsum m hm row hrecorded⟩
    | none =>
      have hpending : m ∈ pending migrations L₀ :=
        List.mem_filter.mpr ⟨hm, Option.isNone_iff_eq_none.mpr (recorded_eq_none.mpr fun row hrow =>
          recorded_eq_none.mp hrecorded row (h.old hrow))⟩
      exact ⟨ledgerRow sha m, hledger ▸ mem_append_right _ (mem_map_of_mem hpending), rfl,
        rfl⟩

end Loop

/-! ### The programs keep the agreement -/

section Programs

variable {applied : List LedgerRow}

/-- **The loop**: each migration is passed over, applied, or the end of the run. -/
theorem owned_migrate {rest : List Migration} {report : MigrationReport}
    (h : Owns i (With none (Loop sha migrations L₀ E₀ applied rest)) a) :
    Owned sha migrations L₀ E₀ i (After fun _ => Loop sha migrations L₀ E₀ applied [])
      (migrate sha applied rest report) a := by
  induction rest generalizing report a with
  | nil => exact .done h
  | cons m rest ih =>
    unfold migrate
    split
    · next row hrow =>
      split_ifs with hsum
      · exact .done (h.imp With.weaken)
      · exact ih (h.imp fun t l e hR => ⟨hR.1, hR.2.skip hrow (not_not.mp hsum)⟩)
    · next hrow =>
      have happly : Owned sha migrations L₀ E₀ i
          (After fun _ => Loop sha migrations L₀ E₀ applied rest) (apply sha m) a := by
        refine owned_apply h fun l e hloop => ⟨hloop.created, hloop.known, ?_, hloop.advance hrow⟩
        obtain ⟨taken, hprogress⟩ := hloop.progress
        exact ⟨taken, _, by simpa [hrow] using hprogress⟩
      exact happly.bind (fun _ b hown => ih hown) fun _ _ _ _ => id

theorem owned_runLocked (hordered : Ordered migrations)
    (h : Owns i (With none fun _ _ => True) a) :
    Owned sha migrations L₀ E₀ i
      (After fun _ l e => ∃ applied, Loop sha migrations L₀ E₀ applied [] l e)
      (runLocked sha migrations) a := by
  refine (owned_ensureLedger h).bind (fun _ b hcreated => ?_) fun _ _ _ _ => id
  refine (owned_loadApplied hcreated).bind (fun applied c hloaded => ?_) fun _ _ _ _ => id
  split
  · exact .done (hloaded.imp With.weaken)
  · next hnone =>
    have hknown : ∀ row ∈ applied, knows migrations row = true := by simpa using hnone
    have hstart : Owns i (With none (Loop sha migrations L₀ E₀ applied migrations)) c :=
      hloaded.imp fun t l e ⟨ht, hcreated, hperm, hprogress⟩ =>
        ⟨ht, .start hordered hcreated hperm hprogress hknown⟩
    refine Agreement.Valid.imp (owned_migrate hstart) fun o d hinv hpost => ?_
    have hown := hpost d (Rely.refl i d) hinv
    cases o with
    | ok report => exact hown.imp fun t l e hR => ⟨hR.1, applied, hR.2⟩
    | error e => exact hown

theorem owned_statusLocked (h : Owns i (With none fun _ _ => True) a) :
    Owned sha migrations L₀ E₀ i (After fun _ _ _ => True) (statusLocked sha migrations) a := by
  refine (owned_ensureLedger h).bind (fun _ b hcreated => ?_) fun _ _ _ _ => id
  refine (owned_loadApplied hcreated).bind (fun applied c hloaded => ?_) fun _ _ _ _ => id
  exact .done (hloaded.imp With.weaken)

/-- Taking the lock: nobody else holds it. -/
theorem valid_lock (h : Ready i a) :
    (agreement sha migrations L₀ E₀).Valid host.Exec i (fun r b => match r with
      | .ok _ => Owns i (With none fun _ _ => True) b
      | .error _ => Ready i b) (query .lock) a := by
  refine .request (s := .lock) survives (P := fun b => b.txn i = none) (fun _ _ _ => trivial)
    (fun b hrely _ halive => h.later hrely halive)
    (fun b hinv halive htxn hwaits => ?_) (fun b text hinv halive htxn _ => ?_)
    (fun b text hdead halive => ?_) fun r b c hpost hrely hinv => ?_
  · have hfree : ∀ j, j ≠ i → b.held j = 0 := fun j hj =>
      Nat.eq_zero_of_not_pos fun hpos => hwaits ⟨j, hj, hpos⟩
    refine ⟨⟨hinv.progress, fun j k hj hk => ?_, fun j hj => ?_⟩,
      fun j hj => ⟨prefix_rfl, fun hb => ?_⟩,
      fun _ => ?_⟩
    · simp only [host, perform, Store.setHeld, update_apply] at hj hk
      have heq : ∀ j, 0 < (if j = i then b.held i + 1 else b.held j) → j = i := fun j hj => by
        by_contra hne
        rw [if_neg hne, hfree j hne] at hj
        exact absurd hj (lt_irrefl 0)
      rw [heq j hj, heq k hk]
    · simp only [host, perform, Store.setHeld, update_apply]
      split_ifs
      · exact Nat.succ_pos _
      · exact hinv.guarded j hj
    · exact ⟨hb, update_of_ne hj _ _, rfl, fun _ => ⟨rfl, rfl⟩⟩
    · simp only [host, perform, Store.setHeld, update_self]
      exact ⟨Nat.succ_pos _, htxn, trivial⟩
  · exact ⟨hinv, fun j _ => Rely.refl j b, fun _ => htxn⟩
  · exact absurd (hdead.symm.trans halive) Bool.false_ne_true
  · cases r with
    | ok _ => exact Owns.later hpost hrely
    | error e => exact Ready.later hpost hrely

/-- Releasing the lock: what is known of the ledger is known of it from then on. -/
theorem valid_unlock {F : Option (List LedgerRow) → List Migration → Prop} {G : List LedgerRow → Prop}
    (h : Owns i (With none F) a) (hG : ∀ l e, F l e → G (l.getD []))
    (hgrows : ∀ b c : Store ι, G b.rows → b.rows <+: c.rows → Inv sha migrations L₀ E₀ c → G c.rows) :
    (agreement sha migrations L₀ E₀).Valid host.Exec i (fun r b => Ready i b ∧ (r = .ok () → G b.rows))
      (query .unlock) a := by
  refine .request (s := .unlock) survives (P := fun b => b.txn i = none ∧ F b.ledger b.effects)
    (fun _ _ _ => trivial) (fun b hrely _ halive => (h.later hrely halive).2)
    (fun b hinv halive hP _ => ?_) (fun b text hinv halive hP _ => ?_)
    (fun b text hdead => ⟨fun halive => ?_, nofun⟩) fun r b c hpost hrely hinv => ?_
  · refine ⟨⟨hinv.progress, fun j k hj hk => ?_, fun j hj => ?_⟩,
      fun j hj => ⟨prefix_rfl, fun hb => ?_⟩,
      fun _ => hP.1, fun _ => hG _ _ hP.2⟩
    · simp only [host, perform, Store.setHeld, update_apply] at hj hk
      have hheld : ∀ j, 0 < (if j = i then b.held i - 1 else b.held j) → 0 < b.held j := fun j hj => by
        split_ifs at hj with hji
        · exact hji ▸ Nat.lt_of_lt_of_le hj (Nat.sub_le _ _)
        · exact hj
      exact hinv.exclusive j k (hheld j hj) (hheld k hk)
    · simp only [host, perform, Store.setHeld, update_apply]
      split_ifs with hji
      · exact absurd (hji ▸ hP.1) hj
      · exact hinv.guarded j hj
    · exact ⟨hb, update_of_ne hj _ _, rfl, fun _ => ⟨rfl, rfl⟩⟩
  · exact ⟨hinv, fun j _ => Rely.refl j b, fun _ => hP.1, nofun⟩
  · exact absurd (hdead.symm.trans halive) Bool.false_ne_true
  · exact ⟨hpost.1.later hrely, fun hr => hgrows b c (hpost.2 hr) hrely.grows hinv⟩

/-- **The lock around a body**: whatever the outcome, the session may begin anew, and what the body
knows of the ledger when it succeeds is known of it from then on. -/
theorem valid_locked {α : Type} {body : Session α}
    {F : α → Option (List LedgerRow) → List Migration → Prop} {G : α → List LedgerRow → Prop}
    (h : Ready i a)
    (hbody : ∀ b, Owns i (With none fun _ _ => True) b →
      Owned sha migrations L₀ E₀ i (After F) body b)
    (hG : ∀ x l e, F x l e → G x (l.getD []))
    (hgrows : ∀ x (b c : Store ι), G x b.rows → b.rows <+: c.rows → Inv sha migrations L₀ E₀ c →
      G x c.rows) :
    (agreement sha migrations L₀ E₀).Valid host.Exec i
      (fun o b => Ready i b ∧ ∀ x, o = .ok x → G x b.rows) (locked body) a := by
  refine Agreement.Valid.bind ((valid_lock h).imp fun r b hinv hlocked => ?_)
  have hlocked := hlocked b (Rely.refl i b) hinv
  cases r with
  | error e => exact ⟨hlocked, nofun⟩
  | ok _ =>
    refine Agreement.Valid.bind (.attempt ((hbody b hlocked).imp fun o c hinv hdone => ?_))
    have hdone := hdone c (Rely.refl i c) hinv
    cases o with
    | error e =>
      have hunlock : (agreement sha migrations L₀ E₀).Valid host.Exec i _ (query .unlock) c :=
        valid_unlock (G := fun _ => True) hdone (fun _ _ _ => trivial) fun _ _ _ _ _ => trivial
      refine Agreement.Valid.bind (.attempt (hunlock.imp fun r d hinv hpost => ?_))
      exact .bind (.lift fun u hrely hinv => ⟨(hpost u hrely hinv).1, nofun⟩)
    | ok x =>
      refine Agreement.Valid.bind (.attempt ((valid_unlock hdone (hG x) (hgrows x)).imp
        fun r d hinv hpost => ?_))
      refine .bind (.lift fun u hu _ => .bind (.lift fun v hv hinv => ?_))
      cases r with
      | error e => exact ⟨(hpost v (Rely.trans hu hv) hinv).1, nofun⟩
      | ok _ =>
        refine .pure fun w hw hinv => ?_
        obtain ⟨hready, hG⟩ := hpost w (Rely.trans (Rely.trans hu hv) hw) hinv
        refine ⟨hready, fun y hy => ?_⟩
        obtain rfl := Except.ok.inj hy
        exact hG rfl

end Programs

/-! ### Runs -/

section Runs

variable (sha : String → String) (migrations : List Migration) (L₀ : List LedgerRow)
  (E₀ : List Migration)

/-- What a program that has ended says about the ledger. -/
def Outcome (_ : Op) (i : ι) (o : Except Error Answer) (s : Store ι) : Prop :=
  Ready i s ∧ ∀ report, o = .ok (.report report) → Finished sha migrations L₀ s.rows

variable {sha migrations L₀ E₀}

omit [DecidableEq ι] in
/-- A ledger that a run has gone through does not grow any more. -/
theorem Finished.later {b c : Store ι} (h : Finished sha migrations L₀ b.rows)
    (hgrows : b.rows <+: c.rows) (hinv : Inv sha migrations L₀ E₀ c) :
    Finished sha migrations L₀ c.rows := by
  obtain ⟨taken, left, hprogress⟩ := hinv.progress
  have hlength : c.rows.length ≤ b.rows.length := by
    rw [h.1, Store.rows, hprogress.ledger, hprogress.pending]
    simp
  rwa [← hgrows.eq_of_length_le hlength]

/-- **The runner keeps the agreement of the migration lock.** -/
theorem meets (hordered : Ordered migrations) (hnodup : (L₀.map (·.version)).Nodup) :
    Agreement.Meets (agreement sha migrations L₀ E₀)
      (host : Host ι (Store ι) Statement Reply Error).Exec Ready
      (Outcome sha migrations L₀) (code sha migrations) host.Ends where
  valid p i a _ hready := by
    cases p with
    | run =>
      have hrun : (agreement sha migrations L₀ E₀).Valid host.Exec i _ (run sha migrations) a :=
        valid_locked (G := fun _ => Finished sha migrations L₀) hready
        (fun b hown => owned_runLocked hordered hown)
        (fun _ l e ⟨_, hloop⟩ => hloop.finished hordered hnodup) fun _ b c h => h.later
      refine Agreement.Valid.bind (hrun.imp fun o b hinv hpost => ?_)
      cases o with
      | error e => exact ⟨(hpost b (Rely.refl i b) hinv).1, nofun⟩
      | ok report =>
        exact .pure fun c hrely hinv =>
          ⟨(hpost c hrely hinv).1, fun _ _ => (hpost c hrely hinv).2 _ rfl⟩
    | status =>
      have hstatus : (agreement sha migrations L₀ E₀).Valid host.Exec i _ (status sha migrations) a :=
        valid_locked (G := fun _ _ => True) hready (fun b hown => owned_statusLocked hown)
        (fun _ _ _ _ => trivial) fun _ _ _ _ _ _ => trivial
      refine Agreement.Valid.bind (hstatus.imp fun o b hinv hpost => ?_)
      cases o with
      | error e => exact ⟨(hpost b (Rely.refl i b) hinv).1, nofun⟩
      | ok statuses => exact .pure fun c hrely hinv => ⟨(hpost c hrely hinv).1, nofun⟩
  ready _ _ _ _ _ hpost := hpost.1
  keeps _ _ _ hready hrely _ := hready.later hrely
  other _ _ hends hinv := by
    obtain ⟨i, rfl⟩ := hends
    exact ⟨die_inv hinv i, die_rely _ i⟩

/-- Each migration has taken effect at most once, and exactly when its version is in the ledger. -/
structure Settled (s : Store ι) : Prop where
  once : (s.effects.map (·.version)).Nodup
  keyed : (s.rows.map (·.version)).Nodup
  recorded : ∀ version, version ∈ s.effects.map (·.version) ↔ version ∈ s.rows.map (·.version)

/-- Nothing has begun yet, on a database of any age. -/
structure Fresh (w : World ι (Store ι) Op Statement Reply Error Answer) : Prop where
  idle : ∀ i, w.threads i = .idle
  held : ∀ i, w.state.held i = 0
  txn : ∀ i, w.state.txn i = none
  settled : Settled w.state

theorem Fresh.sound {w : World ι (Store ι) Op Statement Reply Error Answer} (h : Fresh w) :
    Agreement.Sound (agreement sha migrations w.state.rows w.state.effects) host.Exec Ready
      (Outcome sha migrations w.state.rows) w where
  inv := {
    progress := ⟨[], _, rfl, (List.append_nil _).symm, (List.append_nil _).symm, .inr rfl⟩
    exclusive := fun i _ hi => absurd (h.held i ▸ hi) (lt_irrefl 0)
    guarded := fun i hi => absurd (h.txn i) hi }
  holds i := by
    rw [h.idle i]
    exact fun _ => h.txn i

omit [DecidableEq ι] in
/-- The agreement keeps the ledger and the effects together. -/
theorem settled_of_inv {s₀ s : Store ι} (hordered : Ordered migrations) (h₀ : Settled s₀)
    (h : Inv sha migrations s₀.rows s₀.effects s) : Settled s := by
  obtain ⟨taken, left, hprogress⟩ := h.progress
  have hrows : s.rows = s₀.rows ++ taken.map (ledgerRow sha) := hprogress.ledger
  have hkeyed : (s.rows.map (·.version)).Nodup := nodup_of_progress hordered h₀.keyed hprogress
  have hversions : s.rows.map (·.version) = s₀.rows.map (·.version) ++ taken.map (·.version) := by
    rw [hrows, map_append, map_map]
    rfl
  have heffects : s.effects.map (·.version) = s₀.effects.map (·.version) ++ taken.map (·.version) := by
    rw [hprogress.effects, map_append]
  obtain ⟨-, htaken, hdisjoint⟩ := nodup_append.mp (hversions ▸ hkeyed)
  refine ⟨?_, hkeyed, fun version => ?_⟩
  · rw [heffects]
    exact nodup_append.mpr ⟨h₀.once, htaken, fun v hv u hu =>
      hdisjoint v ((h₀.recorded v).mp hv) u hu⟩
  · rw [heffects, hversions, List.mem_append, List.mem_append, h₀.recorded]

end Runs

end Agreement

end LazyPock.Migrate

namespace LazyPock

open Machine Migrate

/-- **The migration runner is safe under concurrent boots.** From any database whose ledger agrees with
what has taken effect, whatever the interleaving of `run` and `status`, of sessions that end and of
nodes that crash: the ledger keeps agreeing, each migration having taken effect at most once; what takes
effect is the pending migrations in their order; a run that has returned a report has found or left
exactly the known versions with their current checksums in the ledger; and nothing takes effect when the
ledger holds a version that is not known. -/
theorem migrations_safe {ι : Type} [DecidableEq ι] {sha : String → String}
    {migrations : List Migration} {w₀ w : World ι (Store ι) Op Statement Reply Error Answer}
    {es : List (Occurrence ι Op)} (hordered : Ordered migrations) (hfresh : Fresh w₀)
    (hrun : Run (World.Step (code sha migrations) host.Exec host.Ends) w₀ es w) :
    Settled w.state ∧
      (∃ taken, taken <+: pending migrations w₀.state.rows ∧
        w.state.effects = w₀.state.effects ++ taken) ∧
      (∀ i report, w.threads i = .running .run (.done (.ok (.report report))) →
        Exact sha migrations w.state.rows) ∧
      ((∃ row ∈ w.state.rows, knows migrations row = false) → w.state.effects = w₀.state.effects) := by
  have hsound := Agreement.Sound.run (meets hordered hfresh.settled.keyed) hfresh.sound hrun
  obtain ⟨taken, left, hprogress⟩ := hsound.inv.progress
  refine ⟨settled_of_inv hordered hfresh.settled hsound.inv,
    ⟨taken, hprogress.pending ▸ List.prefix_append taken left, hprogress.effects⟩,
    fun i report hdone => ((hsound.post_of_done hdone).2 report rfl).2, fun ⟨row, hrow, hunknown⟩ => ?_⟩
  rcases hprogress.known with hknown | rfl
  · rw [Store.rows, hprogress.ledger] at hrow
    have hrow : knows migrations row = true := by
      rcases List.mem_append.mp hrow with hold | hnew
      · exact hknown row hold
      · obtain ⟨m, hm, rfl⟩ := List.mem_map.mp hnew
        have hpending : m ∈ pending migrations w₀.state.rows :=
          hprogress.pending ▸ List.mem_append_left _ hm
        exact List.any_eq_true.mpr ⟨m, (List.mem_filter.mp hpending).1, decide_eq_true rfl⟩
    rw [hunknown] at hrow
    cases hrow
  · rw [hprogress.effects, List.append_nil]

section TwoNodes

instance decidableMigrateWaits (i : Bool) (s : Statement) (a : Store Bool) :
    Decidable (host.Waits i s a) := by
  cases s <;> unfold host Waits <;> infer_instance

/-- Two of the migrations. -/
def twoMigrations : List Migration := [⟨1, "system_tables", "0001"⟩, ⟨2, "superusers", "0002"⟩]

/-- Two nodes and a database that is new. -/
def twoNodes : World Bool (Store Bool) Op Statement Reply Error Answer :=
  ⟨⟨none, [], fun _ => 0, fun _ => none, fun _ => true⟩, fun _ => .idle⟩

/-- Two nodes boot together on a new database: the one that waits for the lock finds everything
applied. -/
theorem migrations_safe_twoNodes : ∃ es, ∃ w : World Bool (Store Bool) Op Statement Reply Error Answer,
    Run (World.Step (code id twoMigrations) host.Exec host.Ends) twoNodes es w ∧
      w.threads false = .running .run (.done (.ok (.report ⟨[], [1, 2]⟩))) ∧
      Settled w.state ∧ Exact id twoMigrations w.state.rows := by
  let es : List (Occurrence Bool Op) := [.begins true .run, .begins false .run] ++
    List.replicate 13 (.asks true) ++ List.replicate 4 (.asks false)
  have hends : ((exec (World.next (code id twoMigrations) host.answer) twoNodes es).any fun w =>
      (w.threads false).ended = some (.run, .ok (.report ⟨[], [1, 2]⟩))) = true := by decide
  obtain ⟨w, hexec, hended⟩ := (Option.any_eq_true _ _).mp hends
  have hrun : Run (World.Step (code id twoMigrations) host.Exec host.Ends) twoNodes es w :=
    World.run_of_exec_next Host.exec_of_answer hexec
  have hdone := Thread.ended_eq_some.mp (of_decide_eq_true hended)
  have hsettled : Settled twoNodes.state := ⟨List.nodup_nil, List.nodup_nil, fun _ => .rfl⟩
  have hsafe := migrations_safe (by simp [Ordered, twoMigrations])
    ⟨fun _ => rfl, fun _ => rfl, fun _ => rfl, hsettled⟩ hrun
  exact ⟨es, w, hrun, hdone, hsafe.1, hsafe.2.2.1 false _ hdone⟩

end TwoNodes

end LazyPock
