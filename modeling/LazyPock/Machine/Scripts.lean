import Mathlib.Data.List.Basic

/-!
# Statements of one request

A request runs statements against a database, one after the other, and stops at the first that fails.
It may run them in one transaction, or each on its own; and it may be interrupted between any two of
them. What matters afterwards is what the database has kept.

## Main definitions

* `Machine.Statement`, `Machine.runAll`.
* `Machine.autocommit`: each statement is kept on its own.
* `Machine.transaction`: the statements are kept together, by a commit that comes last.

## Main results

* `Machine.autocommit_nil`, `Machine.autocommit_cons_zero`.
* `Machine.transaction_of_le`, `Machine.transaction_of_lt`.
-/

namespace Machine

variable {δ : Type*}

/-- The database after a statement, or nothing when the statement fails. -/
abbrev Statement (δ : Type*) := δ → Option δ

/-- The database after all statements, or nothing when one of them fails. -/
def runAll : List (Statement δ) → δ → Option δ
  | [], db => some db
  | statement :: rest, db => (statement db).bind (runAll rest)

/-- What is kept of statements that are committed one by one, when the connection is lost after
`completed` of them. -/
def autocommit : List (Statement δ) → (completed : ℕ) → δ → δ
  | [], _, db => db
  | _ :: _, 0, db => db
  | statement :: rest, completed + 1, db =>
    match statement db with
    | some next => autocommit rest completed next
    | none => db

/-- What is kept of a transaction, when the connection is lost after `completed` statements; the
commit is the one behind the last. -/
def transaction (statements : List (Statement δ)) (completed : ℕ) (db : δ) : δ :=
  if statements.length < completed then (runAll statements db).getD db else db

@[simp] theorem autocommit_nil (completed : ℕ) (db : δ) : autocommit [] completed db = db := by
  cases completed <;> rfl

@[simp] theorem autocommit_cons_zero (statement : Statement δ) (rest : List (Statement δ)) (db : δ) :
    autocommit (statement :: rest) 0 db = db := rfl

theorem transaction_of_le {statements : List (Statement δ)} {completed : ℕ}
    (h : completed ≤ statements.length) (db : δ) : transaction statements completed db = db :=
  if_neg (Nat.not_lt.mpr h)

theorem transaction_of_lt {statements : List (Statement δ)} {completed : ℕ}
    (h : statements.length < completed) (db : δ) :
    transaction statements completed db = (runAll statements db).getD db := if_pos h

end Machine
