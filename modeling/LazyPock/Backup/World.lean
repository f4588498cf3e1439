import LazyPock.Backup.Archive
import LazyPock.Schema.Steps

/-!
# The database an archive is applied to

The collections of `Db` with the rows of their tables. An operation on collections changes
the rows only through the columns it adds or drops. The statements on rows and triggers that an
archive is applied with are kept in a list as they are sent, also those of a transaction that is
rolled back: the list is no part of the database and nothing reads it.

What the database decides by itself is a parameter, `Environment`.

## Main definitions

* `Backup.World`, `Backup.Environment`.
* `Backup.onCollections`: an operation on collections.
* `Backup.RowStatement`, `Backup.execute`, `Backup.send`.
* `Backup.atomically`: a transaction over statements on rows.
* `Backup.applyRecords`: the records of one collection.
* `Backup.World.Kept`: the collections of some names are as they were.

## Main results

* `Backup.execute_db`: a statement on rows leaves the collections alone.
* `Backup.applyRecords_preserves`: what every statement on a table keeps, its records keep.
-/

namespace LazyPock.Backup

open Text Machine Collections

/-- The values of a row, by column. -/
abbrev Row := List (String × Json)

/-- A statement on the rows or the triggers of a table. -/
inductive RowStatement where
  | disableTriggers (table : String)
  | deleteFrom (table : String)
  /-- `insert ... on conflict (id) do update` of the given columns. -/
  | upsert (table : String) (columns : List String) (record : List (String × Json))
  | enableTriggers (table : String)
deriving DecidableEq

def RowStatement.table : RowStatement → String
  | disableTriggers table | deleteFrom table | upsert table _ _ | enableTriggers table => table

/-- The collections, and the rows of their tables. -/
structure World where
  db : Db
  /-- The rows of a table by id, in the order of their ids. -/
  rows : String → List (String × Row)
  /-- The tables whose triggers are disabled. -/
  disabled : String → Bool
  /-- The statements on rows and triggers so far. -/
  sent : List RowStatement

/-- What the database decides by itself, beside the parameters of the operations on collections. -/
structure Environment where
  sha : String → String
  server : Server
  toQuery : Json → List Collection → Result String
  /-- What a column of a row holds that was given no value. -/
  fill : String → String → Json
  /-- `jsonb_populate_record` on one column, nothing where the value is none of its type. -/
  convert : String → String → Json → Option Json
  /-- Whether the constraints hold after a statement. -/
  admits : World → Bool
  /-- Whether a transaction can be committed. -/
  commits : World → Bool

/-- A database that refuses nothing. -/
def Environment.lenient : Environment where
  sha := noSha
  server := .lenient
  toQuery := noBuilder
  fill _ _ := .null
  convert _ _ value := some value
  admits _ := true
  commits _ := true

/-- A database without collections. -/
def World.empty : World := ⟨.empty, fun _ => [], fun _ => false, []⟩

/-- The ids of an import into an empty database. -/
def importIds (index : ℕ) : Ids :=
  ⟨"c" ++ toString index, fun n => "f" ++ toString index ++ "x" ++ toString n,
    fun n => "b" ++ toString index ++ "x" ++ toString n⟩

/-! ### Operations on collections -/

/-- A row under the columns its table has now: a column that stays keeps its value. -/
def settleRow (env : Environment) (table : String) (columns : List String) (row : Row) : Row :=
  columns.map fun column => (column, (Assoc.lookup column row).getD (env.fill table column))

/-- The rows of a table whose columns may have changed. -/
def settle (env : Environment) (before after : Db) (table : String) (rows : List (String × Row)) :
    List (String × Row) :=
  if before.columnsOf table = after.columnsOf table then rows
  else if after.columnsOf table = [] then []
  else rows.map fun entry => (entry.1, settleRow env table (after.columnsOf table) entry.2)

/-- The world with other collections. -/
def World.withDb (env : Environment) (w : World) (db : Db) : World :=
  { w with db, rows := fun table => settle env w.db db table (w.rows table) }

/-- An operation on collections. -/
def onCollections {α : Type} (env : Environment) (operation : Saga Db Error α) :
    Saga World Error α := fun w =>
  ((operation w.db).1, w.withDb env (operation w.db).2)

/-! ### Statements on rows -/

def World.setRows (w : World) (table : String) (rows : List (String × Row)) : World :=
  { w with rows := Function.update w.rows table rows }

def World.setDisabled (w : World) (table : String) (disabled : Bool) : World :=
  { w with disabled := Function.update w.disabled table disabled }

/-- The row an upsert leaves: one that is there takes the values of the declared columns, a new one
what the database fills in for the others. -/
def upsertedRow (env : Environment) (table : String) (columns : List String) (values : Row) :
    Option Row → Row
  | some row => columns.map fun column =>
      (column, ((if column = "id" then none else Assoc.lookup column values).orElse fun _ =>
        Assoc.lookup column row).getD (env.fill table column))
  | none => columns.map fun column =>
      (column, (Assoc.lookup column values).getD (env.fill table column))

/-- The values of the declared columns, nothing where one of them cannot be converted. -/
def convertRecord (env : Environment) (table : String) (record : List (String × Json)) :
    List String → Option Row
  | [] => some []
  | column :: rest => do
    let value ← env.convert table column ((Assoc.lookup column record).getD .null)
    let values ← convertRecord env table record rest
    some ((column, value) :: values)

/-- `insert into table (columns) ... on conflict (id) do update` -/
def upsertRow (env : Environment) (w : World) (table : String) (declared : List String)
    (record : List (String × Json)) : Option World := do
  let values ← convertRecord env table record declared
  let id ← (Assoc.lookup "id" values).bind Json.asStr
  let row := upsertedRow env table (w.db.columnsOf table) values (Assoc.lookup id (w.rows table))
  some (w.setRows table (Assoc.insert id row (w.rows table)))

/-- What a statement on a table does; one on anything else is refused. -/
def executeOnTable (env : Environment) (w : World) : RowStatement → Option World
  | .disableTriggers table => some (w.setDisabled table true)
  | .deleteFrom table => some (w.setRows table [])
  | .upsert table declared record =>
    if "id" ∈ w.db.columnsOf table then
      (upsertRow env w table declared record).filter fun after => env.admits after
    else none
  | .enableTriggers table => some (w.setDisabled table false)

/-- Whether a name is the one of a table. -/
def isTable (db : Db) (table : String) : Bool := (db.tables table).any Relation.isTable

def execute (env : Environment) (w : World) (statement : RowStatement) : Option World :=
  if isTable w.db statement.table then executeOnTable env w statement else none

/-- Send a statement. -/
def send (env : Environment) (statement : RowStatement) (e : Error) : Saga World Error Unit :=
  fun w =>
    let asked := { w with sent := w.sent ++ [statement] }
    match execute env asked statement with
    | some after => (.ok (), after)
    | none => (.error e, asked)

/-- The world as it was, but for the statements that were sent meanwhile. -/
def World.rolledBack (before after : World) : World := { before with sent := after.sent }

/-- A transaction: it is committed where its work succeeds, and rolled back where it fails. -/
def atomically {α : Type} (env : Environment) (work : Saga World Error α) : Saga World Error α :=
  fun w => match work w with
    | (.ok a, after) =>
      if env.commits after then (.ok a, after)
      else (.error (dbError env.server), w.rolledBack after)
    | (.error e, after) => (.error e, w.rolledBack after)

/-! ### The records of a collection -/

/-- Insert or update one record by `id`. -/
def upsert (env : Environment) (table : String) (columns : List String) (record : Json) :
    Saga World Error Unit :=
  match record with
  | .object entries =>
    if (Assoc.lookup "id" entries).isNone then
      Saga.lift (.error (.invalid ("a record in " ++ table ++ " has no id; an import upserts by id")))
    else send env (.upsert table ((entries.map Prod.fst).filter fun key => key ∈ columns) entries)
      (refused env.server ("cannot import a record into " ++ table))
  | _ => Saga.lift (.error (.invalid ("a record in " ++ table ++ " is not an object")))

/-- Insert or update records in turn. -/
def upsertAll (env : Environment) (table : String) (columns : List String) :
    List Json → Saga World Error Unit
  | [] => pure ()
  | record :: rest => do
    upsert env table columns record
    upsertAll env table columns rest

/-- Write one collection's records. -/
def applyRecords (env : Environment) (archive : Archive) (name : String) :
    Saga World Error Unit := do
  let definition ← Saga.lift (definitionOf archive name)
  let collectionType ← Saga.lift (parseCollectionType definition.collectionType)
  if collectionType = .view then pure ()
  else do
    let columns ← Saga.read fun w => .ok (w.db.columnsOf name)
    upsertAll env name columns ((archive.recordsOf name).getD [])

/-! ### What a statement does -/

section Statements

variable {env : Environment} {w after : World} {statement : RowStatement}

@[simp] theorem db_withDb (w : World) (db : Db) : (w.withDb env db).db = db := rfl

@[simp] theorem disabled_withDb (w : World) (db : Db) : (w.withDb env db).disabled = w.disabled := rfl

@[simp] theorem sent_withDb (w : World) (db : Db) : (w.withDb env db).sent = w.sent := rfl

@[simp] theorem db_rolledBack (w after : World) : (w.rolledBack after).db = w.db := rfl

@[simp] theorem rows_rolledBack (w after : World) : (w.rolledBack after).rows = w.rows := rfl

@[simp] theorem disabled_rolledBack (w after : World) :
    (w.rolledBack after).disabled = w.disabled := rfl

@[simp] theorem sent_rolledBack (w after : World) : (w.rolledBack after).sent = after.sent := rfl

theorem upsertRow_eq_some {table : String} {declared : List String}
    {record : List (String × Json)} :
    upsertRow env w table declared record = some after ↔
      ∃ values id, convertRecord env table record declared = some values ∧
        (Assoc.lookup "id" values).bind Json.asStr = some id ∧
        w.setRows table (Assoc.insert id (upsertedRow env table (w.db.columnsOf table) values
          (Assoc.lookup id (w.rows table))) (w.rows table)) = after := by
  simp only [upsertRow, Option.bind_eq_bind, Option.bind_eq_some_iff, Option.some.injEq]
  constructor
  · rintro ⟨values, hvalues, id, hid, rfl⟩
    exact ⟨values, id, hvalues, hid, rfl⟩
  · rintro ⟨values, id, hvalues, hid, rfl⟩
    exact ⟨values, hvalues, id, hid, rfl⟩

theorem execute_eq_some :
    execute env w statement = some after ↔
      isTable w.db statement.table = true ∧ executeOnTable env w statement = some after := by
  unfold execute
  split_ifs with h <;> simp [h]

/-- A statement on rows leaves the collections alone, and the statements before it. -/
theorem execute_db (h : execute env w statement = some after) :
    after.db = w.db ∧ after.sent = w.sent := by
  obtain ⟨-, h⟩ := execute_eq_some.mp h
  cases statement with
  | disableTriggers table | deleteFrom table | enableTriggers table =>
    obtain rfl := Option.some.inj h
    exact ⟨rfl, rfl⟩
  | upsert table declared record =>
    simp only [executeOnTable] at h
    split_ifs at h
    obtain ⟨hrow, -⟩ := Option.filter_eq_some_iff.mp h
    obtain ⟨-, -, -, -, rfl⟩ := upsertRow_eq_some.mp hrow
    exact ⟨rfl, rfl⟩

/-- A statement leaves the rows of every other table alone, and their triggers. -/
theorem execute_other (h : execute env w statement = some after) {table : String}
    (hne : table ≠ statement.table) :
    after.rows table = w.rows table ∧ after.disabled table = w.disabled table := by
  obtain ⟨-, h⟩ := execute_eq_some.mp h
  cases statement with
  | disableTriggers other | enableTriggers other =>
    obtain rfl := Option.some.inj h
    exact ⟨rfl, Function.update_of_ne hne _ _⟩
  | deleteFrom other =>
    obtain rfl := Option.some.inj h
    exact ⟨Function.update_of_ne hne _ _, rfl⟩
  | upsert other declared record =>
    simp only [executeOnTable] at h
    split_ifs at h
    obtain ⟨hrow, -⟩ := Option.filter_eq_some_iff.mp h
    obtain ⟨-, -, -, -, rfl⟩ := upsertRow_eq_some.mp hrow
    exact ⟨Function.update_of_ne hne _ _, rfl⟩

end Statements

/-! ### What is kept -/

/-- The collections of some names are as they were, with the columns, rows and triggers of their
tables. -/
structure World.Kept (p : String → Bool) (before after : World) : Prop where
  db : Db.Kept p before.db after.db
  rows : ∀ name, p name = true → after.rows name = before.rows name
  disabled : ∀ name, p name = true → after.disabled name = before.disabled name

namespace World.Kept

variable {p : String → Bool} {env : Environment} {a b c : World}

theorem refl (p : String → Bool) (a : World) : Kept p a a := ⟨.refl p a.db, fun _ _ => rfl, fun _ _ => rfl⟩

theorem trans (hab : Kept p a b) (hbc : Kept p b c) : Kept p a c :=
  ⟨hab.db.trans hbc.db, fun name h => (hbc.rows name h).trans (hab.rows name h),
    fun name h => (hbc.disabled name h).trans (hab.disabled name h)⟩

/-- Where the collections are kept, so are their rows. -/
theorem onCollections {α : Type} {operation : Saga Db Error α}
    (h : Db.Kept p a.db (operation a.db).2) : Kept p a (onCollections env operation a).2 where
  db := h
  rows name hname := if_pos (h.columns name hname).symm
  disabled _ _ := rfl

/-- A statement on a table that is not kept. -/
theorem send {statement : RowStatement} {e : Error} (h : p statement.table = false) :
    Kept p a (send env statement e a).2 := by
  unfold Backup.send
  dsimp only
  split
  next after hexecute =>
    have hne : ∀ name, p name = true → name ≠ statement.table := by
      rintro _ hname rfl
      rw [h] at hname
      cases hname
    exact ⟨(execute_db hexecute).1 ▸ .refl p a.db,
      fun name hname => (execute_other hexecute (hne name hname)).1,
      fun name hname => (execute_other hexecute (hne name hname)).2⟩
  next => exact ⟨.refl p a.db, fun _ _ => rfl, fun _ _ => rfl⟩

theorem atomically {α : Type} {work : Saga World Error α} (h : Kept p a (work a).2) :
    Kept p a (atomically env work a).2 := by
  have hback : ∀ w : World, Kept p a (a.rolledBack w) :=
    fun _ => ⟨.refl p a.db, fun _ _ => rfl, fun _ _ => rfl⟩
  unfold Backup.atomically
  split
  next x after hwork =>
    rw [hwork] at h
    split_ifs
    · exact h
    · exact hback after
  next e after _ => exact hback after

end World.Kept

/-- What every statement on a table keeps, the records of a collection keep. -/
theorem applyRecords_preserves {env : Environment} {archive : Archive} {name : String}
    {J : World → Prop} (h : ∀ columns record e,
      Saga.Preserves J (send env (.upsert name columns record) e)) :
    Saga.Preserves J (applyRecords env archive name) := by
  have hall : ∀ (columns : List String) (records : List Json),
      Saga.Preserves J (upsertAll env name columns records) := by
    intro columns records
    induction records with
    | nil => exact .pure _
    | cons record rest ih =>
      refine .bind ?_ fun _ => ih
      unfold upsert
      split
      · split_ifs
        · exact .lift _
        · exact h _ _ _
      · exact .lift _
  refine (Saga.Preserves.lift _).bind fun definition => (Saga.Preserves.lift _).bind fun t => ?_
  split_ifs
  · exact .pure _
  · exact (Saga.Preserves.read _).bind fun columns => hall columns _

end LazyPock.Backup
