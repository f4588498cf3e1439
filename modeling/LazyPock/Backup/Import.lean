import LazyPock.Backup.World

/-!
# Applying an archive

`import` of `crates/db/src/backup.rs`: the definitions first, each in transactions of its own, then
the records under one of three modes, and at the end the drops the caller asked for. A failure of a
definition or of a drop ends the import with an error, under every mode; a failure of the records is
reported, except under `batch`.

## Main definitions

* `Backup.createCollection`, `Backup.applyDefinition`,
  `Backup.applyDefinitions`.
* `Backup.importEach`: the records of each collection in a transaction of its own.
* `Backup.dropUndeclaredCollections`.
* `Backup.importArchive`.

## Main results

* `Backup.importArchive_eq_applied`: the phases of an import that is applied.
-/

namespace LazyPock.Backup

open Text Machine Collections

/-! ### Definitions -/

variable (env : Environment)

/-- Create a collection from its archive definition. -/
def createCollection (ids : Ids) (archive : Archive) (name : String) : Saga World Error Unit := do
  let definition ← Saga.lift (definitionOf archive name)
  let collectionType ← Saga.lift (parseCollectionType definition.collectionType)
  let fields ← Saga.lift (declaredFields definition collectionType)
  let _ ← onCollections env (create env.sha env.server env.toQuery
    { name, collectionType, fields
      rules := definition.rules.getD (.object [])
      options := definition.options.getD (.object [])
      adoptExistingTable := false } ids)
  pure ()

/-- The fields of a definition that are applied: a view's columns come from its query. -/
def appliedFields (definition : ArchiveCollection) (collectionType : CollectionType) :
    Result (Option (List CreateField)) :=
  if collectionType.isTable then some <$> declaredFields definition collectionType else .ok none

/-- Apply an existing collection's definition: its fields, rules and options. -/
def applyDefinition (ids : Ids) (archive : Archive) (name : String) (deleteMissing : Bool) :
    Saga World Error Unit := do
  let definition ← Saga.lift (definitionOf archive name)
  let collectionType ← Saga.lift (parseCollectionType definition.collectionType)
  let fields ← Saga.lift (appliedFields definition collectionType)
  let _ ← onCollections env (update env.sha env.server env.toQuery name
    ⟨definition.rules, definition.options, fields, deleteMissing⟩ ids.field)
  pure ()

/-- The fields an import reports as dropped from a collection, as it was before. -/
def reportedFields (archive : Archive) (options : ImportOptions) (current : List Collection)
    (name : String) : Result (List String) :=
  if options.deleteMissing then
    match current.find? fun collection => collection.name = name with
    | some collection => undeclaredNames archive name collection
    | none => .ok []
  else .ok []

/-- Apply the definition of one collection, and say which of its fields that drops. -/
def defineCollection (ids : Ids) (archive : Archive) (options : ImportOptions)
    (current : List Collection) (entry : String × ImportAction) :
    Saga World Error (List (String × List String)) :=
  match entry.2 with
  | .create => do
    createCollection env ids archive entry.1
    pure []
  | .update => do
    let dropped ← Saga.lift (reportedFields archive options current entry.1)
    applyDefinition env ids archive entry.1 options.deleteMissing
    pure [(entry.1, dropped)]
  | .skip _ => pure []

/-- Apply definitions one after another, the `index`-th with the `index`-th ids. -/
def applyDefinitions (ids : ℕ → Ids) (archive : Archive) (options : ImportOptions)
    (current : List Collection) :
    ℕ → List (String × ImportAction) → Saga World Error (List (String × List String))
  | _, [] => pure []
  | index, entry :: rest => do
    let removed ← defineCollection env (ids index) archive options current entry
    let others ← applyDefinitions ids archive options current (index + 1) rest
    pure (removed ++ others)

/-! ### Reports -/

/-- One collection's result. -/
structure ImportedCollection where
  name : String
  collectionType : Option String
  recordsImported : ℕ
  fieldsRemoved : List String
deriving DecidableEq

/-- What an import did. -/
structure ImportReport where
  imported : List ImportedCollection
  skipped : List (String × String)
  errors : List (String × String)
  removed : List String
deriving DecidableEq

/-- The result of asking to import. -/
inductive ImportOutcome where
  | applied (report : ImportReport)
  | needsConfirmation (preflight : Preflight)
deriving DecidableEq

/-- What one collection will report. -/
def importedOf (archive : Archive) (name : String) (fieldsRemoved : List String) :
    ImportedCollection :=
  ⟨name, (archive.definition name).bind ArchiveCollection.collectionType,
    ((archive.recordsOf name).getD []).length, fieldsRemoved⟩

/-- The fields that were dropped from a collection. -/
def removedFor (removed : List (String × List String)) (name : String) : List String :=
  ((removed.find? fun entry => entry.1 = name).map Prod.snd).getD []

/-! ### Records -/

/-- The records of all collections, one after another. -/
def importBatch (archive : Archive) (removed : List (String × List String)) :
    List String → Saga World Error (List ImportedCollection)
  | [] => pure []
  | name :: rest => do
    applyRecords env archive name
    let others ← importBatch archive removed rest
    pure (importedOf archive name (removedFor removed name) :: others)

/-- How the records of one collection fared in a transaction of their own. -/
inductive Attempt where
  | applied
  /-- The commit failed. -/
  | uncommitted
  /-- A record was refused, and the transaction is rolled back. -/
  | refused (e : Error)
deriving DecidableEq

/-- The records of one collection, in a transaction of their own. -/
def attempt (archive : Archive) (name : String) (w : World) : Attempt × World :=
  match applyRecords env archive name w with
  | (.ok _, after) =>
    if env.commits after then (.applied, after) else (.uncommitted, w.rolledBack after)
  | (.error e, after) => (.refused e, w.rolledBack after)

def ImportReport.withImported (report : ImportReport) (collection : ImportedCollection) :
    ImportReport :=
  { report with imported := report.imported ++ [collection] }

def ImportReport.withError (report : ImportReport) (name message : String) : ImportReport :=
  { report with errors := report.errors ++ [(name, message)] }

/-- The collections a report says something of. -/
def ImportReport.names (report : ImportReport) : List String :=
  report.imported.map ImportedCollection.name ++ report.errors.map Prod.fst

/-- Every collection of the plan that is not reported yet is reported as not attempted. -/
def notAttempted (report : ImportReport) (planned : List String) : ImportReport :=
  planned.foldl (fun report name =>
    if name ∈ report.imported.map ImportedCollection.name ∨ name ∈ report.errors.map Prod.fst
    then report
    else report.withError name "not attempted: an earlier collection failed") report

/-- The records of each collection in a transaction of its own: `per_collection` stops at the first
collection whose records are refused. -/
def importEach (atomic : AtomicMode) (archive : Archive) (removed : List (String × List String))
    (planned : List String) : List String → ImportReport → World → ImportReport × World
  | [], report, w => (report, w)
  | name :: rest, report, w =>
    match attempt env archive name w with
    | (.applied, after) => importEach atomic archive removed planned rest
        (report.withImported (importedOf archive name (removedFor removed name))) after
    | (.uncommitted, after) => importEach atomic archive removed planned rest
        (report.withError name env.server.report) after
    | (.refused e, after) =>
      if atomic = .perCollection then (notAttempted (report.withError name e.message) planned, after)
      else importEach atomic archive removed planned rest (report.withError name e.message) after

/-- The data phase of an import. -/
def importRecords (atomic : AtomicMode) (archive : Archive) (removed : List (String × List String))
    (planned : List String) (report : ImportReport) : Saga World Error ImportReport :=
  match atomic with
  | .batch => do
    let imported ← atomically env (importBatch env archive removed planned)
    pure { report with imported }
  | mode => fun w =>
    (.ok (importEach env mode archive removed planned planned report w).1,
      (importEach env mode archive removed planned planned report w).2)

/-! ### Drops -/

/-- The collections of a list that are neither the server's own nor among some names. -/
def undeclared (current : List Collection) (names : List String) : List String :=
  (current.map Collection.name).filter fun name => !isSystemCollection name && name ∉ names

/-- Drop collections one after another, with their data. -/
def dropCollections : List String → Saga World Error Unit
  | [] => pure ()
  | name :: rest => do
    let _ ← onCollections env (delete env.server name true)
    dropCollections rest

/-- Drop the user collections the payload leaves out. -/
def dropUndeclaredCollections (current : List Collection) (archive : Archive) :
    Saga World Error (List String) := do
  let doomed := undeclared current (archive.collections.map ArchiveCollection.name)
  dropCollections env doomed
  pure doomed

/-- The drops of an import, where they were asked for. -/
def dropPhase (options : ImportOptions) (current : List Collection) (archive : Archive) :
    Saga World Error (List String) :=
  if options.deleteMissing then dropUndeclaredCollections env current archive else pure []

/-! ### Importing -/

/-- An import that need not be confirmed, or is. -/
def importConfirmed (ids : ℕ → Ids) (archive : Archive) (options : ImportOptions)
    (current : List Collection) : Saga World Error ImportReport := do
  let entries := writable (plan archive.collections (current.map Collection.name))
  let removed ← applyDefinitions env ids archive options current 0 entries
  let report ← importRecords env options.atomic archive removed (entries.map Prod.fst)
    ⟨[], (preflight archive options).skipped, [], []⟩
  let dropped ← dropPhase env options current archive
  pure { report with removed := dropped }

/-- Apply an archive. -/
def importArchive (ids : ℕ → Ids) (archive : Archive) (options : ImportOptions) :
    Saga World Error ImportOutcome := do
  let current ← Saga.read fun w => .ok (list w.db)
  if (preflight archive options).requiresConfirmation then
    pure (.needsConfirmation (preflight archive options))
  else do
    let report ← importConfirmed env ids archive options current
    pure (.applied report)

/-! ### The phases of an import -/

section Phases

variable {env : Environment} {ids : ℕ → Ids} {archive : Archive} {options : ImportOptions}
  {w after : World}

/-- The entries of the plan that are written. -/
def planned (archive : Archive) (w : World) : List (String × ImportAction) :=
  writable (plan archive.collections ((list w.db).map Collection.name))

/-- A report before anything was imported. -/
def emptyReport (archive : Archive) (options : ImportOptions) : ImportReport :=
  ⟨[], (preflight archive options).skipped, [], []⟩

theorem requiresConfirmation_of_confirm (hconfirm : options.confirm = true) :
    (preflight archive options).requiresConfirmation = false := by
  simp [preflight, hconfirm]

/-- A confirmed import is applied, or fails as its phases do. -/
theorem importArchive_of_confirm (hconfirm : options.confirm = true) :
    importArchive env ids archive options w =
      (importConfirmed env ids archive options (list w.db) >>= fun report =>
        pure (.applied report)) w := by
  have hread : (Saga.read fun w => .ok (list w.db) : Saga World Error (List Collection)) w =
    (.ok (list w.db), w) := rfl
  rw [importArchive, Saga.bind_of_ok hread, if_neg]
  rw [requiresConfirmation_of_confirm hconfirm]
  exact Bool.false_ne_true

/-- **The phases of an import that is applied**: the definitions, the records and the drops. -/
theorem importArchive_eq_applied (hconfirm : options.confirm = true) {report : ImportReport} :
    importArchive env ids archive options w = (.ok (.applied report), after) ↔
      ∃ removed mid records data dropped,
        applyDefinitions env ids archive options (list w.db) 0 (planned archive w) w =
          (.ok removed, mid) ∧
        importRecords env options.atomic archive removed ((planned archive w).map Prod.fst)
          (emptyReport archive options) mid = (.ok records, data) ∧
        dropPhase env options (list w.db) archive data = (.ok dropped, after) ∧
        report = { records with removed := dropped } := by
  rw [importArchive_of_confirm hconfirm, Saga.bind_eq_ok]
  constructor
  · rintro ⟨confirmed, last, hconfirmed, hpure⟩
    obtain ⟨removed, mid, hremoved, hconfirmed⟩ := Saga.bind_eq_ok.mp hconfirmed
    obtain ⟨records, data, hrecords, hconfirmed⟩ := Saga.bind_eq_ok.mp hconfirmed
    obtain ⟨dropped, late, hdropped, hconfirmed⟩ := Saga.bind_eq_ok.mp hconfirmed
    simp only [Saga.pure_apply, Prod.mk.injEq, Except.ok.injEq, ImportOutcome.applied.injEq]
      at hconfirmed hpure
    obtain ⟨rfl, rfl⟩ := hconfirmed
    obtain ⟨rfl, rfl⟩ := hpure
    exact ⟨removed, mid, records, data, dropped, hremoved, hrecords, hdropped, rfl⟩
  · rintro ⟨removed, mid, records, data, dropped, hremoved, hrecords, hdropped, rfl⟩
    refine ⟨{ records with removed := dropped }, after, ?_, rfl⟩
    refine Saga.bind_eq_ok.mpr ⟨removed, mid, hremoved, ?_⟩
    refine Saga.bind_eq_ok.mpr ⟨records, data, hrecords, ?_⟩
    exact Saga.bind_eq_ok.mpr ⟨dropped, after, hdropped, rfl⟩

end Phases

end LazyPock.Backup
