import LazyPock.Backup.Import
import LazyPock.Schema.Drops

/-!
# What a failed import loses

A batch import that fails leaves the records as they were: they are written in one transaction. Its
definitions are applied before that, each in transactions of its own, so a column that they drop is
gone, and with it what the rows held there.

## Main definitions

* `Backup.Holds`: a row holds a value in a column.
* `Backup.LosesNothing`: the rows of user tables hold what they held.
* `Backup.LeavesOut`: a definition of the archive has no field for a column.
* `Backup.RecordsCommitted`: an import came to its drops.

## Main results

* `Backup.applyDefinitions_keeps`: the definitions keep what they do not leave out.
* `Backup.failed_batch_import`: what a failed batch import keeps.
-/

namespace LazyPock.Backup

open Text Machine Collections Db

/-! ### Cells -/

/-- A row of a table holds a value in a column. -/
def Holds (w : World) (table id column : String) (value : Json) : Prop :=
  HasColumn table column w.db ∧ ∃ row, Assoc.lookup id (w.rows table) = some row ∧
    Assoc.lookup column row = some value

/-- **Nothing is lost**: every row of a user table holds what it held, in every column. -/
def LosesNothing (before after : World) : Prop :=
  ∀ table, isSystemCollection table = false → ∀ id column value,
    Holds before table id column value → Holds after table id column value

section Holds

variable {env : Environment} {w : World} {table id column : String} {value : Json}

theorem holds_iff : Holds w table id column value ↔ HasColumn table column w.db ∧
    (Assoc.lookup id (w.rows table)).bind (Assoc.lookup column) = some value := by
  rw [Holds, Option.bind_eq_some_iff]

instance : Decidable (Holds w table id column value) :=
  haveI : Decidable (HasColumn table column w.db) := inferInstanceAs (Decidable (_ ∈ _))
  decidable_of_iff _ holds_iff.symm

theorem lookup_settleRow {columns : List String} {row : Row} (hcolumn : column ∈ columns) :
    Assoc.lookup column (settleRow env table columns row) =
      some ((Assoc.lookup column row).getD (env.fill table column)) := by
  unfold settleRow
  induction columns with
  | nil => cases hcolumn
  | cons first columns ih =>
    by_cases hfirst : first = column
    · simp [Assoc.lookup, hfirst]
    · have hrest : column ∈ columns := (List.mem_cons.mp hcolumn).resolve_left (Ne.symm hfirst)
      rw [List.map_cons, Assoc.lookup, if_neg hfirst, ih hrest]

/-- **A column that stays keeps its values**, whatever becomes of the others. -/
theorem Holds.withDb (h : Holds w table id column value) {db : Db}
    (hcolumn : HasColumn table column db) : Holds (w.withDb env db) table id column value := by
  obtain ⟨hbefore, row, hrow, hvalue⟩ := h
  refine ⟨hcolumn, ?_⟩
  change ∃ row, Assoc.lookup id (settle env w.db db table (w.rows table)) = some row ∧ _
  unfold settle
  split_ifs with hsame hnone
  · exact ⟨row, hrow, hvalue⟩
  · rw [HasColumn, hnone] at hcolumn
    cases hcolumn
  · refine ⟨settleRow env table (db.columnsOf table) row, ?_, ?_⟩
    · rw [Assoc.lookup_map fun _ row => settleRow env table (db.columnsOf table) row, hrow,
        Option.map_some]
    · rw [lookup_settleRow hcolumn, hvalue, Option.getD_some]

theorem Holds.rolledBack (h : Holds w table id column value) (other : World) :
    Holds (w.rolledBack other) table id column value := h

end Holds

/-! ### Definitions -/

/-- The fields that a definition of the archive is applied with. -/
def appliedTo (archive : Archive) (name : String) : Result (Option (List CreateField)) := do
  let definition ← definitionOf archive name
  let collectionType ← parseCollectionType definition.collectionType
  appliedFields definition collectionType

/-- **A definition leaves a column out**: one that the archive has for a collection, found by its id or
its name, has no field of that name that is applied, and the column is not built in. -/
def LeavesOut (archive : Archive) (label : String × String × CollectionType) (column : String) : Prop :=
  ∃ name fields, (label.1 = name ∨ label.2.1 = name) ∧ isSystemCollection name = false ∧
    appliedTo archive name = .ok (some fields) ∧ column ∉ fields.map CreateField.name ∧
    isBuiltinColumn label.2.2 column = false

/-- A column that no definition drops: nothing that is undeclared is dropped, or the column is one of a
collection whose definitions do not leave it out. -/
def Protected (archive : Archive) (options : ImportOptions) (table column : String) (w : World) :
    Prop :=
  options.deleteMissing = true →
    ∃ label ∈ w.db.labels, label.2.1 = table ∧ ¬ LeavesOut archive label column

/-- A value is held in a column that no definition drops. -/
structure Kept (archive : Archive) (options : ImportOptions) (table id column : String) (value : Json)
    (w : World) : Prop where
  keeps : Protected archive options table column w
  holds : Holds w table id column value

section Definitions

variable {env : Environment} {ids : ℕ → Ids} {archive : Archive} {options : ImportOptions}
  {w after : World} {table id column : String} {value : Json}

/-- An operation that keeps the collections and a column keeps what is held there. -/
theorem onCollections_keeps {α : Type} {operation : Saga Db Error α}
    (hlabels : w.db.labels ⊆ (operation w.db).2.labels)
    (hcolumn : HasColumn table column (operation w.db).2)
    (h : Kept archive options table id column value w) :
    Kept archive options table id column value (onCollections env operation w).2 where
  keeps hdelete :=
    let ⟨label, hlabel, hkeeps⟩ := h.keeps hdelete
    ⟨label, hlabels hlabel, hkeeps⟩
  holds := h.holds.withDb hcolumn

theorem createCollection_keeps {ids : Ids} {name : String} :
    Saga.Preserves (Kept archive options table id column value)
      (createCollection env ids archive name) := by
  refine (Saga.Preserves.lift _).bind fun definition => (Saga.Preserves.lift _).bind fun t =>
    (Saga.Preserves.lift _).bind fun fields => .bind (fun w h => ?_) fun _ => .pure _
  refine onCollections_keeps (fun label hlabel => ?_) ((create_grown _ _).columns _ h.holds.1) h
  obtain ⟨c, hc, rfl⟩ := List.mem_map.mp hlabel
  obtain ⟨d, hd, hid, hname, htype, -⟩ := (create_grown _ _).collections c hc
  rw [← hid, ← hname, ← htype]
  exact List.mem_map_of_mem hd

/-- A column that is not left out is spared by the definition that is applied to its collection. -/
theorem spared_of_not_leavesOut {db : Db} {name : String} {existing : Collection}
    {fields : Option (List CreateField)} {rules options : Option Json} {deleteMissing : Bool}
    {label : String × String × CollectionType} (hsystem : isSystemCollection name = false)
    (hfields : appliedTo archive name = .ok fields) (hget : get db name = .ok existing)
    (hlabel : label ∈ db.labels) (hname : existing.name = label.2.1)
    (hkeeps : ¬ LeavesOut archive label column) :
    Spared existing ⟨rules, options, fields, deleteMissing⟩ column := by
  obtain ⟨stored, hstored, rfl, hfound⟩ := exists_of_get hget
  obtain ⟨c, hc, rfl⟩ := List.mem_map.mp hlabel
  obtain rfl := List.inj_on_of_nodup_map db.keyed.names hstored hc hname
  rintro given hgiven -
  by_contra hspared
  obtain ⟨hundeclared, hown⟩ := not_or.mp hspared
  refine hkeeps ⟨name, given, hfound, hsystem, ?_, hundeclared, Bool.eq_false_iff.mpr hown⟩
  rw [hfields, ← hgiven]

theorem applyDefinition_keeps {ids : Ids} {name : String}
    (hsystem : isSystemCollection name = false) :
    Saga.Preserves (Kept archive options table id column value)
      (applyDefinition env ids archive name options.deleteMissing) := by
  refine .lift_bind fun definition hdefinition => .lift_bind fun collectionType htype =>
    .lift_bind fun fields hfields => .bind (fun w h => ?_) fun _ => .pure _
  have happlied : appliedTo archive name = .ok fields :=
    bind_eq_ok.mpr ⟨_, hdefinition, bind_eq_ok.mpr ⟨_, htype, hfields⟩⟩
  refine onCollections_keeps (fun _ hlabel => (update_labels _ _ _).symm ▸ hlabel) ?_ h
  refine update_keeps_column (fun existing hget hname => ?_) h.holds.1
  by_cases hdelete : options.deleteMissing = true
  · obtain ⟨label, hlabel, rfl, hkeeps⟩ := h.keeps hdelete
    exact spared_of_not_leavesOut hsystem happlied hget hlabel hname hkeeps
  · exact fun _ _ h => absurd h hdelete

theorem defineCollection_keeps {ids : Ids} {current : List Collection}
    {entry : String × ImportAction} (hsystem : isSystemCollection entry.1 = false) :
    Saga.Preserves (Kept archive options table id column value)
      (defineCollection env ids archive options current entry) := by
  unfold defineCollection
  split
  · exact createCollection_keeps.bind fun _ => .pure _
  · exact (Saga.Preserves.lift _).bind fun _ =>
      (applyDefinition_keeps hsystem).bind fun _ => .pure _
  · exact .pure _

/-- **The definitions keep what they do not leave out**, also where one of them fails. -/
theorem applyDefinitions_keeps {current : List Collection} {index : ℕ}
    {entries : List (String × ImportAction)}
    (hsystem : ∀ entry ∈ entries, isSystemCollection entry.1 = false) :
    Saga.Preserves (Kept archive options table id column value)
      (applyDefinitions env ids archive options current index entries) := by
  induction entries generalizing index with
  | nil => exact .pure _
  | cons entry rest ih =>
    obtain ⟨hentry, hrest⟩ := List.forall_mem_cons.mp hsystem
    exact (defineCollection_keeps hentry).bind fun _ => (ih hrest).bind fun _ => .pure _

end Definitions

/-! ### Failed imports -/

/-- The records of an import were committed: what fails after that is a drop. -/
def RecordsCommitted (env : Environment) (ids : ℕ → Ids) (archive : Archive)
    (options : ImportOptions) (w : World) : Prop :=
  ∃ removed mid report data,
    applyDefinitions env ids archive options (list w.db) 0 (planned archive w) w =
      (.ok removed, mid) ∧
    importRecords env options.atomic archive removed ((planned archive w).map Prod.fst)
      (emptyReport archive options) mid = (.ok report, data)

section Imports

variable {env : Environment} {ids : ℕ → Ids} {archive : Archive} {options : ImportOptions}
  {w after : World} {table id column : String} {value : Json}

/-- What is made of a result fails where the result does. -/
theorem error_of_bind_pure {α β : Type} {m : Saga World Error α} {f : α → β} {e : Error}
    (h : (m >>= fun a => pure (f a)) w = (.error e, after)) : m w = (.error e, after) := by
  rcases Saga.bind_eq_error.mp h with hfailed | ⟨a, mid, -, hpure⟩
  · exact hfailed
  · cases (Prod.mk.inj hpure).1

/-- Where the records are not all written, none is. -/
theorem importRecords_batch_error {removed : List (String × List String)} {names : List String}
    {report : ImportReport} {e : Error}
    (h : importRecords env .batch archive removed names report w = (.error e, after)) :
    ∃ other, after = w.rolledBack other := by
  have hfailed : atomically env (importBatch env archive removed names) w = (.error e, after) :=
    error_of_bind_pure h
  unfold atomically at hfailed
  split at hfailed
  next imported other hwork =>
    split_ifs at hfailed with hcommits
    · cases (Prod.mk.inj hfailed).1
    · exact ⟨other, (Prod.mk.inj hfailed).2.symm⟩
  next e other hwork => exact ⟨other, (Prod.mk.inj hfailed).2.symm⟩

/-- The phases an import that fails came to. -/
theorem importArchive_error {e : Error}
    (h : importArchive env ids archive options w = (.error e, after)) :
    applyDefinitions env ids archive options (list w.db) 0 (planned archive w) w = (.error e, after) ∨
      (∃ removed mid, applyDefinitions env ids archive options (list w.db) 0 (planned archive w) w =
          (.ok removed, mid) ∧
        importRecords env options.atomic archive removed ((planned archive w).map Prod.fst)
          (emptyReport archive options) mid = (.error e, after)) ∨
      (options.deleteMissing = true ∧ RecordsCommitted env ids archive options w) := by
  have hread : (Saga.read fun w => .ok (list w.db) : Saga World Error (List Collection)) w =
    (.ok (list w.db), w) := rfl
  rw [importArchive, Saga.bind_of_ok hread] at h
  split_ifs at h
  · cases (Prod.mk.inj h).1
  · rcases Saga.bind_eq_error.mp (error_of_bind_pure h) with hdefinitions | ⟨removed, mid, hremoved, hrest⟩
    · exact .inl hdefinitions
    · rcases Saga.bind_eq_error.mp hrest with hrecords | ⟨report, data, hreport, hrest⟩
      · exact .inr (.inl ⟨removed, mid, hremoved, hrecords⟩)
      · refine .inr (.inr ⟨?_, removed, mid, report, data, hremoved, hreport⟩)
        have hdrops := error_of_bind_pure hrest
        unfold dropPhase at hdrops
        split_ifs at hdrops with hdelete
        · exact hdelete
        · cases (Prod.mk.inj hdrops).1

/-- A failed import keeps what its definitions do not drop, unless the records were committed. -/
theorem failed_batch_keeps (hbatch : options.atomic = .batch) {e : Error}
    (h : importArchive env ids archive options w = (.error e, after))
    (hrecords : options.deleteMissing = true → ¬ RecordsCommitted env ids archive options w)
    (hkept : Kept archive options table id column value w) : Holds after table id column value := by
  have hsystem : ∀ entry ∈ planned archive w, isSystemCollection entry.1 = false :=
    fun entry hentry => (mem_writable.mp hentry).2.1
  have hdefined : Kept archive options table id column value (applyDefinitions env ids archive options
      (list w.db) 0 (planned archive w) w).2 := applyDefinitions_keeps hsystem w hkept
  rcases importArchive_error h with hfailed | ⟨removed, mid, hremoved, hfailed⟩ | ⟨hdelete, hlate⟩
  · rw [hfailed] at hdefined
    exact hdefined.holds
  · rw [hremoved] at hdefined
    rw [hbatch] at hfailed
    obtain ⟨other, rfl⟩ := importRecords_batch_error hfailed
    exact hdefined.holds.rolledBack other
  · exact absurd hlate (hrecords hdelete)

/-- **What a failed batch import keeps**: every value of a user's table, where nothing undeclared is
dropped. Where it is, every value of a user's collection in a column that no definition leaves out, as
long as the records were not committed. -/
theorem failed_batch_import (hbatch : options.atomic = .batch) {e : Error}
    (h : importArchive env ids archive options w = (.error e, after)) :
    (options.deleteMissing = false → LosesNothing w after) ∧
    (¬ RecordsCommitted env ids archive options w → ∀ label ∈ w.db.labels,
      isSystemCollection label.2.1 = false → ∀ id column value, ¬ LeavesOut archive label column →
      Holds w label.2.1 id column value → Holds after label.2.1 id column value) := by
  constructor
  · intro hkeep table _ id column value hholds
    have hdelete : ¬ options.deleteMissing = true := by simp [hkeep]
    exact failed_batch_keeps hbatch h (fun h => absurd h hdelete)
      ⟨fun h => absurd h hdelete, hholds⟩
  · intro hrecords label hlabel _ id column value hkeeps hholds
    exact failed_batch_keeps hbatch h (fun _ => hrecords)
      ⟨fun _ => ⟨label, hlabel, rfl, hkeeps⟩, hholds⟩

end Imports

/-! ### A column that is dropped -/

/-- A collection `notes` with a text `title`, and a row. -/
def notesArchive : Archive :=
  ⟨[⟨"notes", some "base", [.object [("name", .string "title"), ("type", .string "text")]], none, none,
    []⟩], [("notes", [.object [("id", .string "n1"), ("title", .string "hello")]])]⟩

/-- `notes` without its `title`, and a record without an id. -/
def untitledArchive : Archive :=
  ⟨[⟨"notes", some "base", [], none, none, []⟩], [("notes", [.object []])]⟩

/-- A batch import. -/
def batchOptions (deleteMissing : Bool) : ImportOptions := ⟨.batch, false, 10000, deleteMissing⟩

/-- The database after `notes` was imported. -/
def notesWorld : World :=
  (importArchive .lenient importIds notesArchive (batchOptions false) .empty).2

/-- A record without an id is refused, and the row holds what it held. -/
theorem failed_batch_import_notes :
    let after := (importArchive .lenient importIds untitledArchive (batchOptions false) notesWorld).2
    Holds notesWorld "notes" "n1" "title" (.string "hello") ∧
      Holds after "notes" "n1" "title" (.string "hello") := by
  have hholds : Holds notesWorld "notes" "n1" "title" (.string "hello") := by decide
  have hrefused : isOk (importArchive .lenient importIds untitledArchive (batchOptions false)
    notesWorld).1 = false := by decide
  obtain ⟨e, hfailed⟩ := isOk_eq_false.mp hrefused
  have hkeeps := (failed_batch_import rfl (Prod.ext hfailed rfl)).1 rfl
  exact ⟨hholds, hkeeps "notes" (by decide) "n1" "title" (.string "hello") hholds⟩

/-- **A failed batch import that loses a column**: the definition of `notes` is applied and committed
before the record without an id is refused. -/
theorem failed_batch_import_drops_title :
    ¬ ∀ (env : Environment) (ids : ℕ → Ids) (archive : Archive) (options : ImportOptions)
      (w after : World) (e : Error), options.atomic = .batch →
      importArchive env ids archive options w = (.error e, after) → LosesNothing w after := by
  intro hclaim
  have hrefused : isOk (importArchive .lenient importIds untitledArchive (batchOptions true)
    notesWorld).1 = false := by decide
  obtain ⟨e, hfailed⟩ := isOk_eq_false.mp hrefused
  have hlost := hclaim .lenient importIds untitledArchive (batchOptions true) notesWorld _ e rfl
    (Prod.ext hfailed rfl) "notes" (by decide) "n1" "title" (.string "hello")
    (by decide)
  have hgone : "title" ∉ (importArchive .lenient importIds untitledArchive (batchOptions true)
    notesWorld).2.db.columnsOf "notes" := by decide
  exact hgone hlost.1

end LazyPock.Backup
