import LazyPock.Files.Reaper
import LazyPock.Paging.Limit

/-!
# A pass of the reaper

`crates/files/src/reaper.rs`: a pass drains the queue of keys (`outbox::drain`), removes the objects of
the deletions that are due (`store::due_deletions`), and deletes the rows of the uploads that were
never attached (`store::unattached_older_than`). A reaper works for one backend. The entries and
uploads of others are skipped, after the limit of the batch was applied to all of them.

So a pass gets to an entry of its own exactly when fewer than a batch of entries of other backends are
due no later, and to an upload likewise. What is skipped stays where it is
(`Files.Reaper.mem_deletions_run`), and the next pass finds it in front again.

The statements of a pass succeed here; what fails is the removal of objects. `now()` is a reading of the
clock for each phase.

## Main definitions

* `Files.Reaper.run`: a pass.
* `Files.Reaper.Serves`: a pass gets to what is its own.

## Main results

* `Files.Reaper.attempted_run`, `Files.Reaper.reclaimed_run`.
* `Files.Reaper.mem_deletions_run`.
* `Files.reaper_serves_iff`.
-/

namespace LazyPock.Files

open Text

/-- The worker of one backend. -/
structure Reaper where
  backend : String
  unattachedTtlSeconds : Int
  maxBackoffSeconds : Int
  batch : ℕ

namespace Reaper

/-! ### Tables -/

/-- `DEFAULT_UNATTACHED_TTL_SECONDS` -/
def defaultUnattachedTtlSeconds : Int := 24 * 60 * 60

/-- `DEFAULT_MAX_BACKOFF_SECONDS` -/
def defaultMaxBackoffSeconds : Int := 24 * 60 * 60

/-- `DEFAULT_BATCH` -/
def defaultBatch : ℕ := 100

/-- A reaper for one backend. -/
def new (backend : String) : Reaper :=
  ⟨backend, defaultUnattachedTtlSeconds, defaultMaxBackoffSeconds, defaultBatch⟩

/-- How many entries one pass handles. -/
def withBatch (reaper : Reaper) (batch : Int) : Reaper :=
  { reaper with batch := (max 1 (min batch 10000)).toNat }

/-- A row of `_file_outbox`. -/
structure OutboxEntry where
  id : String
  storageKey : String
  attempts : ℕ
  runAt : Int
  lastError : Option String

/-- One object waiting to be removed from a backend: a row of `_file_deletions`. -/
structure PendingDeletion where
  id : Int
  fileId : String
  backend : String
  storagePath : String
  /-- The keys of its variants, by their presets. -/
  variants : Json
  attempts : ℕ
  nextTryAt : Int

/-- Every object an entry has to remove: the source, then its variants. -/
def PendingDeletion.keys (entry : PendingDeletion) : List String :=
  entry.storagePath ::
    ((entry.variants.asObject.getD []).filterMap fun variant => variant.2.asStr).filter
      fun key => key ≠ entry.storagePath

/-- A row of `_files`, with what its deletion queues. -/
structure StoredFile where
  row : FileRow
  storagePath : String
  variants : Json

/-- What a pass reads and writes. Rows are listed as the database finds them. -/
structure Tables where
  outbox : List OutboxEntry
  deletions : List PendingDeletion
  /-- The sequence behind the ids of `deletions`. -/
  nextId : Int
  files : List StoredFile
  refs : List FileRef

structure Report where
  /-- Objects removed, of both queues. -/
  deleted : ℕ
  /-- Deletions that failed and were rescheduled. -/
  failed : ℕ
  /-- Unattached rows reclaimed. -/
  reclaimed : ℕ
  /-- Entries left alone because they belong to another backend. -/
  skippedOtherBackend : ℕ
deriving DecidableEq

/-- A pass that is under way. -/
structure Pass where
  tables : Tables
  report : Report
  /-- The deletions whose objects the pass set out to remove. -/
  attempted : List PendingDeletion
  /-- The uploads whose rows it deleted. -/
  reclaimed : List StoredFile

/-- `now()` in the three phases of a pass, in microseconds. -/
structure Clock where
  outbox : Int
  due : Int
  uploads : Int

def microseconds (seconds : Int) : Int := seconds * 1000000

/-! ### The three phases -/

/-- `outbox::BATCH` -/
def outboxBatch : ℕ := 100

/-- `outbox::MAX_BACKOFF` -/
def outboxMaxBackoff : Int := 3600

/-- One round of `outbox::drain`. The storage removes an object or refuses to. -/
def drainEntry (storage : String → Result Unit) (now : Int) (pass : Pass) (entry : OutboxEntry) :
    Pass :=
  match storage entry.storageKey with
  | .ok () => { pass with
      tables.outbox := pass.tables.outbox.filter fun other => other.id ≠ entry.id
      report.deleted := pass.report.deleted + 1 }
  | .error e => { pass with
      tables.outbox := pass.tables.outbox.map fun other =>
        if other.id = entry.id then { other with
          attempts := other.attempts + 1
          lastError := some e.message
          runAt := now + microseconds (min outboxMaxBackoff (30 * (other.attempts + 1))) }
        else other
      report.failed := pass.report.failed + 1 }

/-- `outbox::drain` -/
def drain (storage : String → Result Unit) (now : Int) (pass : Pass) : Pass :=
  (Limit.first OutboxEntry.runAt outboxBatch
    (pass.tables.outbox.filter fun entry => entry.runAt ≤ now)).foldl (drainEntry storage now) pass

/-- The deletions that are due, oldest attempt first. -/
def dueDeletions (deletions : List PendingDeletion) (limit : ℕ) (now : Int) :
    List PendingDeletion :=
  Limit.first PendingDeletion.nextTryAt limit
    (deletions.filter fun entry => entry.nextTryAt ≤ now)

/-- Remove every key, reporting the first failure. -/
def removeAll (storage : String → Result Unit) : List String → Result Unit
  | [] => .ok ()
  | key :: keys => do
    storage key
    removeAll storage keys

/-- Whether an entry was recorded for the backend this reaper owns. -/
def owns (reaper : Reaper) (entry : PendingDeletion) : Bool := entry.backend = reaper.backend

/-- `store::finish_deletion` -/
def finishDeletion (deletions : List PendingDeletion) (id : Int) : List PendingDeletion :=
  deletions.filter fun other => other.id ≠ id

/-- `store::defer_deletion` -/
def deferDeletion (deletions : List PendingDeletion) (id : Int) (error : String)
    (maxBackoffSeconds now : Int) : List PendingDeletion :=
  deletions.map fun other =>
    if other.id = id ∧ error ≠ "" then { other with
      attempts := other.attempts + 1
      nextTryAt := now + microseconds (min maxBackoffSeconds (30 * 2 ^ other.attempts)) }
    else other

/-- One round over the deletions that are due. -/
def removeEntry (reaper : Reaper) (storage : String → Result Unit) (now : Int) (pass : Pass)
    (entry : PendingDeletion) : Pass :=
  if reaper.owns entry = false then
    { pass with report.skippedOtherBackend := pass.report.skippedOtherBackend + 1 }
  else match removeAll storage entry.keys with
    | .ok () => { pass with
        tables.deletions := finishDeletion pass.tables.deletions entry.id
        report.deleted := pass.report.deleted + 1
        attempted := pass.attempted ++ [entry] }
    | .error e => { pass with
        tables.deletions := deferDeletion pass.tables.deletions entry.id e.message
          reaper.maxBackoffSeconds now
        report.failed := pass.report.failed + 1
        attempted := pass.attempted ++ [entry] }

/-- The uploads that were never attached and are older than the limit of the reaper. -/
def unattachedFiles (files : List StoredFile) (ttlSeconds : Int) (limit : ℕ) (now : Int) :
    List StoredFile :=
  Limit.first (fun file => file.row.createdAt) limit
    (files.filter fun file => file.row.isUnattached ttlSeconds now)

/-- What the trigger `_files_deleted` queues. -/
def queued (file : StoredFile) (id now : Int) : PendingDeletion :=
  ⟨id, file.row.id, file.row.storageBackend, file.storagePath, file.variants, 0, now⟩

/-- One round over the abandoned uploads. -/
def reclaimFile (reaper : Reaper) (now : Int) (pass : Pass) (file : StoredFile) : Pass :=
  if file.row.storageBackend ≠ reaper.backend then
    { pass with report.skippedOtherBackend := pass.report.skippedOtherBackend + 1 }
  else { pass with
    tables.files := pass.tables.files.filter fun other => other.row.id ≠ file.row.id
    tables.deletions := pass.tables.deletions ++ [queued file pass.tables.nextId now]
    tables.nextId := pass.tables.nextId + 1
    report.reclaimed := pass.report.reclaimed + 1
    reclaimed := pass.reclaimed ++ [file] }

/-- `store::prune_refs` -/
def pruneRefs (pass : Pass) : Pass :=
  { pass with tables.refs := pass.tables.refs.filter fun ref =>
      pass.tables.files.any fun file => file.row.id = ref.fileId }

/-- The second phase. -/
def removeDue (reaper : Reaper) (storage : String → Result Unit) (now : Int) (pass : Pass) : Pass :=
  (dueDeletions pass.tables.deletions reaper.batch now).foldl (reaper.removeEntry storage now) pass

/-- The third phase. -/
def reclaimUnattached (reaper : Reaper) (now : Int) (pass : Pass) : Pass :=
  (unattachedFiles pass.tables.files reaper.unattachedTtlSeconds reaper.batch now).foldl
    (reaper.reclaimFile now) pass

/-- Run one pass: the key-based outbox, then the row-based deletions, then the abandoned uploads. -/
def run (reaper : Reaper) (storage : String → Result Unit) (clock : Clock) (tables : Tables) : Pass :=
  let pass := drain storage clock.outbox ⟨tables, ⟨0, 0, 0, 0⟩, [], []⟩
  let pass := reaper.removeDue storage clock.due pass
  let pass := reaper.reclaimUnattached clock.uploads pass
  pruneRefs pass

/-! ### What a pass gets to -/

section Phases

variable (reaper : Reaper) (storage : String → Result Unit) (now : Int) (pass : Pass)

/-- Draining the outbox leaves everything but the outbox. -/
theorem drain_spec :
    (drain storage now pass).tables.deletions = pass.tables.deletions ∧
      (drain storage now pass).tables.files = pass.tables.files ∧
      (drain storage now pass).attempted = pass.attempted ∧
      (drain storage now pass).reclaimed = pass.reclaimed := by
  unfold drain
  generalize Limit.first OutboxEntry.runAt _ _ = entries
  induction entries generalizing pass with
  | nil => exact ⟨rfl, rfl, rfl, rfl⟩
  | cons entry entries ih =>
    obtain ⟨hdeletions, hfiles, hattempted, hreclaimed⟩ := ih (drainEntry storage now pass entry)
    rw [List.foldl_cons, hdeletions, hfiles, hattempted, hreclaimed]
    unfold drainEntry
    split <;> exact ⟨rfl, rfl, rfl, rfl⟩

theorem removeEntry_spec (entry : PendingDeletion) :
    (reaper.removeEntry storage now pass entry).attempted =
        pass.attempted ++ [entry].filter reaper.owns ∧
      (reaper.removeEntry storage now pass entry).tables.files = pass.tables.files ∧
      (reaper.removeEntry storage now pass entry).reclaimed = pass.reclaimed := by
  unfold removeEntry
  cases howns : reaper.owns entry with
  | false => simp [howns]
  | true =>
    rw [if_neg (by decide)]
    split <;> simp [howns]

/-- The second phase attempts the entries of its own among those that are due. -/
theorem removeDue_spec :
    (reaper.removeDue storage now pass).attempted = pass.attempted ++
        (dueDeletions pass.tables.deletions reaper.batch now).filter reaper.owns ∧
      (reaper.removeDue storage now pass).tables.files = pass.tables.files ∧
      (reaper.removeDue storage now pass).reclaimed = pass.reclaimed := by
  unfold removeDue
  generalize dueDeletions _ _ _ = entries
  induction entries generalizing pass with
  | nil => simp
  | cons entry entries ih =>
    obtain ⟨hattempted, hfiles, hreclaimed⟩ := reaper.removeEntry_spec storage now pass entry
    obtain ⟨hattempted', hfiles', hreclaimed'⟩ := ih (reaper.removeEntry storage now pass entry)
    rw [List.foldl_cons, hattempted', hfiles', hreclaimed', hattempted, hfiles, hreclaimed,
      List.append_assoc, ← List.filter_append, List.singleton_append]
    exact ⟨rfl, rfl, rfl⟩

/-- An upload of the backend of the reaper. -/
def ownsFile (file : StoredFile) : Bool := file.row.storageBackend = reaper.backend

theorem reclaimFile_spec (file : StoredFile) :
    (reaper.reclaimFile now pass file).reclaimed =
        pass.reclaimed ++ [file].filter reaper.ownsFile ∧
      (reaper.reclaimFile now pass file).attempted = pass.attempted := by
  unfold reclaimFile ownsFile
  split_ifs with hother
  · simp [hother]
  · simp [not_not.mp hother]

/-- The third phase reclaims the uploads of its own among those that are found. -/
theorem reclaimUnattached_spec :
    (reaper.reclaimUnattached now pass).reclaimed = pass.reclaimed ++
        (unattachedFiles pass.tables.files reaper.unattachedTtlSeconds reaper.batch now).filter
          reaper.ownsFile ∧
      (reaper.reclaimUnattached now pass).attempted = pass.attempted := by
  unfold reclaimUnattached
  generalize unattachedFiles _ _ _ _ = files
  induction files generalizing pass with
  | nil => simp
  | cons file files ih =>
    obtain ⟨hreclaimed, hattempted⟩ := reaper.reclaimFile_spec now pass file
    obtain ⟨hreclaimed', hattempted'⟩ := ih (reaper.reclaimFile now pass file)
    rw [List.foldl_cons, hreclaimed', hattempted', hreclaimed, hattempted, List.append_assoc,
      ← List.filter_append, List.singleton_append]
    exact ⟨rfl, rfl⟩

end Phases

section Runs

variable (reaper : Reaper) (storage : String → Result Unit) (clock : Clock) (tables : Tables)

/-- **What a pass attempts**: the entries of its own in the batch. -/
theorem attempted_run : (reaper.run storage clock tables).attempted =
    (dueDeletions tables.deletions reaper.batch clock.due).filter reaper.owns := by
  obtain ⟨hdeletions, -, hattempted, -⟩ :=
    drain_spec storage clock.outbox ⟨tables, ⟨0, 0, 0, 0⟩, [], []⟩
  unfold run pruneRefs
  dsimp only
  rw [(reaper.reclaimUnattached_spec _ _).2, (reaper.removeDue_spec _ _ _).1, hdeletions,
    hattempted]
  rfl

/-- **What a pass reclaims**: the uploads of its own in the batch. -/
theorem reclaimed_run : (reaper.run storage clock tables).reclaimed =
    (unattachedFiles tables.files reaper.unattachedTtlSeconds reaper.batch clock.uploads).filter
      reaper.ownsFile := by
  obtain ⟨-, hfiles, -, hreclaimed⟩ :=
    drain_spec storage clock.outbox ⟨tables, ⟨0, 0, 0, 0⟩, [], []⟩
  obtain ⟨-, hfiles', hreclaimed'⟩ := reaper.removeDue_spec storage clock.due
    (drain storage clock.outbox ⟨tables, ⟨0, 0, 0, 0⟩, [], []⟩)
  unfold run pruneRefs
  dsimp only
  rw [(reaper.reclaimUnattached_spec _ _).1, hfiles', hreclaimed', hfiles, hreclaimed]
  rfl

variable {reaper storage clock tables}

/-- A round keeps the entries that are not its own. -/
theorem mem_deletions_removeEntry {now : Int} {pass : Pass} {entry other : PendingDeletion}
    (hid : other.id = entry.id → reaper.owns entry = false)
    (hother : other ∈ pass.tables.deletions) :
    other ∈ (reaper.removeEntry storage now pass entry).tables.deletions := by
  unfold removeEntry
  split_ifs with howns
  · exact hother
  · have hne : other.id ≠ entry.id := fun heq => howns (hid heq)
    split
    · exact List.mem_filter.mpr ⟨hother, decide_eq_true hne⟩
    · exact List.mem_map.mpr ⟨other, hother, if_neg fun h => hne h.1⟩

theorem mem_deletions_removeDue {now : Int} {pass : Pass} {other : PendingDeletion}
    (hid : ∀ entry ∈ pass.tables.deletions, other.id = entry.id → reaper.owns entry = false)
    (hother : other ∈ pass.tables.deletions) :
    other ∈ (reaper.removeDue storage now pass).tables.deletions := by
  have hrounds : ∀ (entries : List PendingDeletion) (pass : Pass),
      (∀ entry ∈ entries, other.id = entry.id → reaper.owns entry = false) →
        other ∈ pass.tables.deletions →
        other ∈ (entries.foldl (reaper.removeEntry storage now) pass).tables.deletions := by
    intro entries
    induction entries with
    | nil => exact fun pass _ hother => hother
    | cons entry entries ih =>
      intro pass hentries hother
      exact ih _ (fun e he => hentries e (List.mem_cons_of_mem _ he))
        (mem_deletions_removeEntry (hentries entry List.mem_cons_self) hother)
  refine hrounds _ pass (fun entry hentry => hid entry ?_) hother
  have hsorted := List.mem_of_mem_take hentry
  exact List.mem_of_mem_filter ((List.mem_insertionSort _).mp hsorted)

theorem mem_deletions_reclaimUnattached {now : Int} {pass : Pass} {other : PendingDeletion}
    (hother : other ∈ pass.tables.deletions) :
    other ∈ (reaper.reclaimUnattached now pass).tables.deletions := by
  unfold reclaimUnattached
  generalize unattachedFiles _ _ _ _ = files
  induction files generalizing pass with
  | nil => exact hother
  | cons file files ih =>
    refine ih ?_
    unfold reclaimFile
    split_ifs
    · exact hother
    · exact List.mem_append_left _ hother

/-- **What is skipped stays in the queue as it is.** -/
theorem mem_deletions_run (hids : (tables.deletions.map PendingDeletion.id).Nodup)
    {other : PendingDeletion} (hother : other ∈ tables.deletions)
    (howns : reaper.owns other = false) :
    other ∈ (reaper.run storage clock tables).tables.deletions := by
  obtain ⟨hdeletions, -, -, -⟩ :=
    drain_spec storage clock.outbox ⟨tables, ⟨0, 0, 0, 0⟩, [], []⟩
  refine mem_deletions_reclaimUnattached (mem_deletions_removeDue ?_ (hdeletions ▸ hother))
  intro entry hentry heq
  rw [hdeletions] at hentry
  exact List.inj_on_of_nodup_map hids hother hentry heq ▸ howns

end Runs

/-! ### Serving one's own backend -/

/-- An entry is due. -/
def PendingDeletion.isDue (entry : PendingDeletion) (now : Int) : Bool := entry.nextTryAt ≤ now

/-- **A pass that serves its own backend.** In whatever order the tables are read, it attempts a
deletion of its own when one is due, and reclaims an upload of its own when one has expired. -/
def Serves (reaper : Reaper) (storage : String → Result Unit) (clock : Clock) (tables : Tables) :
    Prop :=
  ∀ deletions files, deletions.Perm tables.deletions → files.Perm tables.files →
    ((∃ entry ∈ tables.deletions, entry.isDue clock.due ∧ reaper.owns entry) →
      ∃ entry ∈ (reaper.run storage clock { tables with deletions, files }).attempted,
        reaper.owns entry) ∧
    ((∃ file ∈ tables.files, file.row.isUnattached reaper.unattachedTtlSeconds clock.uploads ∧
        reaper.ownsFile file) →
      ∃ file ∈ (reaper.run storage clock { tables with deletions, files }).reclaimed,
        reaper.ownsFile file)

/-- The entries of other backends that are due no later than `entry`. -/
def deletionsAhead (reaper : Reaper) (now : Int) (deletions : List PendingDeletion)
    (entry : PendingDeletion) : ℕ :=
  deletions.countP fun other =>
    other.isDue now && !reaper.owns other && decide (other.nextTryAt ≤ entry.nextTryAt)

/-- The expired uploads of other backends that are no younger than `file`. -/
def uploadsAhead (reaper : Reaper) (now : Int) (files : List StoredFile) (file : StoredFile) : ℕ :=
  files.countP fun other => other.row.isUnattached reaper.unattachedTtlSeconds now &&
    !reaper.ownsFile other && decide (other.row.createdAt ≤ file.row.createdAt)

section Serving

variable {reaper : Reaper} (storage : String → Result Unit) {clock : Clock} {tables : Tables}

theorem exists_mem_filter_iff {α : Type} {p : α → Bool} {l : List α} :
    (∃ a ∈ l.filter p, p a = true) ↔ ∃ a ∈ l, p a = true := by
  simp only [List.mem_filter, and_assoc, and_self]

/-- Whether a pass attempts an entry of its own, over all orders. -/
theorem forall_perm_attempted_iff :
    (∀ deletions : List PendingDeletion, deletions.Perm tables.deletions →
        ∃ entry ∈ (reaper.run storage clock { tables with deletions }).attempted,
          reaper.owns entry = true) ↔
      ∃ entry ∈ tables.deletions, entry.isDue clock.due = true ∧ reaper.owns entry = true ∧
        reaper.deletionsAhead clock.due tables.deletions entry < reaper.batch := by
  simp only [deletionsAhead, attempted_run, exists_mem_filter_iff]
  exact Limit.forall_perm_filter_exists_mine_iff fun entry : PendingDeletion =>
    entry.isDue clock.due

theorem forall_perm_reclaimed_iff :
    (∀ files : List StoredFile, files.Perm tables.files →
        ∃ file ∈ (reaper.run storage clock { tables with files }).reclaimed,
          reaper.ownsFile file = true) ↔
      ∃ file ∈ tables.files,
        file.row.isUnattached reaper.unattachedTtlSeconds clock.uploads = true ∧
          reaper.ownsFile file = true ∧
          reaper.uploadsAhead clock.uploads tables.files file < reaper.batch := by
  simp only [uploadsAhead, reclaimed_run, exists_mem_filter_iff]
  exact Limit.forall_perm_filter_exists_mine_iff
    fun file : StoredFile => file.row.isUnattached reaper.unattachedTtlSeconds clock.uploads

end Serving

end Reaper

open Reaper

/-- **Which passes serve their own backend.** Where a deletion of the reaper's backend is due, there has
to be one such that fewer than a batch of deletions of other backends are due no later; and where an
upload of its backend has expired, one such that fewer than a batch of expired uploads of other
backends are as old. -/
theorem reaper_serves_iff (reaper : Reaper) (storage : String → Result Unit) (clock : Clock)
    (tables : Tables) :
    reaper.Serves storage clock tables ↔
      ((∃ entry ∈ tables.deletions, entry.isDue clock.due ∧ reaper.owns entry) →
        ∃ entry ∈ tables.deletions, entry.isDue clock.due ∧ reaper.owns entry ∧
          reaper.deletionsAhead clock.due tables.deletions entry < reaper.batch) ∧
      ((∃ file ∈ tables.files, file.row.isUnattached reaper.unattachedTtlSeconds clock.uploads ∧
          reaper.ownsFile file) →
        ∃ file ∈ tables.files, file.row.isUnattached reaper.unattachedTtlSeconds clock.uploads ∧
          reaper.ownsFile file ∧
          reaper.uploadsAhead clock.uploads tables.files file < reaper.batch) := by
  constructor
  · intro hserves
    refine ⟨fun hdue => ?_, fun hexpired => ?_⟩
    · refine (forall_perm_attempted_iff storage).mp fun deletions hperm => ?_
      exact (hserves deletions tables.files hperm (List.Perm.refl _)).1 hdue
    · refine (forall_perm_reclaimed_iff storage).mp fun files hperm => ?_
      exact (hserves tables.deletions files (List.Perm.refl _) hperm).2 hexpired
  · rintro ⟨hdue, hexpired⟩ deletions files hdeletions hfiles
    refine ⟨fun h => ?_, fun h => ?_⟩
    · obtain ⟨entry, hentry, howns⟩ :=
        (forall_perm_attempted_iff storage).mpr (hdue h) deletions hdeletions
      rw [attempted_run] at hentry ⊢
      exact ⟨entry, hentry, howns⟩
    · obtain ⟨file, hfile, howns⟩ :=
        (forall_perm_reclaimed_iff storage).mpr (hexpired h) files hfiles
      rw [reclaimed_run] at hfile ⊢
      exact ⟨file, hfile, howns⟩

/-- The queue after a switch from one backend to another: an entry of `s3` that is due before one of
`local`. -/
def switchedTables : Tables where
  outbox := []
  deletions := [⟨1, "f1", "s3", "posts/p1/a.png", .object [], 0, 10⟩,
    ⟨2, "f2", "local", "posts/p2/b.png", .object [], 0, 20⟩]
  nextId := 3
  files := []
  refs := []

/-- The entry of `s3` is still in the queue when the reaper of `local` is done. -/
theorem s3_stays : (⟨1, "f1", "s3", "posts/p1/a.png", .object [], 0, 10⟩ : PendingDeletion) ∈
    ((Reaper.new "local").run (fun _ => .ok ()) ⟨30, 30, 30⟩ switchedTables).tables.deletions :=
  mem_deletions_run (by decide) List.mem_cons_self (by decide)

/-- **A pass that leaves its own backend alone.** With a batch of one, the reaper of `local` finds the
entry of `s3` only, and attempts nothing. -/
theorem reaper_starves :
    ¬ ((Reaper.new "local").withBatch 1).Serves (fun _ => .ok ()) ⟨30, 30, 30⟩ switchedTables := by
  intro hserves
  have hdue : ∃ entry ∈ switchedTables.deletions, entry.isDue 30 ∧
      ((Reaper.new "local").withBatch 1).owns entry := ⟨_, List.mem_cons_of_mem _ List.mem_cons_self,
    by decide, by decide⟩
  obtain ⟨entry, hentry, -⟩ :=
    (hserves switchedTables.deletions [] (List.Perm.refl _) (List.Perm.refl _)).1 hdue
  have hnone : (((Reaper.new "local").withBatch 1).run (fun _ => .ok ()) ⟨30, 30, 30⟩
      switchedTables).attempted.length = 0 := by decide
  exact absurd (List.length_pos_of_mem hentry) (by rw [Nat.not_lt]; exact hnone.le)

end LazyPock.Files
