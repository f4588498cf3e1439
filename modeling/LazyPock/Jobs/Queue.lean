import LazyPock.Machine.Runs
import Mathlib.Algebra.Order.Ring.Int

/-!
# The job queue

The queue over `_jobs` (`crates/api/src/jobs.rs`) and any number of workers. A pass of a worker hands
stale jobs back, claims the jobs that are due in one statement, and then runs and reports them one
after the other. Between any two of these statements another worker may act, time may pass, or the
worker may stop.

A report is an update by id: it neither asks who holds the job now nor which attempt it is about, and a
failure writes the number of attempts that was read with the claim. So a report that comes after the
lease can bring a finished job back (`late_report_revives`), and exactly such reports can
(`step_advances_iff`).

What a job does, its kind and its payload are left out: of a run only its outcome matters. The
statement that claims jobs skips those that others have locked, so which of the due jobs it gets is
left open.

## Main definitions

* `Jobs.Job`, `Jobs.Table`, and the statements `enqueue`, `claim`, `reclaimStale`,
  `report`.
* `Jobs.State`, `Jobs.Action`, `Jobs.step`.
* `Jobs.Advances`, `Jobs.Late`.

## Main results

* `Jobs.step_advances_iff`, `Jobs.finished_jobs_stay`,
  `Jobs.late_report_revives`.
-/

namespace LazyPock.Jobs

open Machine

/-! ### The table -/

/-- The states that the table allows. -/
inductive Status where
  | pending | running | done | failed | dead
deriving DecidableEq

/-- A row of `_jobs`. -/
structure Job where
  status : Status
  priority : Int
  attempts : Int
  maxAttempts : Int
  runAt : Int
  lockedBy : Option String
  lockedAt : Option Int
  lastError : Option String
deriving DecidableEq

/-- A job that is done or was given up. -/
def Job.Finished (job : Job) : Prop := job.status = .done ∨ job.status = .dead

instance (job : Job) : Decidable job.Finished :=
  inferInstanceAs (Decidable (job.status = .done ∨ job.status = .dead))

/-- `_jobs` by id. -/
abbrev Table := String → Option Job

/-- A job to enqueue. Times are in microseconds. -/
structure NewJob where
  priority : Int
  maxAttempts : Int
  /-- How long to wait before the first attempt. -/
  delay : ℕ

/-- A job a worker holds, as it was read with the claim. -/
structure Claimed where
  id : String
  attempts : Int
  maxAttempts : Int
deriving DecidableEq

/-- `backoff_seconds`, in microseconds. -/
def backoff (attempts : Int) : Int :=
  min (2 ^ (max 1 (min 16 attempts)).toNat) 300 * 1000000

namespace Table

variable (table : Table)

/-- Change one row. -/
def update (id : String) (f : Job → Job) : Table := fun other =>
  if other = id then (table other).map f else table other

/-- Add a job, where its id is free. -/
def enqueue (id : String) (job : NewJob) (now : Int) : Option Table :=
  if (table id).isSome then none
  else some fun other =>
    if other = id then
      some ⟨.pending, job.priority, 0, job.maxAttempts, now + job.delay, none, none, none⟩
    else table other

/-- Whether a claim may take a job. -/
def due (now : Int) (id : String) : Bool :=
  (table id).any fun job => job.status = .pending && job.runAt ≤ now

/-- Take jobs. -/
def claim (worker : String) (ids : List String) (now : Int) : Table := fun id =>
  if id ∈ ids then (table id).map fun job =>
    { job with status := .running, lockedBy := some worker, lockedAt := some now }
  else table id

/-- What the claim returns. -/
def returning (ids : List String) : List Claimed :=
  ids.filterMap fun id => (table id).map fun job => ⟨id, job.attempts, job.maxAttempts⟩

/-- Whether a job is taken from its worker. -/
def stale (lease now : Int) (job : Job) : Bool :=
  job.status = .running && job.lockedAt.any (· < now - lease)

/-- Hand back jobs whose worker stopped holding them. The attempt is counted. -/
def reclaimStale (lease now : Int) : Table := fun id =>
  (table id).map fun job =>
    if stale lease now job then
      { job with
        attempts := job.attempts + 1
        status := if job.maxAttempts ≤ job.attempts + 1 then .dead else .pending
        runAt := now
        lockedBy := none
        lockedAt := none
        lastError := job.lastError.or (some "the worker holding this job stopped") }
    else job

/-- Record what happened to a claimed job. -/
def report (job : Claimed) (outcome : Except String Unit) (now : Int) : Table :=
  match outcome with
  | .ok () => table.update job.id fun row =>
    { row with
      status := .done, attempts := row.attempts + 1, lockedBy := none, lockedAt := none
      lastError := none }
  | .error message =>
    let attempts := job.attempts + 1
    if job.maxAttempts ≤ attempts then table.update job.id fun row =>
      { row with
        status := .dead, attempts := attempts, runAt := now, lockedBy := none, lockedAt := none
        lastError := some message }
    else table.update job.id fun row =>
      { row with
        status := .pending, attempts := attempts, runAt := now + backoff attempts
        lockedBy := none, lockedAt := none, lastError := some message }

end Table

/-! ### Workers -/

/-- A pass of a worker: the job it runs, and those it has claimed and not started. -/
structure Worker where
  performing : Option Claimed
  queue : List Claimed
deriving DecidableEq

def Worker.idle : Worker := ⟨none, []⟩

/-- The jobs of a worker. -/
def Worker.held (worker : Worker) : List Claimed := worker.performing.toList ++ worker.queue

/-- The database and the workers, and how often each job was started. -/
structure State (κ : Type) where
  now : Int
  table : Table
  workers : κ → Worker
  starts : String → ℕ

inductive Action (κ : Type) where
  | tick (d : ℕ)
  | enqueue (id : String) (job : NewJob)
  | reclaim (lease : Int)
  /-- Of the jobs that are due, the claim gets some. -/
  | claim (w : κ) (worker : String) (limit : ℕ) (ids : List String)
  /-- The next claimed job is performed. -/
  | start (w : κ)
  | report (w : κ) (outcome : Except String Unit)
  /-- The pass ends without a report. -/
  | crash (w : κ)

section Steps

variable {κ : Type} [DecidableEq κ]

/-- The state with one worker changed. -/
def State.setWorker (s : State κ) (w : κ) (worker : Worker) : State κ :=
  { s with workers := fun v => if v = w then worker else s.workers v }

/-- The next state, where the action is possible. -/
@[grind =]
def step (s : State κ) : Action κ → Option (State κ)
  | .tick d => some { s with now := s.now + d }
  | .enqueue id job => (s.table.enqueue id job s.now).map fun table => { s with table := table }
  | .reclaim lease => some { s with table := s.table.reclaimStale lease s.now }
  | .claim w worker limit ids =>
    if s.workers w = .idle ∧ ids.Nodup ∧ ids.length ≤ limit ∧ ids.all (s.table.due s.now) then
      some (({ s with table := s.table.claim worker ids s.now }).setWorker w
        ⟨none, s.table.returning ids⟩)
    else none
  | .start w =>
    match s.workers w with
    | ⟨none, job :: queue⟩ =>
      some (({ s with starts := fun id => s.starts id + if id = job.id then 1 else 0 }).setWorker w
        ⟨some job, queue⟩)
    | _ => none
  | .report w outcome =>
    match s.workers w with
    | ⟨some job, queue⟩ =>
      some (({ s with table := s.table.report job outcome s.now }).setWorker w ⟨none, queue⟩)
    | _ => none
  | .crash w => some (s.setWorker w .idle)

/-! ### Finished jobs -/

/-- No job is lost, a finished one stays finished, and attempts are not taken back. -/
def Advances (before after : Table) : Prop :=
  ∀ id job, before id = some job → ∃ later, after id = some later ∧
    (job.Finished → later.Finished) ∧ job.attempts ≤ later.attempts

/-- A failure is reported about a job that would be retried and is finished by now, or of which more
attempts have been counted in the meantime. -/
def Late (s : State κ) : Action κ → Prop
  | .report w (.error _) => ∃ job row, (s.workers w).performing = some job ∧
      s.table job.id = some row ∧
      (job.attempts + 1 < job.maxAttempts ∧ row.Finished ∨ job.attempts + 1 < row.attempts)
  | _ => False

theorem Advances.refl (table : Table) : Advances table table :=
  fun _ job h => ⟨job, h, id, le_rfl⟩

theorem Advances.trans {a b c : Table} (hab : Advances a b) (hbc : Advances b c) :
    Advances a c := by
  intro id job h
  obtain ⟨mid, hmid, hfinished, hattempts⟩ := hab id job h
  obtain ⟨later, hlater, hfinished', hattempts'⟩ := hbc id mid hmid
  exact ⟨later, hlater, hfinished' ∘ hfinished, hattempts.trans hattempts'⟩

variable {s t : State κ} {table : Table}

/-- A change of one row. -/
theorem advances_update_iff {id : String} {f : Job → Job} :
    Advances table (table.update id f) ↔ ∀ job, table id = some job →
      (job.Finished → (f job).Finished) ∧ job.attempts ≤ (f job).attempts := by
  constructor
  · intro h job hjob
    obtain ⟨later, hlater, hadvances⟩ := h id job hjob
    rw [Table.update, if_pos rfl, hjob, Option.map_some, Option.some.injEq] at hlater
    exact hlater ▸ hadvances
  · intro h other job hjob
    by_cases hid : other = id
    · subst hid
      exact ⟨f job, by simp [Table.update, hjob], h job hjob⟩
    · exact ⟨job, by simp [Table.update, hid, hjob], fun hfinished => hfinished, le_rfl⟩

theorem advances_enqueue {id : String} {job : NewJob} {now : Int} {after : Table}
    (h : table.enqueue id job now = some after) : Advances table after := by
  unfold Table.enqueue at h
  split at h
  · cases h
  · rename_i hnone
    obtain rfl := Option.some.inj h
    intro other row hrow
    have hne : other ≠ id := by
      rintro rfl
      simp [hrow] at hnone
    exact ⟨row, by simp [hne, hrow], fun hfinished => hfinished, le_rfl⟩

/-- A claim only touches jobs that are pending. -/
theorem advances_claim {worker : String} {ids : List String} {now : Int}
    (hdue : ids.all (table.due now) = true) : Advances table (table.claim worker ids now) := by
  intro id job hjob
  by_cases hid : id ∈ ids
  · have hpending := List.all_eq_true.mp hdue id hid
    simp only [Table.due, hjob, Option.any_some, Bool.and_eq_true, decide_eq_true_eq] at hpending
    have hclaimed : table.claim worker ids now id =
        some { job with status := .running, lockedBy := some worker, lockedAt := some now } := by
      rw [Table.claim, if_pos hid, hjob, Option.map_some]
    refine ⟨_, hclaimed, ?_, le_refl job.attempts⟩
    rintro (hdone | hdead)
    · rw [hpending.1] at hdone
      cases hdone
    · rw [hpending.1] at hdead
      cases hdead
  · exact ⟨job, by rw [Table.claim, if_neg hid, hjob], fun hfinished => hfinished, le_rfl⟩

/-- A reclaim only touches jobs that are running. -/
theorem advances_reclaimStale (lease now : Int) :
    Advances table (table.reclaimStale lease now) := by
  intro id job hjob
  refine ⟨_, by rw [Table.reclaimStale, hjob, Option.map_some], ?_, ?_⟩
  · intro hfinished
    have hnot : Table.stale lease now job = false := by
      rcases hfinished with hdone | hdead
      · simp [Table.stale, hdone]
      · simp [Table.stale, hdead]
    rw [hnot]
    exact hfinished
  · split
    · exact Int.le_add_one le_rfl
    · exact le_rfl

/-- A report that a job went well finishes it, and counts the attempt. -/
theorem advances_report_ok (job : Claimed) (now : Int) :
    Advances table (table.report job (.ok ()) now) :=
  advances_update_iff.mpr fun row _ => ⟨fun _ => .inl rfl, Int.le_add_one (le_refl row.attempts)⟩

/-- When a report of a failure brings nothing back. -/
theorem advances_report_error_iff {job : Claimed} {message : String} {now : Int} :
    Advances table (table.report job (.error message) now) ↔ ∀ row, table job.id = some row →
      ¬ (job.attempts + 1 < job.maxAttempts ∧ row.Finished ∨ job.attempts + 1 < row.attempts) := by
  unfold Table.report
  by_cases hlast : job.maxAttempts ≤ job.attempts + 1
  · simp only [if_pos hlast, advances_update_iff]
    refine forall₂_congr fun row _ => ?_
    have hdead : ∀ row : Job, row.status = .dead → row.Finished := fun _ => .inr
    simp only [hdead, implies_true, true_and, not_or, not_and, Int.not_lt]
    exact ⟨fun h => ⟨fun hretry => absurd hretry (Int.not_lt.mpr hlast), h⟩, And.right⟩
  · simp only [if_neg hlast, advances_update_iff]
    refine forall₂_congr fun row _ => ?_
    have hpending : ∀ row : Job, row.status = .pending → ¬ row.Finished := by
      rintro row hstatus (hdone | hdead)
      · rw [hstatus] at hdone
        cases hdone
      · rw [hstatus] at hdead
        cases hdead
    simp only [hpending, imp_false, not_or, not_and, Int.not_lt, Int.not_le.mp hlast,
      forall_const]

/-- **One step.** Of all steps, only a late report of a failure brings a job back. -/
theorem step_advances_iff {a : Action κ} (h : step s a = some t) :
    Advances s.table t.table ↔ ¬ Late s a := by
  cases a with
  | tick d =>
    obtain rfl := Option.some.inj h
    exact iff_of_true (.refl _) not_false
  | enqueue id job =>
    obtain ⟨table, htable, rfl⟩ := Option.map_eq_some_iff.mp h
    exact iff_of_true (advances_enqueue htable) not_false
  | reclaim lease =>
    obtain rfl := Option.some.inj h
    exact iff_of_true (advances_reclaimStale lease s.now) not_false
  | claim w worker limit ids =>
    simp only [step] at h
    split at h
    · rename_i hclaim
      obtain rfl := Option.some.inj h
      exact iff_of_true (advances_claim hclaim.2.2.2) not_false
    · cases h
  | start w =>
    simp only [step] at h
    split at h
    · obtain rfl := Option.some.inj h
      exact iff_of_true (.refl _) not_false
    · cases h
  | report w outcome =>
    simp only [step] at h
    split at h
    · rename_i job queue hworker
      obtain rfl := Option.some.inj h
      cases outcome with
      | ok u => exact iff_of_true (advances_report_ok job s.now) not_false
      | error message =>
        refine advances_report_error_iff.trans ?_
        simp [Late, hworker]
    · cases h
  | crash w =>
    obtain rfl := Option.some.inj h
    exact iff_of_true (.refl _) not_false

/-- The steps of the queue. -/
def Steps (s : State κ) (a : Action κ) (t : State κ) : Prop := step s a = some t

/-- **Finished jobs stay finished, and attempts are not taken back**, in every run in which no failure
is reported late. -/
theorem finished_jobs_stay {as : List (Action κ)}
    (hrun : Run (When (fun s a => ¬ Late s a) Steps) s as t) : Advances s.table t.table := by
  induction hrun with
  | nil s => exact .refl _
  | cons hstep _ ih => exact ((step_advances_iff hstep.2).mpr hstep.1).trans ih

end Steps

/-! ### A late report -/

section Examples

/-- An empty queue and two workers. -/
def start : State Bool := ⟨0, fun _ => none, fun _ => .idle, fun _ => 0⟩

/-- A job is claimed and started, the lease passes, and another worker does the job. -/
def doneByAnother : List (Action Bool) :=
  [.enqueue "j" ⟨0, 5, 0⟩, .claim false "a" 8 ["j"], .start false, .tick 61, .reclaim 60,
    .claim true "b" 8 ["j"], .start true, .report true (.ok ())]

/-- The status and the attempts of the job. -/
def look (s : State Bool) : Option (Status × Int) :=
  (s.table "j").map fun job => (job.status, job.attempts)

/-- **A late report revives a finished job**, and takes an attempt back. -/
theorem late_report_revives :
    ¬ ∀ (s t : State Bool) (as bs : List (Action Bool)), Run Steps start as s → Run Steps s bs t →
      Advances s.table t.table := by
  intro hall
  have hexec : ((exec step start doneByAnother).bind fun s =>
      (step s (.report false (.error "timed out"))).map fun t => (look s, look t)) =
        some (some (.done, 2), some (.pending, 1)) := by decide
  obtain ⟨s, hs, hlook⟩ := Option.bind_eq_some_iff.mp hexec
  obtain ⟨t, ht, hlook⟩ := Option.map_eq_some_iff.mp hlook
  obtain ⟨hdone, hpending⟩ := Prod.mk.inj hlook
  obtain ⟨job, hjob, hj⟩ := Option.map_eq_some_iff.mp hdone
  obtain ⟨later, hlater, -, hattempts⟩ := hall s t _ _ (run_of_exec hs) (.cons ht (.nil t)) "j" job hjob
  obtain ⟨row, hrow, hr⟩ := Option.map_eq_some_iff.mp hpending
  obtain rfl := Option.some.inj (hrow.symm.trans hlater)
  rw [(Prod.mk.inj hj).2, (Prod.mk.inj hr).2] at hattempts
  exact absurd hattempts (by decide)

/-- Where the first worker reports nothing, the job stays done. -/
theorem done_job_stays : ∃ s t : State Bool, look s = some (.done, 2) ∧
    Run (When (fun s a => ¬ Late s a) Steps) s [.tick 100, .reclaim 60, .crash false] t ∧
    Advances s.table t.table := by
  have hexec : (exec step start doneByAnother).map look = some (some (.done, 2)) := by
    decide
  obtain ⟨s, -, hlook⟩ := Option.map_eq_some_iff.mp hexec
  have hrun : Run (When (fun s a => ¬ Late s a) Steps) s [.tick 100, .reclaim 60, .crash false] _ :=
    .cons ⟨fun h => h, rfl⟩ (.cons ⟨fun h => h, rfl⟩ (.cons ⟨fun h => h, rfl⟩ (.nil _)))
  exact ⟨s, _, hlook, hrun, finished_jobs_stay hrun⟩

end Examples

end LazyPock.Jobs
