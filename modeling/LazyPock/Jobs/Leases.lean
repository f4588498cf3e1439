import LazyPock.Jobs.Queue
import Mathlib.Data.List.Nodup

/-!
# Leases of jobs

A claim of a job is trusted for the length of a lease. While every live worker reports its jobs before
their claims are older than that, a job has one worker at a time, and the three statements that count
its attempts (the two reports and the reclaim) agree on the number: the attempts that are counted and
the one that is open bound how often the job was started.

The bound is about jobs that may be tried at least once. A job that may not is claimed and tried
nevertheless.

## Main definitions

* `Jobs.Leased`: the steps that respect a lease.
* `Jobs.Job.Counted`, `Jobs.Inv`: what holds in between.
* `Jobs.Bounded`, `Jobs.OneWorker`: exclusive and bounded.

## Main results

* `Jobs.leased_jobs_bounded`, `Jobs.untried_job_pending`.
-/

namespace LazyPock.Jobs

open Machine

section Leases

variable {κ : Type}

/-! ### Exclusive and bounded -/

/-- No job is performed by two workers at once. -/
def OneWorker (s : State κ) : Prop :=
  ∀ v w x y, (s.workers v).performing = some x → (s.workers w).performing = some y →
    x.id = y.id → v = w

/-- A job that may be tried is started as often as it may be tried, at most. -/
def StartsBounded (s : State κ) : Prop :=
  ∀ id row, s.table id = some row → 1 ≤ row.maxAttempts → (s.starts id : ℤ) ≤ row.maxAttempts

/-- A job that is not finished waits or runs. -/
def WaitsOrRuns (s : State κ) : Prop :=
  ∀ id row, s.table id = some row → ¬ row.Finished → row.status = .pending ∨ row.status = .running

/-- A job that is not finished has an attempt left, of those of a kind. -/
def AttemptsLeft (p : Job → Prop) (s : State κ) : Prop :=
  ∀ id row, s.table id = some row → p row → ¬ row.Finished → row.attempts < row.maxAttempts

/-- The steps in which every live worker reports its jobs before they are older than the lease. -/
def Leased (lease : ℕ) (s : State κ) : Action κ → Prop
  | .tick d => ∀ w, ∀ job ∈ (s.workers w).held, ∀ row since, s.table job.id = some row →
      row.lockedAt = some since → s.now + d - lease ≤ since
  | .reclaim l => l = lease
  | _ => True

/-- Nothing was enqueued, and no worker has a job. -/
structure State.Initial (s : State κ) : Prop where
  empty : s.table = fun _ => none
  idle : s.workers = fun _ => .idle
  unstarted : s.starts = fun _ => 0

/-! ### The invariant -/

/-- A row beside the number of times its job was started. -/
structure Job.Counted (row : Job) (starts : ℕ) : Prop where
  known : row.status ≠ .failed
  /-- Of a job that runs, one attempt is not counted yet. -/
  started : (starts : ℤ) ≤ row.attempts + if row.status = .running then 1 else 0
  bounded : 1 ≤ row.maxAttempts → row.attempts ≤ row.maxAttempts
  left : 1 ≤ row.maxAttempts → ¬ row.Finished → row.attempts < row.maxAttempts

/-- A worker has the job, and the row says so. -/
structure Holds (lease : ℕ) (s : State κ) (job : Claimed) (row : Job) : Prop where
  stored : s.table job.id = some row
  running : row.status = .running
  attempts : row.attempts = job.attempts
  maxAttempts : row.maxAttempts = job.maxAttempts
  fresh : ∃ since, row.lockedAt = some since ∧ s.now - lease ≤ since

structure Inv (lease : ℕ) (s : State κ) : Prop where
  holds : ∀ w, ∀ job ∈ (s.workers w).held, ∃ row, Holds lease s job row
  distinct : ∀ w, ((s.workers w).held.map Claimed.id).Nodup
  exclusive : ∀ v w, ∀ x ∈ (s.workers v).held, ∀ y ∈ (s.workers w).held, x.id = y.id → v = w
  counted : ∀ id row, s.table id = some row → row.Counted (s.starts id)
  /-- A job that was claimed and not started has no open attempt. -/
  queued : ∀ w, ∀ job ∈ (s.workers w).queue, ∀ row, s.table job.id = some row →
    (s.starts job.id : ℤ) ≤ row.attempts
  unknown : ∀ id, s.table id = none → s.starts id = 0

variable {lease : ℕ} {s t : State κ}

variable {job : Claimed}

theorem Worker.mem_held {worker : Worker} :
    job ∈ worker.held ↔ worker.performing = some job ∨ job ∈ worker.queue := by
  simp [Worker.held, Option.mem_toList]

theorem Inv.of_initial (h : s.Initial) : Inv lease s := by
  obtain ⟨htable, hworkers, hstarts⟩ := h
  have hheld : ∀ w, (s.workers w).held = [] := fun w => by rw [hworkers]; rfl
  refine ⟨?_, ?_, ?_, ?_, ?_, ?_⟩
  · intro w job hjob
    simp [hheld] at hjob
  · intro w
    simp [hheld]
  · intro v w x hx
    simp [hheld] at hx
  · intro id row hrow
    simp [htable] at hrow
  · intro w job hjob
    simp [hworkers, Worker.idle] at hjob
  · intro id _
    rw [hstarts]

/-- What follows from the invariant. -/
theorem Inv.oneWorker (h : Inv lease s) : OneWorker s := fun v w x y hx hy =>
  h.exclusive v w x (Worker.mem_held.mpr (.inl hx)) y (Worker.mem_held.mpr (.inl hy))

theorem Inv.startsBounded (h : Inv lease s) : StartsBounded s := by
  intro id row hrow hmax
  have hcounted := h.counted id row hrow
  have hstarted := hcounted.started
  split at hstarted
  · rename_i hrunning
    have hopen : ¬ row.Finished := by
      rintro (hdone | hdead)
      · simp [hrunning] at hdone
      · simp [hrunning] at hdead
    have hleft := hcounted.left hmax hopen
    omega
  · have hbounded := hcounted.bounded hmax
    omega

theorem Inv.waitsOrRuns (h : Inv lease s) : WaitsOrRuns s := by
  intro id row hrow hopen
  have hknown := (h.counted id row hrow).known
  cases hstatus : row.status with
  | pending => exact .inl rfl
  | running => exact .inr rfl
  | done => exact absurd (.inl hstatus) hopen
  | failed => exact absurd hstatus hknown
  | dead => exact absurd (.inr hstatus) hopen

/-! ### One step -/

/-- Time passes, but not past a lease. -/
theorem Inv.tick {d : ℕ} (h : Inv lease s) (hleased : Leased lease s (.tick d)) :
    Inv lease { s with now := s.now + d } where
  holds w job hjob := by
    obtain ⟨row, hrow⟩ := h.holds w job hjob
    obtain ⟨since, hsince, -⟩ := hrow.fresh
    exact ⟨row, hrow.stored, hrow.running, hrow.attempts, hrow.maxAttempts, since, hsince,
      hleased w job hjob row since hrow.stored hsince⟩
  distinct := h.distinct
  exclusive := h.exclusive
  counted := h.counted
  queued := h.queued
  unknown := h.unknown

variable {table : Table}

/-- A change of rows that no worker has. -/
theorem Inv.of_table (h : Inv lease s)
    (hheld : ∀ w, ∀ job ∈ (s.workers w).held, table job.id = s.table job.id)
    (hcounted : ∀ id row, table id = some row → row.Counted (s.starts id))
    (hunknown : ∀ id, table id = none → s.table id = none) :
    Inv lease { s with table := table } where
  holds w job hjob := by
    obtain ⟨row, hrow⟩ := h.holds w job hjob
    exact ⟨row, (hheld w job hjob).trans hrow.stored, hrow.running, hrow.attempts,
      hrow.maxAttempts, hrow.fresh⟩
  distinct := h.distinct
  exclusive := h.exclusive
  counted := hcounted
  queued w job hjob row hrow :=
    h.queued w job hjob row ((hheld w job (Worker.mem_held.mpr (.inr hjob))).symm.trans hrow)
  unknown id hid := h.unknown id (hunknown id hid)

/-- A job is enqueued under a free id. -/
theorem Inv.enqueue {id : String} {job : NewJob} (h : Inv lease s)
    (htable : s.table.enqueue id job s.now = some table) : Inv lease { s with table := table } := by
  unfold Table.enqueue at htable
  split at htable
  · cases htable
  rename_i hfree
  have hnone : s.table id = none := by simpa using hfree
  obtain rfl := Option.some.inj htable
  refine h.of_table ?_ ?_ ?_
  · intro w held hheld
    obtain ⟨row, hrow⟩ := h.holds w held hheld
    have hne : held.id ≠ id := by
      rintro rfl
      exact Option.some_ne_none row (hrow.stored.symm.trans hnone)
    simp [hne]
  · intro other row hrow
    by_cases hother : other = id
    · subst hother
      simp only [↓reduceIte, Option.some.injEq] at hrow
      subst hrow
      rw [h.unknown other hnone]
      refine ⟨by simp, by simp, fun hmax => ?_, fun hmax _ => ?_⟩
      · exact (by decide : (0 : ℤ) ≤ 1).trans hmax
      · exact (by decide : (0 : ℤ) < 1).trans_le hmax
    · exact h.counted other row (by simpa [hother] using hrow)
  · intro other hother
    by_cases heq : other = id
    · exact heq ▸ hnone
    · simpa [heq] using hother

/-- A reclaim counts the attempt that a stopped worker left open. -/
theorem Job.Counted.reclaimed {row : Job} {starts : ℕ} (h : row.Counted starts)
    (hrunning : row.status = .running) (now : Int) :
    Job.Counted { row with
      attempts := row.attempts + 1
      status := if row.maxAttempts ≤ row.attempts + 1 then .dead else .pending
      runAt := now
      lockedBy := none
      lockedAt := none
      lastError := row.lastError.or (some "the worker holding this job stopped") } starts := by
  have hstarted := h.started
  rw [if_pos hrunning] at hstarted
  have hopen : ¬ row.Finished := by
    rintro (hdone | hdead)
    · simp [hrunning] at hdone
    · simp [hrunning] at hdead
  by_cases hlast : row.maxAttempts ≤ row.attempts + 1
  · refine ⟨by simp [hlast], ?_, fun hmax => ?_, fun _ hnot => ?_⟩
    · simpa [hlast] using hstarted
    · exact h.left hmax hopen
    · exact absurd (.inr (by simp [hlast])) hnot
  · refine ⟨by simp [hlast], ?_, fun hmax => ?_, fun _ _ => ?_⟩
    · simpa [hlast] using hstarted
    · exact h.left hmax hopen
    · exact Int.not_le.mp hlast

/-- No reclaim takes a job from a worker that has it. -/
theorem Inv.reclaim (h : Inv lease s) :
    Inv lease { s with table := s.table.reclaimStale lease s.now } := by
  refine h.of_table ?_ ?_ ?_
  · intro w job hjob
    obtain ⟨row, hrow⟩ := h.holds w job hjob
    obtain ⟨since, hsince, hfresh⟩ := hrow.fresh
    have hstale : Table.stale lease s.now row = false := by
      simp [Table.stale, hsince]
      omega
    simp [Table.reclaimStale, hrow.stored, hstale]
  · intro id row hrow
    obtain ⟨before, hbefore, rfl⟩ := Option.map_eq_some_iff.mp hrow
    have hcounted := h.counted id before hbefore
    by_cases hstale : Table.stale lease s.now before = true
    · have hrunning : before.status = .running := by
        simp only [Table.stale, Bool.and_eq_true, decide_eq_true_eq] at hstale
        exact hstale.1
      rw [if_pos hstale]
      exact hcounted.reclaimed hrunning s.now
    · rw [if_neg hstale]
      exact hcounted
  · intro id hid
    simpa [Table.reclaimStale] using hid

variable [DecidableEq κ]

/-- A worker lets go of jobs. -/
theorem Inv.shrink {w : κ} {worker : Worker} (h : Inv lease s)
    (hheld : worker.held.Sublist (s.workers w).held)
    (hqueue : worker.queue ⊆ (s.workers w).queue) : Inv lease (s.setWorker w worker) := by
  have hsub : ∀ v, ((s.setWorker w worker).workers v).held.Sublist (s.workers v).held := by
    intro v
    by_cases hv : v = w
    · subst hv
      simpa [State.setWorker] using hheld
    · simp [State.setWorker, hv]
  refine ⟨?_, ?_, ?_, h.counted, ?_, h.unknown⟩
  · intro v job hjob
    obtain ⟨row, hrow⟩ := h.holds v job ((hsub v).subset hjob)
    exact ⟨row, hrow.stored, hrow.running, hrow.attempts, hrow.maxAttempts, hrow.fresh⟩
  · exact fun v => (h.distinct v).sublist ((hsub v).map Claimed.id)
  · exact fun v v' x hx y hy => h.exclusive v v' x ((hsub v).subset hx) y ((hsub v').subset hy)
  · intro v job hjob
    by_cases hv : v = w
    · subst hv
      exact h.queued v job (hqueue (by simpa [State.setWorker] using hjob))
    · exact h.queued v job (by simpa [State.setWorker, hv] using hjob)

/-- What a claim returns. -/
theorem mem_returning {ids : List String} :
    job ∈ table.returning ids ↔ job.id ∈ ids ∧ ∃ row, table job.id = some row ∧
      row.attempts = job.attempts ∧ row.maxAttempts = job.maxAttempts := by
  simp only [Table.returning, List.mem_filterMap, Option.map_eq_some_iff]
  constructor
  · rintro ⟨id, hid, row, hrow, rfl⟩
    exact ⟨hid, row, hrow, rfl, rfl⟩
  · rintro ⟨hid, row, hrow, hattempts, hmax⟩
    exact ⟨job.id, hid, row, hrow, by rw [hattempts, hmax]⟩

theorem ids_returning (table : Table) (ids : List String) :
    ((table.returning ids).map Claimed.id).Sublist ids := by
  induction ids with
  | nil => exact .refl _
  | cons id ids ih =>
    cases hrow : table id with
    | none =>
      rw [Table.returning, List.filterMap_cons_none (by rw [hrow, Option.map_none])]
      exact ih.cons id
    | some row =>
      rw [Table.returning, List.filterMap_cons_some (by rw [hrow, Option.map_some])]
      exact ih.cons_cons id

/-- The row of a job before and after a claim takes it. -/
theorem claim_of_due {ids : List String} {now : Int} {id : String} (worker : String)
    (hdue : ids.all (table.due now) = true) (hid : id ∈ ids) :
    ∃ row, table id = some row ∧ row.status = .pending ∧ table.claim worker ids now id =
      some { row with status := .running, lockedBy := some worker, lockedAt := some now } := by
  have hpending := List.all_eq_true.mp hdue id hid
  cases hrow : table id with
  | none => simp [Table.due, hrow] at hpending
  | some row =>
    simp only [Table.due, hrow, Option.any_some, Bool.and_eq_true, decide_eq_true_eq] at hpending
    exact ⟨row, rfl, hpending.1, by rw [Table.claim, if_pos hid, hrow, Option.map_some]⟩

/-- Jobs that are due are claimed by a worker that has none. -/
theorem Inv.claim {w : κ} {worker : String} {ids : List String} (h : Inv lease s)
    (hidle : s.workers w = .idle) (hnodup : ids.Nodup)
    (hdue : ids.all (s.table.due s.now) = true) :
    Inv lease (({ s with table := s.table.claim worker ids s.now } : State κ).setWorker w
      ⟨none, s.table.returning ids⟩) := by
  -- A job that another worker has is running, so no claim gets it.
  have hother : ∀ v, ∀ job ∈ (s.workers v).held, job.id ∉ ids := by
    intro v job hjob hid
    obtain ⟨row, hrow⟩ := h.holds v job hjob
    obtain ⟨row', hrow', hpending, -⟩ := claim_of_due worker hdue hid
    obtain rfl := Option.some.inj (hrow.stored.symm.trans hrow')
    exact absurd (hrow.running.symm.trans hpending) (by decide)
  have hworker : ∀ v, v ≠ w → (({ s with table := s.table.claim worker ids s.now } :
      State κ).setWorker w ⟨none, s.table.returning ids⟩).workers v = s.workers v :=
    fun v hv => by simp [State.setWorker, hv]
  have hself : (({ s with table := s.table.claim worker ids s.now } : State κ).setWorker w
      ⟨none, s.table.returning ids⟩).workers w = ⟨none, s.table.returning ids⟩ := by
    simp [State.setWorker]
  refine ⟨?_, ?_, ?_, ?_, ?_, ?_⟩
  · intro v job hjob
    by_cases hv : v = w
    · subst hv
      rw [hself] at hjob
      obtain ⟨hid, row, hrow, hattempts, hmax⟩ := mem_returning.mp hjob
      obtain ⟨row', hrow', -, hclaimed⟩ := claim_of_due worker hdue hid
      obtain rfl := Option.some.inj (hrow.symm.trans hrow')
      exact ⟨_, hclaimed, rfl, hattempts, hmax, s.now, rfl, by
        show s.now - lease ≤ s.now
        omega⟩
    · rw [hworker v hv] at hjob
      obtain ⟨row, hrow⟩ := h.holds v job hjob
      refine ⟨row, ?_, hrow.running, hrow.attempts, hrow.maxAttempts, hrow.fresh⟩
      exact (if_neg (hother v job hjob)).trans hrow.stored
  · intro v
    by_cases hv : v = w
    · subst hv
      rw [hself]
      exact hnodup.sublist (ids_returning s.table ids)
    · rw [hworker v hv]
      exact h.distinct v
  · intro v v' x hx y hy heq
    by_cases hv : v = w
    · by_cases hv' : v' = w
      · rw [hv, hv']
      · subst hv
        rw [hself] at hx
        rw [hworker v' hv'] at hy
        exact absurd (heq ▸ (mem_returning.mp hx).1) (hother v' y hy)
    · by_cases hv' : v' = w
      · subst hv'
        rw [hself] at hy
        rw [hworker v hv] at hx
        exact absurd (heq ▸ (mem_returning.mp hy).1) (hother v x hx)
      · rw [hworker v hv] at hx
        rw [hworker v' hv'] at hy
        exact h.exclusive v v' x hx y hy heq
  · intro id row hrow
    by_cases hid : id ∈ ids
    · obtain ⟨before, hbefore, hpending, hclaimed⟩ := claim_of_due worker hdue hid
      obtain rfl := Option.some.inj (hrow.symm.trans hclaimed)
      have hcounted := h.counted id before hbefore
      have hstarted := hcounted.started
      rw [hpending] at hstarted
      have hopen : ¬ before.Finished := by simp [Job.Finished, hpending]
      refine ⟨by simp, ?_, hcounted.bounded, fun hmax _ => hcounted.left hmax hopen⟩
      exact hstarted.trans (by simp)
    · exact h.counted id row ((if_neg hid).symm.trans hrow)
  · intro v job hjob row hrow
    by_cases hv : v = w
    · subst hv
      rw [hself] at hjob
      have hid := (mem_returning.mp hjob).1
      obtain ⟨before, hbefore, hpending, hclaimed⟩ := claim_of_due worker hdue hid
      obtain rfl := Option.some.inj (hrow.symm.trans hclaimed)
      have hstarted : (s.starts job.id : ℤ) ≤ before.attempts := by
        simpa [hpending] using (h.counted job.id before hbefore).started
      exact hstarted
    · rw [hworker v hv] at hjob
      have hid := hother v job (Worker.mem_held.mpr (.inr hjob))
      exact h.queued v job hjob row ((if_neg hid).symm.trans hrow)
  · intro id hid
    by_cases hmem : id ∈ ids
    · obtain ⟨before, -, -, hclaimed⟩ := claim_of_due worker hdue hmem
      exact absurd (hclaimed.symm.trans hid) (by simp)
    · exact h.unknown id ((if_neg hmem).symm.trans hid)

/-- The next of the claimed jobs is started. -/
theorem Inv.start {w : κ} {queue : List Claimed} (h : Inv lease s)
    (hworker : s.workers w = ⟨none, job :: queue⟩) :
    Inv lease (({ s with starts := fun id => s.starts id + if id = job.id then 1 else 0 } :
      State κ).setWorker w ⟨some job, queue⟩) := by
  have hheld : (s.workers w).held = job :: queue := by rw [hworker]; rfl
  have hsame : ∀ v, ((({ s with starts := fun id => s.starts id + if id = job.id then 1 else 0 } :
      State κ).setWorker w ⟨some job, queue⟩).workers v).held = (s.workers v).held := by
    intro v
    by_cases hv : v = w
    · subst hv
      rw [hheld]
      simp [State.setWorker, Worker.held]
    · simp [State.setWorker, hv]
  have hmem : job ∈ (s.workers w).held := hheld ▸ List.mem_cons_self
  obtain ⟨row, hrow⟩ := h.holds w job hmem
  refine ⟨?_, ?_, ?_, ?_, ?_, ?_⟩
  · intro v other hother
    obtain ⟨row, hrow⟩ := h.holds v other (hsame v ▸ hother)
    exact ⟨row, hrow.stored, hrow.running, hrow.attempts, hrow.maxAttempts, hrow.fresh⟩
  · exact fun v => hsame v ▸ h.distinct v
  · exact fun v v' x hx y hy => h.exclusive v v' x (hsame v ▸ hx) y (hsame v' ▸ hy)
  · intro id row' hrow'
    have hcounted := h.counted id row' hrow'
    refine ⟨hcounted.known, ?_, hcounted.bounded, hcounted.left⟩
    by_cases hid : id = job.id
    · subst hid
      obtain rfl := Option.some.inj (hrow.stored.symm.trans hrow')
      have hqueued := h.queued w job (by rw [hworker]; exact List.mem_cons_self) row hrow'
      simp only [State.setWorker, ↓reduceIte, hrow.running, Nat.cast_add, Nat.cast_one]
      omega
    · simpa [State.setWorker, hid] using hcounted.started
  · intro v other hother row' hrow'
    have hqueue : other ∈ (s.workers v).queue ∧ other.id ≠ job.id := by
      by_cases hv : v = w
      · subst hv
        have hother : other ∈ queue := by simpa [State.setWorker] using hother
        have hdistinct := h.distinct v
        rw [hheld, List.map_cons, List.nodup_cons] at hdistinct
        refine ⟨by rw [hworker]; exact List.mem_cons_of_mem _ hother, fun heq => ?_⟩
        exact hdistinct.1 (heq ▸ List.mem_map_of_mem hother)
      · have hother : other ∈ (s.workers v).queue := by simpa [State.setWorker, hv] using hother
        refine ⟨hother, fun heq => hv ?_⟩
        exact h.exclusive v w other (Worker.mem_held.mpr (.inr hother)) job hmem heq
    simpa [State.setWorker, hqueue.2] using h.queued v other hqueue.1 row' hrow'
  · intro id hid
    have hne : id ≠ job.id := by
      rintro rfl
      exact Option.some_ne_none row (hrow.stored.symm.trans hid)
    simpa [State.setWorker, hne] using h.unknown id hid

theorem report_of_ne {outcome : Except String Unit} {now : Int}
    {id : String} (h : id ≠ job.id) : table.report job outcome now id = table id := by
  unfold Table.report
  cases outcome with
  | ok u => simp [Table.update, h]
  | error message =>
    dsimp only
    split
    · simp [Table.update, h]
    · simp [Table.update, h]

/-- A report counts the attempt that was open. -/
theorem counted_report {outcome : Except String Unit} {now : Int}
    {row after : Job} {starts : ℕ} (hcounted : row.Counted starts) (hrow : table job.id = some row)
    (hrunning : row.status = .running) (hattempts : row.attempts = job.attempts)
    (hmax : row.maxAttempts = job.maxAttempts)
    (hafter : table.report job outcome now job.id = some after) : after.Counted starts := by
  have hstarted := hcounted.started
  rw [if_pos hrunning] at hstarted
  have hopen : ¬ row.Finished := by simp [Job.Finished, hrunning]
  unfold Table.report at hafter
  cases outcome with
  | ok u =>
    simp only [Table.update, ↓reduceIte, hrow, Option.map_some, Option.some.injEq] at hafter
    subst hafter
    refine ⟨by simp, by simpa using hstarted, fun h => hcounted.left h hopen, fun _ hnot => ?_⟩
    exact absurd (.inl rfl) hnot
  | error message =>
    dsimp only at hafter
    split at hafter
    · simp only [Table.update, ↓reduceIte, hrow, Option.map_some, Option.some.injEq] at hafter
      subst hafter
      rw [← hattempts]
      refine ⟨by simp, by simpa using hstarted, fun h => hcounted.left h hopen, fun _ hnot => ?_⟩
      exact absurd (.inr rfl) hnot
    · rename_i hretry
      simp only [Table.update, ↓reduceIte, hrow, Option.map_some, Option.some.injEq] at hafter
      subst hafter
      rw [← hattempts]
      refine ⟨by simp, by simpa using hstarted, fun h => hcounted.left h hopen, fun _ _ => ?_⟩
      rw [← hattempts, ← hmax] at hretry
      exact Int.not_le.mp hretry

/-- A worker reports the job it has performed. -/
theorem Inv.report {w : κ} {queue : List Claimed} {outcome : Except String Unit}
    (h : Inv lease s) (hworker : s.workers w = ⟨some job, queue⟩) :
    Inv lease (({ s with table := s.table.report job outcome s.now } : State κ).setWorker w
      ⟨none, queue⟩) := by
  have hheld : (s.workers w).held = job :: queue := by rw [hworker]; rfl
  have hmem : job ∈ (s.workers w).held := hheld ▸ List.mem_cons_self
  obtain ⟨row, hrow⟩ := h.holds w job hmem
  have hshrunk : Inv lease (s.setWorker w ⟨none, queue⟩) := by
    refine h.shrink ?_ ?_
    · rw [hheld]
      exact List.sublist_cons_self job queue
    · rw [hworker]
      exact fun _ hx => hx
  show Inv lease { s.setWorker w ⟨none, queue⟩ with table := s.table.report job outcome s.now }
  refine hshrunk.of_table ?_ ?_ ?_
  · intro v other hother
    refine report_of_ne fun heq => ?_
    by_cases hv : v = w
    · subst hv
      have hother : other ∈ queue := by simpa [State.setWorker, Worker.held] using hother
      have hdistinct := h.distinct v
      rw [hheld, List.map_cons, List.nodup_cons] at hdistinct
      exact hdistinct.1 (heq ▸ List.mem_map_of_mem hother)
    · have hother : other ∈ (s.workers v).held := by simpa [State.setWorker, hv] using hother
      exact hv (h.exclusive v w other hother job hmem heq)
  · intro id after hafter
    by_cases hid : id = job.id
    · subst hid
      exact counted_report (h.counted job.id row hrow.stored) hrow.stored hrow.running hrow.attempts
        hrow.maxAttempts hafter
    · exact h.counted id after ((report_of_ne hid).symm.trans hafter)
  · intro id hid
    by_cases heq : id = job.id
    · subst heq
      exfalso
      unfold Table.report Table.update at hid
      cases outcome with
      | ok u => simp [hrow.stored] at hid
      | error message =>
        dsimp only at hid
        split at hid <;> simp [hrow.stored] at hid
    · exact (report_of_ne heq).symm.trans hid

/-- One step that respects the lease. -/
theorem Inv.step {a : Action κ} (h : Inv lease s) (hleased : Leased lease s a)
    (hstep : step s a = some t) : Inv lease t := by
  cases a with
  | tick d =>
    obtain rfl := Option.some.inj hstep
    exact h.tick hleased
  | enqueue id job =>
    obtain ⟨table, htable, rfl⟩ := Option.map_eq_some_iff.mp hstep
    exact h.enqueue htable
  | reclaim l =>
    obtain rfl := Option.some.inj hstep
    obtain rfl : l = lease := hleased
    exact h.reclaim
  | claim w worker limit ids =>
    simp only [Jobs.step] at hstep
    split at hstep
    · rename_i hclaim
      obtain rfl := Option.some.inj hstep
      exact h.claim hclaim.1 hclaim.2.1 hclaim.2.2.2
    · cases hstep
  | start w =>
    simp only [Jobs.step] at hstep
    split at hstep
    · rename_i job queue hworker
      obtain rfl := Option.some.inj hstep
      exact h.start hworker
    · cases hstep
  | report w outcome =>
    simp only [Jobs.step] at hstep
    split at hstep
    · rename_i job queue hworker
      obtain rfl := Option.some.inj hstep
      exact h.report hworker
    · cases hstep
  | crash w =>
    obtain rfl := Option.some.inj hstep
    exact h.shrink (List.nil_sublist _) (List.nil_subset _)

/-- **Jobs are exclusive and bounded while leases are respected.** No job is performed by two workers
at once, a job that may be tried is started as often as it may be at most, and a job that is not
finished waits or runs, with an attempt left if it may be tried. -/
theorem leased_jobs_bounded {as : List (Action κ)} (hinitial : s.Initial)
    (hrun : Run (When (Leased lease) Steps) s as t) :
    OneWorker t ∧ StartsBounded t ∧ WaitsOrRuns t ∧
      AttemptsLeft (fun row => 1 ≤ row.maxAttempts) t := by
  have h : Inv lease t :=
    hrun.invariant (fun _ _ _ h hstep => h.step hstep.1 hstep.2) (.of_initial hinitial)
  exact ⟨h.oneWorker, h.startsBounded, h.waitsOrRuns, fun id row hrow => (h.counted id row hrow).left⟩

end Leases

/-! ### Two runs -/

section Examples

theorem start_initial : start.Initial := ⟨rfl, rfl, rfl⟩

/-- A job that fails once. -/
def failsOnce : List (Action Bool) :=
  [.enqueue "j" ⟨0, 5, 0⟩, .claim false "a" 8 ["j"], .start false, .report false (.error "refused"),
    .reclaim 60]

/-- It waits for its next attempt. -/
theorem failed_job_waits : ∃ t, (exec step { start with now := 5 } failsOnce) = some t ∧
    look t = some (.pending, 1) ∧ OneWorker t ∧ StartsBounded t ∧ WaitsOrRuns t ∧
      AttemptsLeft (fun row => 1 ≤ row.maxAttempts) t := by
  have hexec : (exec step { start with now := 5 } failsOnce).map look = some (some (.pending, 1)) := by
    decide
  obtain ⟨t, ht, hlook⟩ := Option.map_eq_some_iff.mp hexec
  have hleased : Leased 60 start (.tick 5) := fun w job hjob => (nomatch hjob)
  have hrun : Run (When (Leased 60) Steps) { start with now := 5 } failsOnce t := by
    refine (run_of_exec ht).when fun a ha s => ?_
    simp only [failsOnce, List.mem_cons, List.not_mem_nil, or_false] at ha
    rcases ha with rfl | rfl | rfl | rfl | rfl
    · trivial
    · trivial
    · trivial
    · trivial
    · rfl
  exact ⟨t, ht, hlook, leased_jobs_bounded start_initial (.cons ⟨hleased, rfl⟩ hrun)⟩

/-- **A job that may not be tried is pending** without an attempt left. -/
theorem untried_job_pending :
    ¬ ∀ (lease : ℕ) (s t : State Bool) (as : List (Action Bool)), s.Initial →
      Run (When (Leased lease) Steps) s as t →
      OneWorker t ∧ StartsBounded t ∧ WaitsOrRuns t ∧ AttemptsLeft (fun _ => True) t := by
  intro hall
  have hleft := (hall 60 start _ [.enqueue "j" ⟨0, 0, 0⟩] start_initial
    (.cons ⟨trivial, rfl⟩ (.nil _))).2.2.2
  exact absurd (hleft "j" ⟨.pending, 0, 0, 0, 0, none, none, none⟩ rfl trivial (by decide)) (by decide)

end Examples

end LazyPock.Jobs
