import LazyPock.Core.Text
import LazyPock.Machine.Runs
import Mathlib.Data.List.Nodup

/-!
# The cron scheduler

The scheduler over `_crons` (`crates/api/src/crons.rs`), run by any number of nodes. A pass claims the
jobs that are due and moves their schedules forward in one transaction, and then executes and records
them one after the other.

Whether a job is due is decided by the clock of the database, but its next occurrence is computed from
the clock of the node. Where that clock is behind the occurrence that is claimed, the schedule does not
move past it, and the occurrence is claimed again. And a record that fails ends the pass: the jobs behind
it were claimed, and nothing comes of them.

What a job does is left out: of an execution only the status and the error matter. Which of the due
jobs a claim gets is left open, as it skips those that others have locked.

## Main definitions

* `Crons.CronLibrary`: what the cron library promises.
* `Crons.Cron`, `Crons.Table` and its statements.
* `Crons.State`, `Crons.Action`, `Crons.step`.
* `Crons.ClaimedOnce`, `Crons.Accounted`, `Crons.Slips`.

## Main results

* `Crons.crons_fire_once`,
  `Crons.crons_fire_twice`.
-/

namespace LazyPock.Crons

open Machine Text

/-! ### Schedules -/

/-- The cron library, which is given an expression, a timezone and a time in microseconds.
Occurrences are in seconds. -/
structure CronLibrary where
  occurs : String → String → Int → Prop
  /-- Nothing for an expression or a timezone it does not understand. -/
  next : String → String → Int → Option Int
  /-- The least occurrence strictly after the time. -/
  least : ∀ expression timezone time occurrence,
    next expression timezone time = some occurrence →
      occurs expression timezone occurrence ∧ time < occurrence * 1000000 ∧
      ∀ other, occurs expression timezone other → time < other * 1000000 → occurrence ≤ other

/-- What a completed run did. -/
structure LastRun where
  time : Int
  status : String
  durationMs : ℕ
  error : Option String
deriving DecidableEq

/-- A row of `_crons`. -/
structure Cron where
  expression : String
  timezone : String
  enabled : Bool
  nextRunAt : Option Int
  lastRun : Option LastRun
deriving DecidableEq

/-- `_crons` by id. -/
abbrev Table := String → Option Cron

/-- A job that a node has claimed. -/
structure Job where
  id : String
  expression : String
  timezone : String
  enabled : Bool
deriving DecidableEq

/-- The next run, from the clock of the node. -/
def nextRunAt (library : CronLibrary) (expression timezone : String) (clock : Int) : Option Int :=
  if trim expression = "" then none
  else (library.next (trim expression) (trim timezone) clock).map (· * 1000000)

namespace Table

variable (table : Table)

/-- Whether a claim may take a job. -/
def due (now : Int) (id : String) : Bool :=
  (table id).any fun cron => cron.enabled && cron.nextRunAt.any (· ≤ now)

/-- `ADVANCE_SCHEDULE`, of all jobs that are claimed. -/
def advance (library : CronLibrary) (clock : Int) (ids : List String) : Table := fun id =>
  if id ∈ ids then (table id).map fun cron =>
    { cron with nextRunAt := nextRunAt library cron.expression cron.timezone clock }
  else table id

/-- The jobs that are claimed. -/
def claimed (ids : List String) : List Job :=
  ids.filterMap fun id => (table id).map fun cron =>
    ⟨id, cron.expression, cron.timezone, cron.enabled⟩

/-- The occurrences that are claimed. -/
def occurrences (ids : List String) : List (String × Int) :=
  ids.filterMap fun id => (table id).bind fun cron => cron.nextRunAt.map fun time => (id, time)

/-- `RECORD_RUN` -/
def record (id : String) (run : LastRun) : Table := fun other =>
  if other = id then (table other).map fun cron => { cron with lastRun := some run }
  else table other

end Table

/-! ### Nodes -/

/-- A pass of a node: the job it has executed and not recorded, and those behind it. -/
structure Pass where
  recording : Option (Job × String × Option String)
  todo : List Job
deriving DecidableEq

def Pass.over : Pass := ⟨none, []⟩

/-- What a node does with a job. -/
inductive Event (κ : Type) where
  | claimed (n : κ) (job : Job)
  | executed (n : κ) (job : Job)
  | recorded (n : κ) (job : Job)

/-- The database and the nodes, the occurrences that were claimed, and what was done, the last at the
end. -/
structure State (κ : Type) where
  table : Table
  passes : κ → Pass
  occurrences : List (String × Int)
  log : List (Event κ)

inductive Action (κ : Type) where
  /-- A pass begins: the time of the database and the clock of the node, and the jobs it gets. -/
  | claimDue (n : κ) (now clock : Int) (limit : ℕ) (ids : List String)
  | execute (n : κ) (status : String) (error : Option String)
  /-- The outcome is recorded, or that fails. -/
  | record (n : κ) (now : Int) (durationMs : ℕ) (stores : Bool)

section Steps

variable {κ : Type} [DecidableEq κ] (library : CronLibrary)

def State.setPass (s : State κ) (n : κ) (pass : Pass) : State κ :=
  { s with passes := fun m => if m = n then pass else s.passes m }

/-- The next state, where the action is possible. -/
@[grind =]
def step (s : State κ) : Action κ → Option (State κ)
  | .claimDue n now clock limit ids =>
    if s.passes n = .over ∧ ids.Nodup ∧ ids.length ≤ limit ∧ ids.all (s.table.due now) then
      some (({ s with
        table := s.table.advance library clock ids
        occurrences := s.table.occurrences ids ++ s.occurrences
        log := s.log ++ (s.table.claimed ids).map (.claimed n) } : State κ).setPass n
          ⟨none, s.table.claimed ids⟩)
    else none
  | .execute n status error =>
    match s.passes n with
    | ⟨none, job :: todo⟩ =>
      some (({ s with log := s.log ++ [.executed n job] } : State κ).setPass n
        ⟨some (job, status, error), todo⟩)
    | _ => none
  | .record n now durationMs stores =>
    match s.passes n with
    | ⟨some (job, status, error), todo⟩ =>
      if stores then
        some (({ s with
          table := s.table.record job.id ⟨now, status, durationMs, error⟩
          log := s.log ++ [.recorded n job] } : State κ).setPass n ⟨none, todo⟩)
      -- The error ends the pass.
      else some (({ s with log := s.log ++ [.recorded n job] } : State κ).setPass n .over)
    | _ => none

/-- The steps of the scheduler. -/
def Steps (s : State κ) (a : Action κ) (t : State κ) : Prop := step library s a = some t

/-! ### Once, and accounted for -/

@[grind =]
def claimedBy (n : κ) (log : List (Event κ)) : List Job :=
  log.filterMap fun
    | .claimed m job => if m = n then some job else none
    | _ => none

@[grind =]
def executedBy (n : κ) (log : List (Event κ)) : List Job :=
  log.filterMap fun
    | .executed m job => if m = n then some job else none
    | _ => none

/-- The jobs whose outcome was to be recorded, whether or not the database did. -/
@[grind =]
def recordedBy (n : κ) (log : List (Event κ)) : List Job :=
  log.filterMap fun
    | .recorded m job => if m = n then some job else none
    | _ => none

/-- No occurrence of a job is claimed twice. -/
def ClaimedOnce (s : State κ) : Prop := s.occurrences.Nodup

/-- When a node is through with its passes, it has executed every job it has claimed, and recorded
every job it has executed. -/
def Accounted (s : State κ) : Prop :=
  ∀ n, s.passes n = .over →
    claimedBy n s.log = executedBy n s.log ∧ executedBy n s.log = recordedBy n s.log

/-- A claim whose node's clock is behind an occurrence it claims, or a record that fails with jobs
behind it. -/
def Slips (s : State κ) : Action κ → Prop
  | .claimDue _ _ clock _ ids => ∃ id ∈ ids, ∃ cron occurrence, s.table id = some cron ∧
      cron.nextRunAt = some occurrence ∧ clock < occurrence
  | .record n _ _ false => (s.passes n).todo ≠ []
  | _ => False

end Steps

theorem clock_lt_nextRunAt {library : CronLibrary} {expression timezone : String}
    {clock next : Int} (h : nextRunAt library expression timezone clock = some next) :
    clock < next := by
  unfold nextRunAt at h
  split at h
  · cases h
  obtain ⟨following, hfollowing, rfl⟩ := Option.map_eq_some_iff.mp h
  exact (library.least _ _ _ _ hfollowing).2.1

/-! ### What a claim takes -/

section Claims

variable {table : Table} {ids : List String} {id : String} {occurrence : Int}

theorem mem_occurrences : (id, occurrence) ∈ table.occurrences ids ↔
    id ∈ ids ∧ ∃ cron, table id = some cron ∧ cron.nextRunAt = some occurrence := by
  simp only [Table.occurrences, List.mem_filterMap, Option.bind_eq_some_iff, Option.map_eq_some_iff,
    Prod.mk.injEq]
  constructor
  · rintro ⟨other, hmem, cron, hcron, time, htime, rfl, rfl⟩
    exact ⟨hmem, cron, hcron, htime⟩
  · rintro ⟨hmem, cron, hcron, htime⟩
    exact ⟨id, hmem, cron, hcron, occurrence, htime, rfl, rfl⟩

/-- No id is claimed twice, so no occurrence is. -/
theorem nodup_occurrences (hids : ids.Nodup) : (table.occurrences ids).Nodup := by
  have hfst : ∀ (id : String) (x : String × Int), x ∈ ((table id).bind fun cron =>
      cron.nextRunAt.map fun time => (id, time)) → id = x.1 := by
    intro id x hx
    obtain ⟨cron, -, hx⟩ := Option.bind_eq_some_iff.mp hx
    obtain ⟨time, -, rfl⟩ := Option.map_eq_some_iff.mp hx
    rfl
  exact hids.filterMap fun a b x ha hb => (hfst a x ha).trans (hfst b x hb).symm

/-- A job that is due has an occurrence. -/
theorem occurrence_of_due {now : Int} {cron : Cron} (hdue : table.due now id = true)
    (hcron : table id = some cron) : ∃ occurrence, cron.nextRunAt = some occurrence := by
  simp only [Table.due, hcron, Option.any_some, Bool.and_eq_true] at hdue
  obtain ⟨time, htime, -⟩ := (Option.any_eq_true _ _).mp hdue.2
  exact ⟨time, htime⟩

end Claims

/-! ### The log -/

section Logs

variable {κ : Type} [DecidableEq κ] {n m : κ} {log : List (Event κ)} {job : Job}

theorem claimedBy_append (log log' : List (Event κ)) :
    claimedBy n (log ++ log') = claimedBy n log ++ claimedBy n log' := List.filterMap_append

theorem executedBy_append (log log' : List (Event κ)) :
    executedBy n (log ++ log') = executedBy n log ++ executedBy n log' := List.filterMap_append

theorem recordedBy_append (log log' : List (Event κ)) :
    recordedBy n (log ++ log') = recordedBy n log ++ recordedBy n log' := List.filterMap_append

@[simp] theorem claimedBy_claimed (jobs : List Job) :
    claimedBy n (jobs.map (.claimed m)) = if m = n then jobs else [] := by
  induction jobs with
  | nil => simp [claimedBy]
  | cons job jobs ih =>
    unfold claimedBy at ih ⊢
    by_cases h : m = n
    · simp [h] at ih ⊢
    · simp [h] at ih ⊢

@[simp] theorem executedBy_claimed (jobs : List Job) :
    executedBy n (jobs.map (.claimed m)) = [] := by
  simp [executedBy, List.filterMap_map]

@[simp] theorem recordedBy_claimed (jobs : List Job) :
    recordedBy n (jobs.map (.claimed m)) = [] := by
  simp [recordedBy, List.filterMap_map]

@[simp] theorem claimedBy_executed : claimedBy n [.executed m job] = [] := rfl

@[simp] theorem executedBy_executed :
    executedBy n [.executed m job] = if m = n then [job] else [] := by
  by_cases h : m = n <;> simp [executedBy, h]

@[simp] theorem recordedBy_executed : recordedBy n [.executed m job] = [] := rfl

@[simp] theorem claimedBy_recorded : claimedBy n [.recorded m job] = [] := rfl

@[simp] theorem executedBy_recorded : executedBy n [.recorded m job] = [] := rfl

@[simp] theorem recordedBy_recorded :
    recordedBy n [.recorded m job] = if m = n then [job] else [] := by
  by_cases h : m = n <;> simp [recordedBy, h]

end Logs

/-! ### Runs -/

section Runs

variable {κ : Type} [DecidableEq κ] {library : CronLibrary} {s t : State κ}

/-- What is between a claim and a record. -/
structure Inv (s : State κ) : Prop where
  /-- The schedule of a job is past all occurrences that were claimed. -/
  past : ∀ id occurrence, (id, occurrence) ∈ s.occurrences → ∀ cron next, s.table id = some cron →
    cron.nextRunAt = some next → occurrence < next
  once : ClaimedOnce s
  todo : ∀ n, claimedBy n s.log = executedBy n s.log ++ (s.passes n).todo
  recording : ∀ n, executedBy n s.log =
    recordedBy n s.log ++ ((s.passes n).recording.map Prod.fst).toList

theorem Inv.accounted (h : Inv s) : Accounted s := by
  intro n hover
  have htodo := h.todo n
  have hrecording := h.recording n
  rw [hover] at htodo hrecording
  exact ⟨htodo.trans (List.append_nil _), hrecording.trans (List.append_nil _)⟩

/-- A claim on time. -/
theorem Inv.claimDue {n : κ} {now clock : Int} {limit : ℕ} {ids : List String} (h : Inv s)
    (hslips : ¬ Slips s (.claimDue n now clock limit ids)) (hover : s.passes n = .over)
    (hids : ids.Nodup) (hdue : ids.all (s.table.due now) = true) :
    Inv (({ s with
      table := s.table.advance library clock ids
      occurrences := s.table.occurrences ids ++ s.occurrences
      log := s.log ++ (s.table.claimed ids).map (.claimed n) } : State κ).setPass n
        ⟨none, s.table.claimed ids⟩) := by
  refine ⟨?_, ?_, ?_, ?_⟩
  · intro id occurrence hmem cron next hcron hnext
    by_cases hid : id ∈ ids
    · -- The job is claimed now: what it was due at is past, and so is all that was claimed before.
      obtain ⟨before, hbefore, rfl⟩ := Option.map_eq_some_iff.mp ((if_pos hid).symm.trans hcron)
      obtain ⟨current, hcurrent⟩ := occurrence_of_due (List.all_eq_true.mp hdue id hid) hbefore
      have hclock : current ≤ clock := by
        by_contra hbehind
        exact hslips ⟨id, hid, before, current, hbefore, hcurrent, Int.not_le.mp hbehind⟩
      have hle : occurrence ≤ current := by
        rcases List.mem_append.mp hmem with hnew | hold
        · obtain ⟨-, cron', hcron', htime⟩ := mem_occurrences.mp hnew
          obtain rfl := Option.some.inj (hbefore.symm.trans hcron')
          exact (Option.some.inj (htime.symm.trans hcurrent)).le
        · exact (h.past id occurrence hold before current hbefore hcurrent).le
      exact (hle.trans hclock).trans_lt (clock_lt_nextRunAt hnext)
    · have hold : (id, occurrence) ∈ s.occurrences :=
        (List.mem_append.mp hmem).resolve_left fun hnew => hid (mem_occurrences.mp hnew).1
      exact h.past id occurrence hold cron next ((if_neg hid).symm.trans hcron) hnext
  · refine List.nodup_append'.mpr ⟨nodup_occurrences hids, h.once, ?_⟩
    rintro ⟨id, occurrence⟩ hnew hold
    obtain ⟨-, cron, hcron, htime⟩ := mem_occurrences.mp hnew
    exact lt_irrefl _ (h.past id occurrence hold cron occurrence hcron htime)
  · intro m
    have htodo := h.todo m
    by_cases hm : m = n
    · subst hm
      rw [hover] at htodo
      simp only [State.setPass, claimedBy_append, executedBy_append, claimedBy_claimed,
        executedBy_claimed, ↓reduceIte, List.append_nil, htodo, Pass.over]
    · simp only [State.setPass, claimedBy_append, executedBy_append, claimedBy_claimed,
        executedBy_claimed, Ne.symm hm, hm, ↓reduceIte, List.append_nil, htodo]
  · intro m
    have hrecording := h.recording m
    by_cases hm : m = n
    · subst hm
      rw [hover] at hrecording
      simpa [State.setPass, executedBy_append, recordedBy_append, Pass.over] using hrecording
    · simpa [State.setPass, executedBy_append, recordedBy_append, hm] using hrecording

/-- The next job of a pass is executed. -/
theorem Inv.execute {n : κ} {status : String} {error : Option String} {job : Job} {todo : List Job}
    (h : Inv s) (hpass : s.passes n = ⟨none, job :: todo⟩) :
    Inv (({ s with log := s.log ++ [.executed n job] } : State κ).setPass n
      ⟨some (job, status, error), todo⟩) := by
  refine ⟨h.past, h.once, fun m => ?_, fun m => ?_⟩
  · have htodo := h.todo m
    by_cases hm : m = n
    · subst hm
      rw [hpass] at htodo
      simp [State.setPass, claimedBy_append, executedBy_append, htodo]
    · simpa [State.setPass, claimedBy_append, executedBy_append, hm, Ne.symm hm] using htodo
  · have hrecording := h.recording m
    by_cases hm : m = n
    · subst hm
      rw [hpass] at hrecording
      simp only [Option.map_none, Option.toList_none, List.append_nil] at hrecording
      simp [State.setPass, executedBy_append, recordedBy_append, hrecording]
    · simpa [State.setPass, executedBy_append, recordedBy_append, hm, Ne.symm hm] using hrecording

/-- The last execution is recorded, or the record fails with nothing behind it. -/
theorem Inv.recorded {n : κ} {job : Job} {status : String} {error : Option String}
    {todo : List Job} {table : Table} (h : Inv s) (hpass : s.passes n = ⟨some (job, status, error), todo⟩)
    (hsame : ∀ id cron, table id = some cron →
      ∃ before, s.table id = some before ∧ before.nextRunAt = cron.nextRunAt) :
    Inv (({ s with table := table, log := s.log ++ [.recorded n job] } : State κ).setPass n
      ⟨none, todo⟩) := by
  refine ⟨?_, h.once, fun m => ?_, fun m => ?_⟩
  · intro id occurrence hmem cron next hcron hnext
    obtain ⟨before, hbefore, hsame⟩ := hsame id cron hcron
    exact h.past id occurrence hmem before next hbefore (hsame.trans hnext)
  · have htodo := h.todo m
    by_cases hm : m = n
    · subst hm
      rw [hpass] at htodo
      simpa [State.setPass, claimedBy_append, executedBy_append] using htodo
    · simpa [State.setPass, claimedBy_append, executedBy_append, hm] using htodo
  · have hrecording := h.recording m
    by_cases hm : m = n
    · subst hm
      rw [hpass] at hrecording
      simpa [State.setPass, executedBy_append, recordedBy_append] using hrecording
    · simpa [State.setPass, executedBy_append, recordedBy_append, hm, Ne.symm hm] using hrecording

/-- One step that does not slip. -/
theorem Inv.step {a : Action κ} (h : Inv s) (hslips : ¬ Slips s a)
    (hstep : Steps library s a t) : Inv t := by
  cases a with
  | claimDue n now clock limit ids =>
    simp only [Steps, Crons.step] at hstep
    split at hstep
    · rename_i hclaim
      obtain rfl := Option.some.inj hstep
      exact h.claimDue hslips hclaim.1 hclaim.2.1 hclaim.2.2.2
    · cases hstep
  | execute n status error =>
    simp only [Steps, Crons.step] at hstep
    split at hstep
    · rename_i job todo hpass
      obtain rfl := Option.some.inj hstep
      exact h.execute hpass
    · cases hstep
  | record n now durationMs stores =>
    simp only [Steps, Crons.step] at hstep
    split at hstep
    · rename_i job status error todo hpass
      cases stores with
      | true =>
        obtain rfl := Option.some.inj hstep
        refine h.recorded hpass fun id cron hcron => ?_
        simp only [Table.record] at hcron
        split at hcron
        · obtain ⟨before, hbefore, rfl⟩ := Option.map_eq_some_iff.mp hcron
          exact ⟨before, hbefore, rfl⟩
        · exact ⟨cron, hcron, rfl⟩
      | false =>
        obtain rfl := Option.some.inj hstep
        have hnil : todo = [] := by simpa [Slips, hpass] using hslips
        rw [hnil] at hpass
        exact h.recorded hpass fun id cron hcron => ⟨cron, hcron, rfl⟩
    · cases hstep

/-- Nothing was claimed yet. -/
structure State.Initial (s : State κ) : Prop where
  unclaimed : s.occurrences = []
  silent : s.log = []
  idle : s.passes = fun _ => .over

theorem Inv.of_initial (h : s.Initial) : Inv s := by
  obtain ⟨hoccurrences, hlog, hover⟩ := h
  refine ⟨?_, ?_, fun n => ?_, fun n => ?_⟩
  · intro id occurrence hmem
    rw [hoccurrences] at hmem
    exact absurd hmem List.not_mem_nil
  · rw [ClaimedOnce, hoccurrences]
    exact List.nodup_nil
  · rw [hlog, hover]
    rfl
  · rw [hlog, hover]
    rfl

/-- **An occurrence is claimed at most once, and every claimed job is executed and recorded**, in every
run in which no node's clock is behind an occurrence it claims, and no record fails with jobs behind
it. -/
theorem crons_fire_once {as : List (Action κ)} (hinitial : s.Initial)
    (hrun : Run (When (fun s a => ¬ Slips s a) (Steps library)) s as t) :
    ClaimedOnce t ∧ Accounted t := by
  have h : Inv t :=
    hrun.invariant (fun _ _ _ h hstep => h.step hstep.1 hstep.2) (.of_initial hinitial)
  exact ⟨h.once, h.accounted⟩

end Runs

/-! ### A clock that is behind, and a record that fails -/

section Examples

/-- The start of every hour. -/
def hourly : CronLibrary where
  occurs _ _ occurrence := 3600 ∣ occurrence
  next _ _ time := some ((time / 3600000000 + 1) * 3600)
  least := by
    rintro - - time occurrence h
    obtain rfl := Option.some.inj h
    refine ⟨Dvd.intro_left _ rfl, ?_, ?_⟩
    · omega
    · rintro other ⟨k, rfl⟩ hafter
      omega

/-- Two jobs that are due at one o'clock, and two nodes. -/
def start : State Bool where
  table id := if id = "a" ∨ id = "b" then
    some ⟨"0 * * * *", "UTC", true, some 3600000000, none⟩ else none
  passes _ := .over
  occurrences := []
  log := []

theorem start_initial : start.Initial := ⟨rfl, rfl, rfl⟩

/-- The clock of the first node is a millisecond behind. -/
def behind : List (Action Bool) :=
  [.claimDue false 3600000000 3599999000 8 ["a"], .claimDue true 3600001000 3600001000 8 ["a"]]

/-- The first of two records fails. -/
def unrecorded : List (Action Bool) :=
  [.claimDue false 3600000000 3600000000 8 ["a", "b"], .execute false "ok" none,
    .record false 3600001000 1 false]

/-- **An occurrence fires twice, and a claimed job is dropped.** -/
theorem crons_fire_twice :
    (¬ ∀ (library : CronLibrary) (s t : State Bool) (as : List (Action Bool)), s.Initial →
      Run (Steps library) s as t → ClaimedOnce t) ∧
    ¬ ∀ (library : CronLibrary) (s t : State Bool) (as : List (Action Bool)), s.Initial →
      Run (Steps library) s as t → Accounted t := by
  constructor
  · intro hall
    have hexec : (exec (step hourly) start behind).map State.occurrences =
        some [("a", 3600000000), ("a", 3600000000)] := by decide
    obtain ⟨t, ht, hoccurrences⟩ := Option.map_eq_some_iff.mp hexec
    have honce := hall hourly start t behind start_initial (run_of_exec ht)
    rw [ClaimedOnce, hoccurrences] at honce
    exact absurd honce (by decide)
  · intro hall
    have hexec : (exec (step hourly) start unrecorded).map (fun t =>
        (t.passes false, (claimedBy false t.log).length, (executedBy false t.log).length)) =
          some (.over, 2, 1) := by decide
    obtain ⟨t, ht, hlook⟩ := Option.map_eq_some_iff.mp hexec
    obtain ⟨hover, hlengths⟩ := Prod.mk.inj hlook
    have hsame := (hall hourly start t unrecorded start_initial (run_of_exec ht) false hover).1
    obtain ⟨hclaimed, hexecuted⟩ := Prod.mk.inj hlengths
    rw [hsame, hexecuted] at hclaimed
    exact absurd hclaimed (by decide)

/-- Both jobs are claimed on time. -/
def claimBoth : Action Bool := .claimDue false 3600000000 3600000000 8 ["a", "b"]

/-- Both are executed and recorded. -/
def finishBoth : List (Action Bool) :=
  [.execute false "ok" none, .record false 3600001000 1 true, .execute false "ok" none,
    .record false 3600002000 1 true]

/-- Both jobs fire once. -/
theorem both_fire_once : ∃ t, exec (step hourly) start (claimBoth :: finishBoth) = some t ∧
    t.occurrences.length = 2 ∧ ClaimedOnce t ∧ Accounted t := by
  have hexec : (exec (step hourly) start (claimBoth :: finishBoth)).map (·.occurrences.length) =
      some 2 := by decide
  obtain ⟨t, ht, hlength⟩ := Option.map_eq_some_iff.mp hexec
  obtain ⟨s, hs, hrest⟩ := Option.bind_eq_some_iff.mp ht
  have hclaim : ¬ Slips start claimBoth := by
    rintro ⟨id, -, cron, occurrence, hcron, hoccurrence, hbehind⟩
    simp only [start, Option.ite_none_right_eq_some, Option.some.injEq] at hcron
    obtain ⟨-, rfl⟩ := hcron
    obtain rfl := Option.some.inj hoccurrence
    exact lt_irrefl _ hbehind
  have hfinish : Run (When (fun s a => ¬ Slips s a) (Steps hourly)) s finishBoth t := by
    refine (run_of_exec hrest).when fun a ha s => ?_
    simp only [finishBoth, List.mem_cons, List.not_mem_nil, or_false] at ha
    rcases ha with rfl | rfl | rfl | rfl <;> exact fun h => h
  exact ⟨t, ht, hlength, crons_fire_once start_initial (.cons ⟨hclaim, hs⟩ hfinish)⟩

end Examples

end LazyPock.Crons
