import LazyPock.Hooks.Loader

/-!
# The hook worker

The service of `crates/hooks/src/service.rs` around the loader: one thread owns the runtime and takes
requests from a queue, a dispatch looks for edited files where the last look is long enough ago, and a
flag that the writers read says whether a runtime serves. A write that finds the flag unset runs no
hooks, and it is only a dispatch that looks for files.

The system is the directory, the clock, the worker with its queue and the flag. Its state keeps, beside
what the program holds, the time of the last edit and the files that were loaded last.

## Main definitions

* `HookService.System`, `HookService.Step`: the system and what happens in it.
* `HookService.Recorded`: what serves was loaded from the files of the signature.
* `HookService.InForce`: a write whose hooks run as the directory has them.
* `HookService.Covered`: a write finds the flag set, the first load is not overtaken by an
  edit, and no hash hides one.

## Main results

* `HookService.hooks_in_force`: what serves is always what was recorded, and the hooks on disk
  are enforced in every run whose steps are covered.
-/

namespace LazyPock.HookService

open Machine Records

/-! ### Requests -/

/-- Map a write event onto the hook event the runtime knows. -/
@[grind =]
def runtimeEvent (event : HookEvent) (before : Bool) : RecordEvent :=
  match event, before with
  | .create, true => .beforeCreate
  | .create, false => .afterCreate
  | .update, true => .beforeUpdate
  | .update, false => .afterUpdate
  | .delete, true => .beforeDelete
  | .delete, false => .afterDelete

/-- `HookEvent::as_str` -/
@[grind =]
def eventName : HookEvent → String
  | .create => "create"
  | .update => "update"
  | .delete => "delete"

/-- The dispatch of a write, before it or after it. -/
def dispatchOf (call : HookCall) (before : Bool) : Dispatch where
  event := runtimeEvent call.event before
  collection := call.collection
  payload := .object [("action", .string (eventName call.event)),
    ("collection", .string call.collection), ("record", call.record)]
  context := call.context

/-- A hook that changed the record decides what is written. -/
@[grind =]
def written (record : Json) : Option Json → Json
  | some value => (value.get "record").getD record
  | none => record

/-- A request to the worker thread. -/
inductive Request where
  | dispatch (call : HookCall) (before : Bool)
  | reload

/-- How often the worker will look for edited hook files, in nanoseconds. -/
def reloadInterval : ℕ := 10 ^ 9

/-! ### The system -/

/-- How far the worker is. -/
inductive Phase where
  | starting
  /-- The first load is done, the clock not yet read. -/
  | loaded
  /-- Requests are taken; the worker has last looked for edits at this time. -/
  | serving (lastCheck : ℕ)

/-- The hooks directory, the clock, the worker and the flag. -/
structure System (Runtime : Type) where
  directory : Option (List DirEntry)
  now : ℕ
  loader : HookLoader Runtime
  phase : Phase
  queue : List Request
  /-- Whether a runtime is currently serving, as the write path reads it. -/
  active : Bool
  /-- When the directory was edited last, if it was since the start. -/
  edited : Option ℕ
  /-- The files of the last load that succeeded. -/
  recorded : List HookFile

/-- What happens. -/
inductive Action (Runtime : Type) where
  | edit (directory : Option (List DirEntry))
  | pass (nanoseconds : ℕ)
  /-- The worker loads the directory for the first time. -/
  | load
  /-- The worker reads the clock. -/
  | serve
  | reload
  /-- The worker answers an explicit reload. -/
  | reloaded (report : LoadReport)
  /-- A write is about to run its hooks. -/
  | call (call : HookCall) (before : Bool)
  /-- The worker answers a write, by the runtime that serves. -/
  | answered (call : HookCall) (before : Bool) (runtime : Option Runtime)
      (produced : Result (Option Json))

variable {Runtime : Type} (engine : HookEngine Runtime)

namespace System

/-- A server that starts on a directory. -/
def start (directory : Option (List DirEntry)) : System Runtime :=
  ⟨directory, 0, .new, .starting, [], false, none, []⟩

/-- The hook files that are there. -/
def files (s : System Runtime) : List HookFile := discover s.directory

/-- The worker loads the directory. -/
def load (s : System Runtime) : System Runtime :=
  let (loader, report) := s.loader.load engine s.directory
  { s with
    loader
    active := loader.isActive
    recorded := if report.error.isSome then s.recorded else s.files }

/-- The worker looks for edits, where the last look is long enough ago. -/
def check (s : System Runtime) (lastCheck : ℕ) : System Runtime :=
  if reloadInterval ≤ s.now - lastCheck then
    let (loader, report) := s.loader.reloadIfChanged engine s.directory
    { s with
      phase := .serving s.now
      loader
      active := if report.isSome then loader.isActive else s.active
      recorded := if report.all fun report => report.error.isSome then s.recorded else s.files }
  else s

end System

/-- **What happens in the system.** -/
inductive Step : System Runtime → Action Runtime → System Runtime → Prop
  | edit (s : System Runtime) {directory : Option (List DirEntry)} (h : directory ≠ s.directory) :
      Step s (.edit directory) { s with directory, edited := some s.now }
  | pass (s : System Runtime) (nanoseconds : ℕ) :
      Step s (.pass nanoseconds) { s with now := s.now + nanoseconds }
  | load {s : System Runtime} (h : s.phase = .starting) :
      Step s .load { s.load engine with phase := .loaded }
  | serve {s : System Runtime} (h : s.phase = .loaded) :
      Step s .serve { s with phase := .serving s.now }
  | reload (s : System Runtime) : Step s .reload { s with queue := s.queue ++ [.reload] }
  | call (s : System Runtime) (call : HookCall) (before : Bool) :
      Step s (.call call before)
        (if s.active then { s with queue := s.queue ++ [.dispatch call before] } else s)
  | reloaded {s : System Runtime} {lastCheck : ℕ} {rest : List Request}
      (hphase : s.phase = .serving lastCheck) (hqueue : s.queue = .reload :: rest) :
      Step s (.reloaded (s.loader.load engine s.directory).2) { s.load engine with queue := rest }
  | answered {s : System Runtime} {lastCheck : ℕ} {call : HookCall} {before : Bool}
      {rest : List Request} (hphase : s.phase = .serving lastCheck)
      (hqueue : s.queue = .dispatch call before :: rest) :
      Step s (.answered call before (s.check engine lastCheck).loader.runtime
          ((s.check engine lastCheck).loader.dispatch engine (dispatchOf call before)))
        { s.check engine lastCheck with queue := rest }

/-! ### What is asked of it -/

/-- The runtime that serves was loaded from the files that the signature records. -/
def Recorded (s : System Runtime) : Prop :=
  s.loader.signature = engine.signatures s.recorded ∧ engine.loaded s.recorded = .ok s.loader.runtime

/-- The directory has been the same since before the server started, or for long enough. -/
def Settled (s : System Runtime) : Prop := ∀ time ∈ s.edited, reloadInterval ≤ s.now - time

/-- **A write runs its hooks as the directory has them**, where that is settled and can be loaded: what
answers it is what the files are loaded into. A write that is not sent to the worker runs none. -/
@[grind =]
def InForce (s : System Runtime) : Action Runtime → Prop
  | .call _ _ => s.active = false → Settled s → ∀ runtime, engine.loaded s.files = .ok runtime →
      runtime = none
  | .answered _ _ runtime _ => Settled s → ∀ expected, engine.loaded s.files = .ok expected →
      runtime = expected
  | _ => True

/-- The steps after which hooks are enforced: a write finds the flag set, or no hook files; the first
load is not overtaken by an edit; and no files have the signature of others that are loaded. -/
@[grind =]
def Covered (s : System Runtime) : Action Runtime → Prop
  | .call _ _ => s.active = true ∨ s.files = [] ∨ ¬ Settled s ∨
      ∀ runtime, engine.loaded s.files ≠ .ok runtime
  | .edit _ => s.phase ≠ .loaded
  | .answered _ _ _ _ => s.recorded = s.files ∨ s.loader.signature ≠ engine.signatures s.files
  | _ => True

/-! ### Loading and looking for edits -/

section Loads

variable {engine} {s : System Runtime}

/-- Only the loader and its record are looked at. -/
theorem Recorded.withPhase (h : Recorded engine s) (phase : Phase) : Recorded engine { s with phase } := h

theorem Recorded.withQueue (h : Recorded engine s) (queue : List Request) :
    Recorded engine { s with queue } := h

theorem load_of_loaded {runtime : Option Runtime} (h : engine.loaded s.files = .ok runtime) :
    s.load engine = { s with
      loader := ⟨runtime, engine.signatures s.files, none⟩
      active := runtime.isSome
      recorded := s.files } := by
  obtain ⟨hloader, hreport⟩ :
      (s.loader.load engine s.directory).1 = _ ∧ (s.loader.load engine s.directory).2.error = _ :=
    HookLoader.load_of_loaded h
  simp only [System.load, hloader, hreport, Option.isSome_none, Bool.false_eq_true, ↓reduceIte]
  rfl

theorem load_of_error {e : String} (h : engine.loaded s.files = .error e) :
    s.load engine = { s with
      loader := { s.loader with lastError := some e }
      active := s.loader.isActive } := by
  obtain ⟨hloader, hreport⟩ :
      (s.loader.load engine s.directory).1 = _ ∧ (s.loader.load engine s.directory).2.error = _ :=
    HookLoader.load_of_error h
  simp only [System.load, hloader, hreport, Option.isSome_some, ↓reduceIte]
  rfl

/-- **A load keeps what serves to what is recorded**, whether it succeeds or fails. -/
theorem recorded_load (h : Recorded engine s) : Recorded engine (s.load engine) := by
  cases hloaded : engine.loaded s.files with
  | ok runtime =>
    rw [load_of_loaded hloaded]
    exact ⟨rfl, hloaded⟩
  | error e =>
    rw [load_of_error hloaded]
    exact h

/-- A look for edits that is due loads the directory, unless the signature is that of its files. -/
theorem check_of_due {lastCheck : ℕ} (hdue : reloadInterval ≤ s.now - lastCheck) :
    s.check engine lastCheck =
      { (if engine.signatures s.files = s.loader.signature then s else s.load engine) with
        phase := .serving s.now } := by
  rw [System.check, if_pos hdue]
  by_cases hsame : engine.signatures s.files = s.loader.signature
  · have hreload : s.loader.reloadIfChanged engine s.directory = (s.loader, none) := if_pos hsame
    rw [hreload, if_pos hsame]
    rfl
  · have hreload : s.loader.reloadIfChanged engine s.directory =
        ((s.loader.load engine s.directory).1, some (s.loader.load engine s.directory).2) := if_neg hsame
    rw [hreload, if_neg hsame]
    rfl

/-- What a look for edits does not touch, and the time it leaves. -/
theorem check_frame {lastCheck : ℕ} (hdue : reloadInterval ≤ s.now - lastCheck) :
    (s.check engine lastCheck).phase = .serving s.now ∧
      (s.check engine lastCheck).directory = s.directory ∧ (s.check engine lastCheck).now = s.now := by
  rw [check_of_due hdue]
  split_ifs <;> exact ⟨rfl, rfl, rfl⟩

theorem check_of_not_due {lastCheck : ℕ} (hdue : ¬ reloadInterval ≤ s.now - lastCheck) :
    s.check engine lastCheck = s := by
  rw [System.check, if_neg hdue]

theorem recorded_check (h : Recorded engine s) (lastCheck : ℕ) :
    Recorded engine (s.check engine lastCheck) := by
  by_cases hdue : reloadInterval ≤ s.now - lastCheck
  · rw [check_of_due hdue]
    split_ifs
    · exact h.withPhase _
    · exact (recorded_load h).withPhase _
  · rwa [check_of_not_due hdue]

end Loads

/-! ### What serves was recorded -/

section Runs

variable {engine} {s t : System Runtime} {a : Action Runtime}

theorem step_recorded (h : Recorded engine s) (hstep : Step engine s a t) : Recorded engine t := by
  cases hstep with
  | edit | pass => exact h
  | load => exact (recorded_load h).withPhase _
  | serve => exact h.withPhase _
  | reload => exact h.withQueue _
  | call call before =>
    split_ifs
    · exact h.withQueue _
    · exact h
  | reloaded => exact (recorded_load h).withQueue _
  | @answered lastCheck => exact (recorded_check h lastCheck).withQueue _

theorem recorded_start (directory : Option (List DirEntry)) :
    Recorded engine (System.start directory : System Runtime) := ⟨rfl, rfl⟩

/-! ### The hooks on disk are enforced -/

/-- The files that were loaded last are those of the directory, where these can be loaded. -/
def Current (engine : HookEngine Runtime) (s : System Runtime) : Prop :=
  ∀ runtime, engine.loaded s.files = .ok runtime → s.recorded = s.files

/-- Only the directory and what was loaded are looked at. -/
theorem Current.withPhase (h : Current engine s) (phase : Phase) : Current engine { s with phase } := h

theorem Current.withQueue (h : Current engine s) (queue : List Request) :
    Current engine { s with queue } := h

/-- The worker holds what the directory holds, or it has not looked since the last edit. -/
structure Watched (engine : HookEngine Runtime) (s : System Runtime) : Prop where
  recorded : Recorded engine s
  clock : ∀ lastCheck, s.phase = .serving lastCheck → lastCheck ≤ s.now
  fresh : s.phase ≠ .starting → Current engine s ∨
    ∃ lastCheck, s.phase = .serving lastCheck ∧ ∃ time ∈ s.edited, lastCheck ≤ time

theorem current_load : Current engine (s.load engine) := by
  intro runtime hloaded
  have hfiles : (s.load engine).files = s.files := rfl
  rw [hfiles] at hloaded
  rw [load_of_loaded hloaded]
  rfl

/-- A current worker serves what the files are loaded into. -/
theorem runtime_of_current (hrecorded : Recorded engine s) (hcurrent : Current engine s)
    {runtime : Option Runtime} (h : engine.loaded s.files = .ok runtime) :
    s.loader.runtime = runtime := by
  have hloaded := hrecorded.2
  rw [hcurrent runtime h, h] at hloaded
  exact (Except.ok.inj hloaded).symm

/-- A look for edits that is due makes the worker current, where no signature hides an edit. -/
theorem current_check {lastCheck : ℕ} (hdue : reloadInterval ≤ s.now - lastCheck)
    (hdistinct : s.recorded = s.files ∨ s.loader.signature ≠ engine.signatures s.files) :
    Current engine (s.check engine lastCheck) := by
  rw [check_of_due hdue]
  split_ifs with hsame
  · exact fun _ _ => hdistinct.resolve_right fun hne => hne hsame.symm
  · exact current_load.withPhase _

/-- **A covered step** keeps the worker watching, and runs the hooks that are in force. -/
theorem step_watched (h : Watched engine s) (hstep : When (Covered engine) (Step engine) s a t) :
    Watched engine t ∧ InForce engine s a := by
  obtain ⟨hcovered, hstep⟩ := hstep
  have hrecorded := step_recorded h.recorded hstep
  cases hstep with
  | edit hne =>
    refine ⟨⟨hrecorded, h.clock, fun hphase => ?_⟩, trivial⟩
    cases hs : s.phase with
    | starting => exact absurd hs hphase
    | loaded => exact absurd hs hcovered
    | serving lastCheck => exact .inr ⟨lastCheck, rfl, s.now, rfl, h.clock lastCheck hs⟩
  | pass nanoseconds =>
    exact ⟨⟨hrecorded, fun lastCheck hphase => (h.clock lastCheck hphase).trans (Nat.le_add_right _ _),
      h.fresh⟩, trivial⟩
  | load hphase =>
    have hcurrent : Current engine (s.load engine) := current_load
    refine ⟨⟨hrecorded, fun lastCheck hserving => ?_, fun _ => .inl (hcurrent.withPhase _)⟩, trivial⟩
    cases hserving
  | serve hphase =>
    refine ⟨⟨hrecorded, fun lastCheck hserving => ?_, fun _ => .inl ?_⟩, trivial⟩
    · rw [← Phase.serving.inj hserving]
    · refine (h.fresh (by rw [hphase]; exact nofun)).resolve_right ?_
      rintro ⟨lastCheck, hserving, -⟩
      rw [hphase] at hserving
      cases hserving
  | reload => exact ⟨⟨hrecorded, h.clock, h.fresh⟩, trivial⟩
  | call call before =>
    constructor
    · split_ifs
      · exact ⟨h.recorded, h.clock, h.fresh⟩
      · exact h
    · intro hactive hsettled runtime hloaded
      rcases hcovered with hset | hempty | hunsettled | hfails
      · rw [hset] at hactive
        cases hactive
      · rw [hempty] at hloaded
        exact (Except.ok.inj hloaded).symm
      · exact absurd hsettled hunsettled
      · exact absurd hloaded (hfails runtime)
  | reloaded hphase hqueue =>
    have hcurrent : Current engine (s.load engine) := current_load
    exact ⟨⟨hrecorded, h.clock, fun _ => .inl (hcurrent.withQueue _)⟩, trivial⟩
  | @answered lastCheck call before rest hphase hqueue =>
    have hfresh := h.fresh (by rw [hphase]; exact nofun)
    have hserves := recorded_check h.recorded lastCheck
    by_cases hdue : reloadInterval ≤ s.now - lastCheck
    · have hcurrent := current_check hdue hcovered
      have hframe := @check_frame _ engine s _ hdue
      refine ⟨⟨hrecorded, fun time hphase' => ?_, fun _ => .inl (hcurrent.withQueue _)⟩,
        fun _ expected hexpected => ?_⟩
      · obtain rfl := Phase.serving.inj (hframe.1.symm.trans hphase')
        exact hframe.2.2.ge
      · exact runtime_of_current hserves hcurrent (by rwa [System.files, hframe.2.1])
    · rw [check_of_not_due hdue] at hserves ⊢
      refine ⟨⟨hserves, h.clock, fun _ => hfresh⟩, fun hsettled expected hexpected => ?_⟩
      rcases hfresh with hcurrent | ⟨last, hserving, time, htime, hbefore⟩
      · exact runtime_of_current h.recorded hcurrent hexpected
      · -- A directory that is settled was edited so long ago that the worker would look.
        obtain rfl := Phase.serving.inj (hphase.symm.trans hserving)
        exact absurd ((hsettled time htime).trans (Nat.sub_le_sub_left hbefore _)) hdue

theorem watched_start (directory : Option (List DirEntry)) :
    Watched engine (System.start directory : System Runtime) where
  recorded := recorded_start directory
  clock _ h := by cases h
  fresh h := absurd rfl h

/-- **The hooks on disk are enforced.** In every run what serves was loaded from the files that the
signature records, and a load that fails changes neither; and where the steps of a run are covered, a
write after it runs its hooks as the directory has them. -/
theorem hooks_in_force (directory : Option (List DirEntry)) (actions : List (Action Runtime))
    (s : System Runtime) :
    (Run (Step engine) (.start directory) actions s → Recorded engine s) ∧
      (∀ (loader : HookLoader Runtime) (edited : Option (List DirEntry)) (e : String),
        engine.loaded (discover edited) = .error e →
          (loader.load engine edited).1.runtime = loader.runtime ∧
            (loader.load engine edited).1.signature = loader.signature) ∧
      (Run (When (Covered engine) (Step engine)) (.start directory) actions s →
        ∀ a t, When (Covered engine) (Step engine) s a t → InForce engine s a) := by
  refine ⟨fun hrun => ?_, fun loader edited e hfails => ?_, fun hrun a t hstep => ?_⟩
  · exact hrun.invariant (fun _ _ _ h hstep => step_recorded h hstep) (recorded_start directory)
  · rw [(HookLoader.load_of_error hfails).1]
    exact ⟨rfl, rfl⟩
  · have hwatched := hrun.invariant (I := Watched engine) (fun _ _ _ h hstep => (step_watched h hstep).1)
      (watched_start directory)
    exact (step_watched hwatched hstep).2

end Runs

/-! ### A hook that is added later -/

/-- An engine whose runtimes are the sources they were given. -/
@[grind =]
def sourceEngine : HookEngine (List String) where
  hash
    | .text source => source.length.toUInt64
    | .binary bytes => bytes.length.toUInt64
  unreadable _ := "not UTF-8"
  strip source _ := .ok source
  create := .ok []
  load runtime code := .ok (runtime ++ [code])
  registered _ _ _ := .ok 1
  dispatch _ call := .ok call.payload

def slugHook : Option (List DirEntry) :=
  some [⟨"hooks/main.pb.ts", true, some (.text "onRecordBeforeCreate(\"posts\", f)")⟩]

def newPost : HookCall := ⟨⟨"posts", .owner⟩, .create, "posts", .object []⟩

/-- The hooks that were there at the start answer the first write that finds the flag set. -/
theorem slugHook_in_force : ∃ s,
    Run (When (Covered sourceEngine) (Step sourceEngine)) (.start slugHook)
        [.load, .serve, .call newPost true] s ∧
      InForce sourceEngine s (.answered newPost true s.loader.runtime
        (s.loader.dispatch sourceEngine (dispatchOf newPost true))) := by
  let loaded : System (List String) :=
    { System.load sourceEngine (.start slugHook) with phase := .loaded }
  let serving : System (List String) := { loaded with phase := .serving 0 }
  let called : System (List String) := { serving with queue := [.dispatch newPost true] }
  have hrun : Run (When (Covered sourceEngine) (Step sourceEngine)) (.start slugHook)
      [.load, .serve, .call newPost true] called :=
    .cons ⟨trivial, .load rfl⟩ (.cons (t := serving) ⟨trivial, .serve rfl⟩
      (.cons ⟨.inl rfl, .call serving newPost true⟩ (.nil called)))
  have hstep : Step sourceEngine called _ { called.check sourceEngine 0 with queue := [] } :=
    .answered rfl rfl
  exact ⟨called, hrun, (hooks_in_force slugHook _ called).2.2 hrun _ _ ⟨.inl rfl, hstep⟩⟩

/-- **A hook that is added to an empty directory is not enforced**, however long it has been there: the
flag is unset, so that no write is sent to the worker, and only a dispatch looks for files. -/
theorem late_hook_ignored : ∃ s t,
    Run (Step sourceEngine) (.start none) [.load, .serve, .edit slugHook, .pass reloadInterval] s ∧
      Step sourceEngine s (.call newPost true) t ∧
      ¬ InForce sourceEngine s (.call newPost true) := by
  let s : System (List String) :=
    ⟨slugHook, reloadInterval, .new, .serving 0, [], false, some 0, []⟩
  refine ⟨s, _, .cons (.load rfl) (.cons (.serve rfl) (.cons (.edit _ (by decide))
    (.cons (t := s) (.pass _ _) (.nil s)))), .call s newPost true, fun hforce => ?_⟩
  have hloaded : sourceEngine.loaded s.files =
      .ok (some ["onRecordBeforeCreate(\"posts\", f)"]) := by rfl
  have hnone := hforce rfl (fun time htime => ?_) _ hloaded
  · cases hnone
  · obtain rfl := Option.some.inj htime
    exact le_refl reloadInterval

end LazyPock.HookService
