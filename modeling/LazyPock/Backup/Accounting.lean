import LazyPock.Backup.Import

/-!
# What an import says about each collection

An import that carries on past a failure has to say of every collection what became of it. It does so
for the records. A definition that cannot be applied ends the import instead, and so does a drop: what
was applied before stays, and the caller is told nothing of the rest.

## Main definitions

* `Backup.DefinitionsApply`: every definition can be applied in its turn.
* `Backup.Blamed`: the definition or the records of a collection could not be applied.
* `Backup.CarriesOn`, `Backup.StopsAtFirst`: what the modes promise.
* `Backup.Halts`: no commit fails before another one succeeds.

## Main results

* `Backup.importEach_continue`, `Backup.importEach_perCollection`: the reports of
  the two modes.
* `Backup.accounted_iff`: exactly when each mode keeps its promise.
-/

namespace LazyPock.Backup

open Text Machine Collections List

variable (env : Environment) (ids : ℕ → Ids) (archive : Archive) (options : ImportOptions)

/-! ### Turns -/

/-- Every definition can be applied in its turn. -/
def DefinitionsApply (current : List Collection) :
    ℕ → List (String × ImportAction) → World → Prop
  | _, [], _ => True
  | index, entry :: rest, w =>
    ¬ Saga.Fails (defineCollection env (ids index) archive options current entry) w ∧
      DefinitionsApply current (index + 1) rest
        (defineCollection env (ids index) archive options current entry w).2

/-- The world after some definitions, also where one of them could not be applied. -/
def afterDefinitions (current : List Collection) :
    ℕ → List (String × ImportAction) → World → World
  | _, [], w => w
  | index, entry :: rest, w =>
    afterDefinitions current (index + 1) rest
      (defineCollection env (ids index) archive options current entry w).2

/-- The world after the records of some collections: `per_collection` stops at the first one whose
records are refused. -/
def afterRecords (atomic : AtomicMode) : List String → World → World
  | [], w => w
  | name :: rest, w =>
    match attempt env archive name w with
    | (.applied, after) | (.uncommitted, after) => afterRecords atomic rest after
    | (.refused _, after) =>
      if atomic = .perCollection then after else afterRecords atomic rest after

/-- The own definition or the own records of a collection could not be applied, in the world the
collections `earlier` left. -/
def Blamed (w : World) (earlier : List (String × ImportAction)) (entry : String × ImportAction) :
    Prop :=
  Saga.Fails (defineCollection env (ids earlier.length) archive options (list w.db) entry)
      (afterDefinitions env ids archive options (list w.db) 0 earlier w) ∨
    (attempt env archive entry.1 (afterRecords env archive .continue (earlier.map Prod.fst)
      (afterDefinitions env ids archive options (list w.db) 0 (planned archive w) w))).1 ≠ .applied

/-- Every writable collection is imported or reported, once. -/
def ReportsOnce (report : ImportReport) (names : List String) : Prop :=
  ∀ name ∈ names, report.names.count name = 1

/-- **What `continue` promises**: the import is applied, every writable collection is imported or
reported, once, and it is reported exactly when its own definition or records could not be applied. -/
def CarriesOn (w : World) : Prop :=
  ∃ report after, importArchive env ids archive options w = (.ok (.applied report), after) ∧
    ReportsOnce report ((planned archive w).map Prod.fst) ∧
    ∀ earlier entry later, planned archive w = earlier ++ entry :: later →
      (entry.1 ∈ report.errors.map Prod.fst ↔ Blamed env ids archive options w earlier entry)

/-- **What `per_collection` promises**: the import is applied, every writable collection is imported or
reported, once, and none is imported after the first one that failed. -/
def StopsAtFirst (w : World) : Prop :=
  ∃ report after, importArchive env ids archive options w = (.ok (.applied report), after) ∧
    ReportsOnce report ((planned archive w).map Prod.fst) ∧
    ∀ earlier name later, (planned archive w).map Prod.fst = earlier ++ name :: later →
      name ∉ report.imported.map ImportedCollection.name →
      ∀ other ∈ later, other ∉ report.imported.map ImportedCollection.name

/-- No records are committed before the first refusal. -/
@[grind =]
def NoneApplied : List String → World → Prop
  | [], _ => True
  | name :: rest, w =>
    match attempt env archive name w with
    | (.applied, _) => False
    | (.uncommitted, after) => NoneApplied rest after
    | (.refused _, _) => True

/-- No commit fails before another one succeeds. -/
@[grind =]
def Halts : List String → World → Prop
  | [], _ => True
  | name :: rest, w =>
    match attempt env archive name w with
    | (.applied, after) => Halts rest after
    | (.uncommitted, after) => NoneApplied env archive rest after
    | (.refused _, _) => True

/-- The definitions apply in turn, and so do the drops that were asked for. -/
def Applicable (w : World) : Prop :=
  DefinitionsApply env ids archive options (list w.db) 0 (planned archive w) w ∧
    ¬ Saga.Fails (dropPhase env options (list w.db) archive)
      (afterRecords env archive options.atomic ((planned archive w).map Prod.fst)
        (afterDefinitions env ids archive options (list w.db) 0 (planned archive w) w))

/-! ### The definitions -/

section Definitions

variable {env ids archive options} {current : List Collection} {w mid : World} {index : ℕ}
  {entries : List (String × ImportAction)}

/-- The definitions are applied when each of them can be, in its turn. -/
theorem applyDefinitions_eq_ok :
    (∃ removed, applyDefinitions env ids archive options current index entries w =
        (.ok removed, mid)) ↔
      DefinitionsApply env ids archive options current index entries w ∧
        afterDefinitions env ids archive options current index entries w = mid := by
  induction entries generalizing index w with
  | nil => simp [applyDefinitions, DefinitionsApply, afterDefinitions]
  | cons entry rest ih =>
    simp only [applyDefinitions, DefinitionsApply, afterDefinitions]
    cases hfirst : defineCollection env (ids index) archive options current entry w with
    | mk r next =>
      cases r with
      | error e =>
        have hfails : Saga.Fails (defineCollection env (ids index) archive options current entry) w :=
          ⟨e, by rw [hfirst]⟩
        simp only [Saga.bind_of_error hfirst, hfails, not_true_eq_false, false_and, iff_false]
        rintro ⟨removed, h⟩
        cases h
      | ok removed =>
        have hfails :
            ¬ Saga.Fails (defineCollection env (ids index) archive options current entry) w := by
          rintro ⟨e, h⟩
          rw [hfirst] at h
          cases h
        simp only [Saga.bind_of_ok hfirst, hfails, not_false_eq_true, true_and, ← ih,
          Saga.bind_eq_ok]
        constructor
        · rintro ⟨all, others, last, hothers, hall⟩
          obtain ⟨-, rfl⟩ : removed ++ others = all ∧ last = mid := by simpa using hall
          exact ⟨others, hothers⟩
        · rintro ⟨others, hothers⟩
          exact ⟨removed ++ others, others, mid, hothers, rfl⟩

/-- Where the definitions apply in turn, each of them does. -/
theorem DefinitionsApply.not_fails {earlier later : List (String × ImportAction)}
    {entry : String × ImportAction}
    (h : DefinitionsApply env ids archive options current index (earlier ++ entry :: later) w) :
    ¬ Saga.Fails (defineCollection env (ids (index + earlier.length)) archive options current entry)
      (afterDefinitions env ids archive options current index earlier w) := by
  induction earlier generalizing index w with
  | nil => exact h.1
  | cons first earlier ih =>
    have hrest := ih h.2
    rwa [length_cons, Nat.add_comm earlier.length 1, ← Nat.add_assoc]

end Definitions

/-! ### The records -/

section Records

variable {env archive} {removed : List (String × List String)} {all names : List String}
  {report : ImportReport} {w : World}

/-- The world the data phase leaves. -/
theorem importEach_snd (atomic : AtomicMode) :
    (importEach env atomic archive removed all names report w).2 =
      afterRecords env archive atomic names w := by
  induction names generalizing report w with
  | nil => rfl
  | cons name rest ih =>
    unfold importEach afterRecords
    obtain ⟨outcome, after⟩ := attempt env archive name w
    cases outcome with
    | applied => exact ih
    | uncommitted => exact ih
    | refused e =>
      dsimp only
      split_ifs
      · rfl
      · exact ih

variable (env archive) in
/-- How the records of each collection fare under `continue`. -/
@[grind =]
def attempts : List String → World → List (String × Attempt)
  | [], _ => []
  | name :: rest, w =>
    (name, (attempt env archive name w).1) :: attempts rest (attempt env archive name w).2

theorem map_fst_attempts : (attempts env archive names w).map Prod.fst = names := by
  induction names generalizing w with
  | nil => rfl
  | cons name rest ih => rw [attempts, map_cons, ih]

theorem afterRecords_continue_cons (name : String) :
    afterRecords env archive .continue (name :: names) w =
      afterRecords env archive .continue names (attempt env archive name w).2 := by
  rw [afterRecords]
  split
  next h => rw [h]
  next h => rw [h]
  next h =>
    rw [h]
    rfl

/-- The attempt of a collection is made in the world the earlier ones leave. -/
theorem attempts_append (earlier later : List String) (name : String) :
    attempts env archive (earlier ++ name :: later) w =
      attempts env archive earlier w ++
        (name, (attempt env archive name (afterRecords env archive .continue earlier w)).1) ::
          attempts env archive later (attempt env archive name
            (afterRecords env archive .continue earlier w)).2 := by
  induction earlier generalizing w with
  | nil => rfl
  | cons first earlier ih =>
    rw [cons_append, attempts, ih, afterRecords_continue_cons]
    rfl

/-- **The report under `continue`**: a collection is imported where its records are applied, and
reported where they are not. -/
theorem importEach_continue :
    (importEach env .continue archive removed all names report w).1.imported.map
        ImportedCollection.name = report.imported.map ImportedCollection.name ++
          ((attempts env archive names w).filter fun entry => entry.2 = .applied).map Prod.fst ∧
      (importEach env .continue archive removed all names report w).1.errors.map Prod.fst =
        report.errors.map Prod.fst ++
          ((attempts env archive names w).filter fun entry => !decide (entry.2 = .applied)).map
            Prod.fst := by
  induction names generalizing report w with
  | nil => simp [importEach, attempts]
  | cons name rest ih =>
    unfold importEach attempts
    obtain ⟨outcome, after⟩ := attempt env archive name w
    cases outcome with
    | applied =>
      dsimp only
      rw [(ih (w := after)).1, (ih (w := after)).2]
      simp [ImportReport.withImported, importedOf]
    | uncommitted =>
      dsimp only
      rw [(ih (w := after)).1, (ih (w := after)).2]
      simp [ImportReport.withError]
    | refused e =>
      dsimp only
      rw [if_neg (by simp), (ih (w := after)).1, (ih (w := after)).2]
      simp [ImportReport.withError]

/-- A collection's attempt is found under its name. -/
theorem mem_attempts {earlier later : List String} {name : String}
    (hnodup : (earlier ++ name :: later).Nodup) {outcome : Attempt} :
    (name, outcome) ∈ attempts env archive (earlier ++ name :: later) w ↔
      (attempt env archive name (afterRecords env archive .continue earlier w)).1 = outcome := by
  have hnot : ∀ {names : List String} {v : World}, name ∉ names →
      (name, outcome) ∉ attempts env archive names v := by
    intro names v hname hmem
    have hfst := mem_map_of_mem (f := Prod.fst) hmem
    rw [map_fst_attempts] at hfst
    exact hname hfst
  obtain ⟨-, hlater, hdisjoint⟩ := nodup_append.mp hnodup
  have hearlier : name ∉ earlier := fun h => hdisjoint name h name mem_cons_self rfl
  rw [attempts_append, mem_append, mem_cons, Prod.mk.injEq]
  simp only [hnot hearlier, hnot (nodup_cons.mp hlater).1, true_and, false_or, or_false]
  exact eq_comm

/-! ### Reported once -/

theorem names_withImported (report : ImportReport) (name : String) (fields : List String) :
    (report.withImported (importedOf archive name fields)).names.Perm (report.names ++ [name]) := by
  simp only [ImportReport.names, ImportReport.withImported, importedOf, map_append,
    map_cons, map_nil, append_assoc]
  exact perm_append_comm.append_left _

theorem names_withError (report : ImportReport) (name message : String) :
    (report.withError name message).names = report.names ++ [name] := by
  simp [ImportReport.names, ImportReport.withError]

/-- The collections that are not reported yet are reported, in their order. -/
theorem names_notAttempted {planned : List String} (hnodup : planned.Nodup) :
    (notAttempted report planned).names =
      report.names ++ planned.filter fun name => name ∉ report.names := by
  induction planned generalizing report with
  | nil => simp [notAttempted]
  | cons name rest ih =>
    obtain ⟨hname, hrest⟩ := nodup_cons.mp hnodup
    have hstep : notAttempted report (name :: rest) = notAttempted (if name ∈ report.names then report
        else report.withError name "not attempted: an earlier collection failed") rest := by
      simp only [notAttempted, foldl_cons, ImportReport.names, mem_append]
    rw [hstep]
    split_ifs with hmem
    · rw [ih hrest, filter_cons_of_neg (by simpa using hmem)]
    · rw [ih hrest, names_withError, filter_cons_of_pos (by simpa using hmem), append_assoc,
        singleton_append]
      refine congrArg (fun l => report.names ++ name :: l) (filter_congr fun other hother => ?_)
      have hne : other ≠ name := fun h => hname (h ▸ hother)
      simp [hne]

/-- **Every collection of the plan is imported or reported, once**, under both modes. -/
theorem importEach_names {earlier : List String} (atomic : AtomicMode)
    (hall : all = earlier ++ names) (hnodup : all.Nodup) (hearlier : report.names.Perm earlier) :
    (importEach env atomic archive removed all names report w).1.names.Perm all := by
  induction names generalizing earlier report w with
  | nil => rwa [importEach, hall, append_nil]
  | cons name rest ih =>
    have hnext : all = (earlier ++ [name]) ++ rest := by simp [hall]
    unfold importEach
    split
    next => exact ih hnext ((names_withImported _ _ _).trans (hearlier.append_right _))
    next =>
      refine ih hnext ?_
      rw [names_withError]
      exact hearlier.append_right _
    next e after h =>
      have hreported : (report.withError name e.message).names.Perm (earlier ++ [name]) := by
        rw [names_withError]
        exact hearlier.append_right _
      split_ifs
      · -- What is left of the plan is what the report does not name.
        rw [names_notAttempted hnodup]
        have hrest : (all.filter fun other => other ∉ (report.withError name e.message).names) =
            rest := by
          rw [hnext] at hnodup
          have hdisjoint := (nodup_append.mp hnodup).2.2
          simp only [hreported.mem_iff]
          rw [hnext, filter_append, filter_eq_nil_iff.mpr, filter_eq_self.mpr,
            nil_append]
          · intro other hother
            rw [decide_eq_true_eq]
            exact fun h => hdisjoint other h other hother rfl
          · intro other hother
            rw [decide_eq_true_eq, not_not]
            exact hother
        rw [hrest, hnext]
        exact hreported.append_right _
      · exact ih hnext hreported

/-! ### Stopping -/

variable (env archive) in
/-- The collections whose records are committed before the first refusal. -/
@[grind =]
def appliedFirst : List String → World → List String
  | [], _ => []
  | name :: rest, w =>
    match attempt env archive name w with
    | (.applied, after) => name :: appliedFirst rest after
    | (.uncommitted, after) => appliedFirst rest after
    | (.refused _, _) => []

theorem imported_notAttempted (planned : List String) :
    (notAttempted report planned).imported = report.imported := by
  induction planned generalizing report with
  | nil => rfl
  | cons name rest ih =>
    have hstep : notAttempted report (name :: rest) = notAttempted
        (if name ∈ report.imported.map ImportedCollection.name ∨ name ∈ report.errors.map Prod.fst
          then report
          else report.withError name "not attempted: an earlier collection failed") rest := rfl
    rw [hstep, ih]
    split_ifs <;> rfl

/-- What `per_collection` imports. -/
theorem importEach_perCollection :
    (importEach env .perCollection archive removed all names report w).1.imported.map
      ImportedCollection.name =
        report.imported.map ImportedCollection.name ++ appliedFirst env archive names w := by
  induction names generalizing report w with
  | nil => simp [importEach, appliedFirst]
  | cons name rest ih =>
    unfold importEach appliedFirst
    obtain ⟨outcome, after⟩ := attempt env archive name w
    cases outcome with
    | applied =>
      dsimp only
      rw [ih]
      simp [ImportReport.withImported, importedOf]
    | uncommitted =>
      dsimp only
      rw [ih]
      rfl
    | refused e =>
      dsimp only
      rw [if_pos rfl, imported_notAttempted]
      simp [ImportReport.withError]

theorem appliedFirst_sublist : (appliedFirst env archive names w).Sublist names := by
  induction names generalizing w with
  | nil => exact .refl _
  | cons name rest ih =>
    unfold appliedFirst
    split
    next => exact ih.cons_cons name
    next => exact ih.cons name
    next => exact nil_sublist _

theorem noneApplied_iff : NoneApplied env archive names w ↔ appliedFirst env archive names w = [] := by
  induction names generalizing w with
  | nil => simp [NoneApplied, appliedFirst]
  | cons name rest ih =>
    unfold NoneApplied appliedFirst
    split
    next => simp
    next => exact ih
    next => simp

/-- No commit fails before another one succeeds exactly when nothing is imported after the first
collection that is not. -/
theorem halts_iff (hnodup : names.Nodup) :
    Halts env archive names w ↔
      ∀ earlier name later, names = earlier ++ name :: later →
        name ∉ appliedFirst env archive names w →
        ∀ other ∈ later, other ∉ appliedFirst env archive names w := by
  induction names generalizing w with
  | nil => simp [Halts]
  | cons first rest ih =>
    obtain ⟨hfirst, hrest⟩ := nodup_cons.mp hnodup
    unfold Halts appliedFirst
    split
    next after =>
      rw [ih hrest]
      constructor
      · intro hstop earlier name later hsplit hname other hother
        cases earlier with
        | nil =>
          obtain ⟨rfl, rfl⟩ := List.cons.inj hsplit
          exact absurd mem_cons_self hname
        | cons e earlier =>
          obtain ⟨rfl, rfl⟩ := List.cons.inj hsplit
          have hne : other ≠ first := by
            rintro rfl
            exact hfirst (by simp [hother])
          have hnot := hstop earlier name later rfl fun hmem => hname (mem_cons_of_mem _ hmem)
          simpa [hne] using hnot other hother
      · intro hstop earlier name later hsplit hname other hother
        have hne : name ≠ first := by
          rintro rfl
          exact hfirst (by simp [hsplit])
        have hnot := hstop (first :: earlier) name later (by rw [hsplit]; rfl) (by simp [hne, hname])
          other hother
        exact fun hmem => hnot (mem_cons_of_mem _ hmem)
    next after _ =>
      rw [noneApplied_iff]
      constructor
      · intro hnone earlier name later _ _ other _
        rw [hnone]
        exact not_mem_nil
      · intro hstop
        have hnot : first ∉ appliedFirst env archive rest after := fun hmem =>
          hfirst (appliedFirst_sublist.subset hmem)
        refine eq_nil_iff_forall_not_mem.mpr fun other hmem => ?_
        exact hstop [] first rest rfl hnot other (appliedFirst_sublist.subset hmem) hmem
    next => simp

end Records

/-! ### The two modes -/

section Modes

variable {env ids archive options} {w after : World} {report : ImportReport}

theorem importRecords_each {atomic : AtomicMode} (hmode : atomic ≠ .batch)
    (removed : List (String × List String)) (names : List String) :
    importRecords env atomic archive removed names report w =
      (.ok (importEach env atomic archive removed names names report w).1,
        (importEach env atomic archive removed names names report w).2) := by
  cases atomic with
  | batch => exact absurd rfl hmode
  | perCollection | «continue» => rfl

/-- An import under one of the two modes is applied where its definitions and drops are, and reports
what became of the records. -/
theorem applied_iff (hconfirm : options.confirm = true) (hmode : options.atomic ≠ .batch) :
    (∃ after, importArchive env ids archive options w = (.ok (.applied report), after)) ↔
      Applicable env ids archive options w ∧
        ∃ removed mid after dropped,
          applyDefinitions env ids archive options (list w.db) 0 (planned archive w) w =
            (.ok removed, mid) ∧
          dropPhase env options (list w.db) archive (afterRecords env archive options.atomic
            ((planned archive w).map Prod.fst) mid) = (.ok dropped, after) ∧
          report = { (importEach env options.atomic archive removed ((planned archive w).map Prod.fst)
            ((planned archive w).map Prod.fst) (emptyReport archive options) mid).1 with
              removed := dropped } := by
  simp only [importArchive_eq_applied hconfirm, importRecords_each hmode, importEach_snd,
    Prod.mk.injEq, Except.ok.injEq]
  constructor
  · rintro ⟨after, removed, mid, records, data, dropped, hremoved, ⟨rfl, rfl⟩, hdropped, rfl⟩
    obtain ⟨hdefinitions, hmid⟩ := applyDefinitions_eq_ok.mp ⟨removed, hremoved⟩
    refine ⟨⟨hdefinitions, ?_⟩, removed, mid, after, dropped, hremoved, hdropped, rfl⟩
    rintro ⟨e, he⟩
    rw [hmid, hdropped] at he
    cases he
  · rintro ⟨-, removed, mid, after, dropped, hremoved, hdropped, rfl⟩
    exact ⟨after, removed, mid, _, _, dropped, hremoved, ⟨rfl, rfl⟩, hdropped, rfl⟩

theorem exists_applied (hconfirm : options.confirm = true) (hmode : options.atomic ≠ .batch)
    (h : Applicable env ids archive options w) :
    ∃ report after, importArchive env ids archive options w = (.ok (.applied report), after) := by
  obtain ⟨removed, hremoved⟩ := applyDefinitions_eq_ok.mpr ⟨h.1, rfl⟩
  cases hdropped : dropPhase env options (list w.db) archive (afterRecords env archive options.atomic
      ((planned archive w).map Prod.fst)
      (afterDefinitions env ids archive options (list w.db) 0 (planned archive w) w)) with
  | mk r after =>
    cases r with
    | error e => exact absurd ⟨e, by rw [hdropped]⟩ h.2
    | ok dropped =>
      obtain ⟨after, happlied⟩ := (applied_iff hconfirm hmode).mpr
        ⟨h, removed, _, after, dropped, hremoved, hdropped, rfl⟩
      exact ⟨_, after, happlied⟩

theorem names_nodup (hnodup : (archive.collections.map ArchiveCollection.name).Nodup) :
    ((planned archive w).map Prod.fst).Nodup := by
  rw [planned, writable_names]
  exact hnodup.filter _

/-- An import that is applied says of every collection what became of it, once. -/
theorem reportsOnce (hnodup : (archive.collections.map ArchiveCollection.name).Nodup)
    (hconfirm : options.confirm = true) (hmode : options.atomic ≠ .batch)
    (h : importArchive env ids archive options w = (.ok (.applied report), after)) :
    ReportsOnce report ((planned archive w).map Prod.fst) := by
  obtain ⟨-, removed, mid, -, dropped, -, -, rfl⟩ := (applied_iff hconfirm hmode).mp ⟨after, h⟩
  intro name hname
  have hperm : (importEach env options.atomic archive removed ((planned archive w).map Prod.fst)
      ((planned archive w).map Prod.fst) (emptyReport archive options) mid).1.names.Perm
        ((planned archive w).map Prod.fst) :=
    importEach_names options.atomic (nil_append _).symm (names_nodup hnodup) .nil
  have hcount := hperm.count_eq name
  rw [count_eq_one_of_mem (names_nodup hnodup) hname] at hcount
  exact hcount

/-- **When the modes keep their promises.** For distinct names and a confirmed import: `continue`
carries on exactly when every definition can be applied in its turn and so can the drops, and
`per_collection` stops at the first failure exactly when, besides, no commit fails before another one
succeeds. -/
theorem accounted_iff (hnodup : (archive.collections.map ArchiveCollection.name).Nodup)
    (hconfirm : options.confirm = true) :
    (options.atomic = .continue →
      (CarriesOn env ids archive options w ↔ Applicable env ids archive options w)) ∧
    (options.atomic = .perCollection →
      (StopsAtFirst env ids archive options w ↔ Applicable env ids archive options w ∧
        Halts env archive ((planned archive w).map Prod.fst)
          (afterDefinitions env ids archive options (list w.db) 0 (planned archive w) w))) := by
  constructor
  · intro hcontinue
    have hmode : options.atomic ≠ .batch := by simp [hcontinue]
    constructor
    · rintro ⟨report, after, happlied, -, -⟩
      exact ((applied_iff hconfirm hmode).mp ⟨after, happlied⟩).1
    · intro hready
      obtain ⟨report, after, happlied⟩ := exists_applied hconfirm hmode hready
      refine ⟨report, after, happlied, reportsOnce hnodup hconfirm hmode happlied, ?_⟩
      obtain ⟨-, removed, mid, -, dropped, hremoved, -, rfl⟩ :=
        (applied_iff hconfirm hmode).mp ⟨after, happlied⟩
      obtain ⟨hdefinitions, rfl⟩ := applyDefinitions_eq_ok.mp ⟨removed, hremoved⟩
      intro earlier entry later hsplit
      have hnames : (planned archive w).map Prod.fst =
          earlier.map Prod.fst ++ entry.1 :: later.map Prod.fst := by simp [hsplit]
      have hdistinct : (earlier.map Prod.fst ++ entry.1 :: later.map Prod.fst).Nodup :=
        hnames ▸ names_nodup hnodup
      have hdefined : ¬ Saga.Fails
          (defineCollection env (ids earlier.length) archive options (list w.db) entry)
          (afterDefinitions env ids archive options (list w.db) 0 earlier w) := by
        rw [hsplit] at hdefinitions
        simpa using hdefinitions.not_fails
      simp only [Blamed, hdefined, false_or, hcontinue, importEach_continue, emptyReport,
        map_nil, nil_append, mem_map, mem_filter]
      rw [hnames]
      constructor
      · rintro ⟨⟨name, outcome⟩, ⟨hmem, hnot⟩, rfl⟩
        rw [(mem_attempts hdistinct).mp hmem]
        simpa using hnot
      · intro hnot
        exact ⟨(entry.1, _), ⟨(mem_attempts hdistinct).mpr rfl, by simpa using hnot⟩, rfl⟩
  · intro hper
    have hmode : options.atomic ≠ .batch := by simp [hper]
    have himported : ∀ {report after},
        importArchive env ids archive options w = (.ok (.applied report), after) →
        report.imported.map ImportedCollection.name =
          appliedFirst env archive ((planned archive w).map Prod.fst)
            (afterDefinitions env ids archive options (list w.db) 0 (planned archive w) w) := by
      intro report after happlied
      obtain ⟨-, removed, mid, -, dropped, hremoved, -, rfl⟩ :=
        (applied_iff hconfirm hmode).mp ⟨after, happlied⟩
      obtain ⟨-, rfl⟩ := applyDefinitions_eq_ok.mp ⟨removed, hremoved⟩
      simp only [hper, importEach_perCollection, emptyReport, map_nil, nil_append]
    constructor
    · rintro ⟨report, after, happlied, -, hstop⟩
      rw [himported happlied] at hstop
      exact ⟨((applied_iff hconfirm hmode).mp ⟨after, happlied⟩).1,
        (halts_iff (names_nodup hnodup)).mpr hstop⟩
    · rintro ⟨hready, hhalts⟩
      obtain ⟨report, after, happlied⟩ := exists_applied hconfirm hmode hready
      refine ⟨report, after, happlied, reportsOnce hnodup hconfirm hmode happlied, ?_⟩
      rw [himported happlied]
      exact (halts_iff (names_nodup hnodup)).mp hhalts

end Modes

/-! ### A definition that cannot be applied -/

/-- A collection `posts` of one record, after a collection of the given type. -/
def draftsArchive (draftsType : String) : Archive :=
  ⟨[⟨"drafts", some draftsType, [], none, none, []⟩, ⟨"posts", some "base", [], none, none, []⟩],
    [("posts", [.object [("id", .string "p1")]])]⟩

/-- Carry on past a failure. -/
def carryOn : ImportOptions := ⟨.continue, true, 10000, false⟩

/-- Both collections are imported. -/
theorem carriesOn_draftsArchive_base :
    CarriesOn .lenient importIds (draftsArchive "base") carryOn .empty := by
  refine ((accounted_iff (by decide) rfl).1 rfl).mpr ⟨⟨?_, ?_, trivial⟩, ?_⟩
  · exact Saga.not_fails_of_eq_ok (a := []) (by decide)
  · exact Saga.not_fails_of_eq_ok (a := []) (by decide)
  · exact Saga.not_fails_of_eq_ok (a := []) rfl

/-- The type of `drafts` is unknown: the import ends there, and of `posts` nothing is said. -/
theorem not_carriesOn_draftsArchive :
    ¬ CarriesOn .lenient importIds (draftsArchive "graph") carryOn .empty := by
  rintro ⟨report, after, happlied, -, -⟩
  have hrefused : isOk (importArchive .lenient importIds (draftsArchive "graph") carryOn .empty).1 =
      false := by decide
  rw [happlied] at hrefused
  cases hrefused

end LazyPock.Backup
