import LazyPock.Files.Ownership

/-!
# The guard of a file's delete

`remove_file` of `crates/api/src/files.rs`: a file that `_file_refs` has a row for is not deleted
unless a superuser insists. `_file_refs` says which editor fields embed a file, and a write of a record
keeps it up to date (`sync_files` of `crates/api/src/records.rs`). A file field's upload has no row
there: the write attaches it, with a comment that this is what a delete is guarded against, and the
guard does not look. `Guard.guarded_iff` says that the guard is right as long as some editor field
embeds what a file field names.

A delete of a record in a batch, `$app.delete` and `$app.save` leave the rows of `_file_refs` as they
are, so such a step is counted as careful when it changes nothing that a record embeds.

## Main definitions

* `Guard.removeFile`, `Guard.DeleteRequest.run`.
* `Guard.State.Guarded`: the guard protects every use and nothing else.
* `Guard.Careful`: the steps that keep `_file_refs` up to date.

## Main results

* `Guard.exact_of_run`: `_file_refs` is what the records embed.
* `Guard.guarded_iff`, `Guard.guard_ignores_file_field`.
-/

namespace LazyPock.Guard

open Text Machine Files Ownership List

/-! ### Deleting a file -/

/-- How a request says which file it means. -/
inductive Address where
  | byId (id : String)
  | byKey (collection recordId filename : String)

/-- A request to delete a file, with what the delete rule answers for its caller. -/
structure DeleteRequest where
  /-- The caller's account. -/
  userId : Option String
  isSuperuser : Bool
  /-- Delete even while a record still references the file. -/
  force : Bool
  address : Address
  allows : FileRow → Bool

/-- What a request is answered. -/
inductive Response where
  | noContent
  /-- A 409 with the list of references. -/
  | conflict (usage : List FileRef)
  | refused (e : Error)
deriving DecidableEq

/-- The rows that the policies let a request see and delete. -/
def DeleteRequest.sees (request : DeleteRequest) (row : FileRow) : Bool :=
  request.isSuperuser || request.allows row

/-- The order of `refs_for_file`. -/
def refLe (a b : FileRef) : Prop :=
  a.collection < b.collection ∨ (a.collection = b.collection ∧ (a.recordId < b.recordId ∨
    (a.recordId = b.recordId ∧ a.field ≤ b.field)))

instance (a b : FileRef) : Decidable (refLe a b) := inferInstanceAs (Decidable (_ ∨ _))

/-- The references to a file. -/
def refsForFile (refs : List FileRef) (id : String) : List FileRef :=
  (refs.filter fun ref => ref.fileId = id).insertionSort refLe

/-- Delete one file by id, applying the delete rule and the reference guard. -/
@[grind =]
def removeFile (request : DeleteRequest) (store : Store) (id : String) : Response × Store :=
  match request.userId with
  | none => (.refused (.forbidden "deleting a file requires an authenticated request"), store)
  | some _ =>
    match (store.files.get id).filter request.sees with
    | none =>
      if (store.files.get id).isSome then
        (.refused (.forbidden "Access denied by file deleteRule"), store)
      else (.refused (.notFound ("no file " ++ debug id)), store)
    | some _ =>
      let usage := refsForFile store.refs id
      if usage ≠ [] ∧ ¬ (request.force = true ∧ request.isSuperuser = true) then
        (.conflict usage, store)
      else (.noContent, { store with files := store.files.delete fun row => row.id = id })

/-- A path segment that is safe inside a storage key. -/
def safeSegment (segment : String) : Result String := do
  failIf (segment = "" ∨ segment = "." ∨ segment = ".." ∨ '/' ∈ segment.toList ∨
      '\\' ∈ segment.toList ∨ Char.ofNat 0 ∈ segment.toList)
    (.invalid "the file path contains an unsafe segment")
  return segment

/-- The id of the file a request means; `path` gives the `storage_path` of each row. -/
def Address.resolve (path : String → String) (store : Store) : Address → Result String
  | .byId id => .ok id
  | .byKey collection recordId filename => do
    validateIdentifier "collection name" collection
    let recordId ← safeSegment recordId
    let filename ← safeSegment filename
    let key := collection ++ "/" ++ recordId ++ "/" ++ filename
    let row ← okOr (.notFound ("no file at " ++ debug key))
      (store.files.rows.find? fun row => path row.id = key)
    return row.id

/-- Both delete routes. -/
@[grind =]
def DeleteRequest.run (request : DeleteRequest) (path : String → String) (store : Store) :
    Response × Store :=
  match request.userId with
  | none => (.refused (.forbidden "deleting a file requires an authenticated request"), store)
  | some _ =>
    match request.address.resolve path store with
    | .error e => (.refused e, store)
    | .ok id => removeFile request store id

/-! ### The system -/

/-- What can happen. -/
inductive Event where
  | record (event : Ownership.Event)
  | remove (request : DeleteRequest)

variable (path : String → String)

/-- One step. -/
def step (state : State) : Event → Option State
  | .record event => Ownership.step state event
  | .remove request => some { state with store := (request.run path state.store).2 }

/-- The steps as a relation. -/
def Step (state : State) (event : Event) (next : State) : Prop := step path state event = some next

/-- **The guard protects every use**: an unforced delete that succeeds is of a file that no live record
names or embeds, and a file that none names or embeds is not refused as one in use. -/
structure Guarded (state : State) : Prop where
  protects : ∀ (request : DeleteRequest) (id : String), request.force = false →
    request.address.resolve path state.store = .ok id →
      (request.run path state.store).1 = .noContent → ∀ record ∈ state.records, ¬ record.Uses id
  permits : ∀ (request : DeleteRequest) (id : String) (usage : List FileRef), request.force = false →
    request.address.resolve path state.store = .ok id →
      (request.run path state.store).1 = .conflict usage → ∃ record ∈ state.records, record.Uses id

/-- Some live record embeds every stored file that a live record names in a file field. -/
def OwnedEmbedded (state : State) : Prop :=
  ∀ record ∈ state.records, ∀ row ∈ state.store.files.rows, record.Names row.id →
    ∃ other ∈ state.records, other.Embeds row.id

/-- What the text of a record embeds: pairs of a file and a field. -/
def references (record : Record) : List (String × String) :=
  referencesIn record.collection record.document

/-- The records that a batch writes. -/
def saved (steps : List BatchStep) : List Record :=
  steps.filterMap fun
    | .save record => some record
    | .delete _ | .get _ => none

/-- The steps that keep `_file_refs` up to date. -/
def Careful (state : State) : Event → Prop
  -- A delete in a batch drops no references.
  | .record (.batch _ steps) => ∀ key, BatchStep.delete key ∈ steps →
    ∀ record ∈ state.records ++ saved steps, record.key = key → references record = []
  | .record (.appDelete key) => ∀ record ∈ state.records, record.key = key → references record = []
  | .record (.appSave record) => ∀ reference, reference ∈ references record ↔
    ∃ old ∈ state.records, old.key = record.key ∧ reference ∈ references old
  | _ => True

/-- The rows of `_file_refs` are what the records embed. -/
def Exact (refs : List FileRef) (records : List Record) : Prop :=
  ∀ ref, ref ∈ refs ↔ ∃ record ∈ records, record.key = (ref.collection, ref.recordId) ∧
    (ref.fileId, ref.field) ∈ references record

/-! ### What keeps the references exact -/

section Exact

variable {refs : List FileRef} {records : List Record} {record : Record} {store next : Store}
  {caller : Caller} {now : Int} {id : String}

theorem exact_of_put (h : Exact refs records) {after : List FileRef}
    (hafter : ∀ ref, ref ∈ after ↔ if (ref.collection, ref.recordId) = record.key then
      (ref.fileId, ref.field) ∈ references record else ref ∈ refs) :
    Exact after (putRecord records record) := by
  intro ref
  rw [hafter]
  split_ifs with hkey
  · constructor
    · exact fun hmem => ⟨record, mem_cons_self, hkey.symm, hmem⟩
    · rintro ⟨other, hother, hsame, hmem⟩
      rcases mem_cons.mp hother with rfl | hother
      · exact hmem
      · exact absurd (hsame.trans hkey) (of_decide_eq_true (mem_filter.mp hother).2)
  · rw [h ref]
    constructor
    · rintro ⟨other, hother, hsame, hmem⟩
      refine ⟨other, mem_cons_of_mem _ (mem_filter.mpr ⟨hother, ?_⟩), hsame, hmem⟩
      exact decide_eq_true fun heq => hkey (hsame.symm.trans heq)
    · rintro ⟨other, hother, hsame, hmem⟩
      rcases mem_cons.mp hother with rfl | hother
      · exact absurd hsame.symm hkey
      · exact ⟨other, mem_of_mem_filter hother, hsame, hmem⟩

theorem exact_of_drop (h : Exact refs records) {key : String × String} {after : List FileRef}
    (hafter : ∀ ref, ref ∈ after ↔ ref ∈ refs ∧ (ref.collection, ref.recordId) ≠ key) :
    Exact after (dropRecord records key) := by
  intro ref
  rw [hafter, h ref]
  constructor
  · rintro ⟨⟨record, hrecord, hsame, hmem⟩, hne⟩
    refine ⟨record, mem_filter.mpr ⟨hrecord, ?_⟩, hsame, hmem⟩
    exact decide_eq_true (hsame ▸ hne)
  · rintro ⟨record, hrecord, hsame, hmem⟩
    obtain ⟨hstored, hne⟩ := mem_filter.mp hrecord
    exact ⟨⟨record, hstored, hsame, hmem⟩, hsame ▸ of_decide_eq_true hne⟩

/-- A write of a record through a route or in a batch. -/
theorem exact_of_syncFiles (h : Exact store.refs records)
    (hsync : syncFiles store record.collection record.document caller now = .ok next) :
    Exact next.refs (putRecord records record) := by
  obtain ⟨-, -, hrefs⟩ := syncFiles_spec record.id_eq hsync
  refine exact_of_put h fun ref => ?_
  have hkey : (ref.collection, ref.recordId) = record.key ↔
      ref.collection = record.collection.name ∧ ref.recordId = record.id := by
    rw [StoredRecord.key, Prod.mk.injEq]
  simp only [hkey]
  exact hrefs ref

/-- The delete of a record that embeds nothing. -/
theorem exact_of_drop_quiet (h : Exact refs records) {key : String × String}
    (hquiet : ∀ record ∈ records, record.key = key → references record = []) :
    Exact refs (dropRecord records key) := by
  refine exact_of_drop h fun ref => ⟨fun hmem => ⟨hmem, fun hkey => ?_⟩, And.left⟩
  obtain ⟨record, hrecord, hsame, hreference⟩ := (h ref).mp hmem
  rw [hquiet record hrecord (hsame.trans hkey)] at hreference
  cases hreference

theorem mem_saved {steps : List BatchStep} :
    record ∈ saved steps ↔ BatchStep.save record ∈ steps := by
  rw [saved, mem_filterMap]
  constructor
  · rintro ⟨step, hstep, heq⟩
    cases step with
    | save other => exact Option.some.inj heq ▸ hstep
    | delete key => cases heq
    | get key => cases heq
  · exact fun h => ⟨_, h, rfl⟩

/-- A step of a batch. -/
theorem exact_of_execute {data data' : Store × List Record} {step : BatchStep}
    (h : Exact data.1.refs data.2)
    (hquiet : ∀ key, step = .delete key → ∀ record ∈ data.2, record.key = key →
      references record = [])
    (hstep : execute caller now data step = .ok data') : Exact data'.1.refs data'.2 ∧
      ∀ record ∈ data'.2, record ∈ data.2 ∨ step = .save record := by
  cases step with
  | save record =>
    obtain ⟨store, hsync, hdata⟩ := bind_eq_ok.mp hstep
    obtain rfl := Except.ok.inj hdata
    refine ⟨exact_of_syncFiles h hsync, fun other hother => ?_⟩
    rcases mem_putRecord hother with rfl | hother
    · exact .inr rfl
    · exact .inl hother
  | delete key =>
    dsimp only [execute] at hstep
    split_ifs at hstep
    obtain rfl := Except.ok.inj hstep
    exact ⟨exact_of_drop_quiet h (hquiet key rfl),
      fun other hother => .inl (mem_of_mem_filter hother)⟩
  | get key =>
    dsimp only [execute] at hstep
    split_ifs at hstep
    obtain rfl := Except.ok.inj hstep
    exact ⟨h, fun other hother => .inl hother⟩

/-- A batch that deletes no record with an embedded file. -/
theorem exact_of_batch {steps : List BatchStep} {data data' : Store × List Record}
    (h : Exact data.1.refs data.2)
    (hquiet : ∀ key, BatchStep.delete key ∈ steps → ∀ record ∈ data.2 ++ saved steps,
      record.key = key → references record = [])
    (hsteps : steps.foldlM (execute caller now) data = .ok data') :
    Exact data'.1.refs data'.2 := by
  induction steps generalizing data with
  | nil =>
    obtain rfl := Except.ok.inj hsteps
    exact h
  | cons step steps ih =>
    obtain ⟨mid, hstep, hrest⟩ := bind_eq_ok.mp hsteps
    obtain ⟨hmid, hnew⟩ := exact_of_execute h (fun key hkey record hrecord =>
      hquiet key (hkey ▸ mem_cons_self) record (mem_append_left _ hrecord)) hstep
    refine ih hmid (fun key hkey record hrecord => ?_) hrest
    refine hquiet key (mem_cons_of_mem _ hkey) record (mem_append.mpr ?_)
    rcases mem_append.mp hrecord with hrecord | hrecord
    · refine (hnew record hrecord).imp_right ?_
      rintro rfl
      exact mem_saved.mpr mem_cons_self
    · exact .inr (mem_saved.mpr (mem_cons_of_mem _ (mem_saved.mp hrecord)))

/-- A file has a row in `_file_refs` exactly when a record embeds it. -/
theorem exists_ref_iff (h : Exact refs records) :
    (∃ ref ∈ refs, ref.fileId = id) ↔ ∃ record ∈ records, record.Embeds id := by
  constructor
  · rintro ⟨ref, href, rfl⟩
    obtain ⟨record, hrecord, -, hreference⟩ := (h ref).mp href
    obtain ⟨found, hfound, heq⟩ := mem_map.mp hreference
    obtain ⟨hlink, hkind⟩ := mem_filter.mp hfound
    exact ⟨record, hrecord, found, hlink, congrArg Prod.fst heq, of_decide_eq_true hkind⟩
  · rintro ⟨record, hrecord, found, hlink, rfl, hkind⟩
    refine ⟨⟨found.id, record.collection.name, record.id, found.field⟩, (h _).mpr ?_, rfl⟩
    refine ⟨record, hrecord, rfl, mem_map.mpr ⟨found, ?_, rfl⟩⟩
    exact mem_filter.mpr ⟨hlink, decide_eq_true hkind⟩

end Exact

/-! ### Runs -/

section Runs

variable {path} {state next : State} {event : Event} {request : DeleteRequest} {id : String}

/-- A delete of a file leaves the references. -/
theorem refs_removeFile (store : Store) : (removeFile request store id).2.refs = store.refs := by
  unfold removeFile
  split
  · rfl
  · split
    · split_ifs <;> rfl
    · dsimp only
      split_ifs <;> rfl

theorem refs_run (store : Store) : (request.run path store).2.refs = store.refs := by
  unfold DeleteRequest.run
  split
  · rfl
  · split
    · rfl
    · exact refs_removeFile store

/-- **A careful step keeps the references exact.** -/
theorem exact_step (h : Exact state.store.refs state.records) (hcareful : Careful state event)
    (hstep : Step path state event next) : Exact next.store.refs next.records := by
  unfold Step Guard.step at hstep
  cases event with
  | remove request =>
    obtain rfl := Option.some.inj hstep
    rw [refs_run]
    exact h
  | record event =>
    dsimp only [Ownership.step] at hstep
    cases event with
    | upload new id =>
      dsimp only at hstep
      split_ifs at hstep
      · obtain ⟨files, -, rfl⟩ := Option.map_eq_some_iff.mp hstep
        exact h
      · obtain rfl := Option.some.inj hstep
        exact h
    | complete id size mimeType =>
      obtain rfl := Option.some.inj hstep
      exact h
    | save caller record =>
      dsimp only at hstep
      split at hstep
      · obtain rfl := Option.some.inj hstep
        exact h
      · rename_i store hsync
        obtain rfl := Option.some.inj hstep
        exact exact_of_syncFiles h hsync
    | read collection id =>
      obtain rfl := Option.some.inj hstep
      exact h
    | delete request =>
      obtain ⟨deletion, -, rfl⟩ := Option.map_eq_some_iff.mp hstep
      split_ifs
      · refine exact_of_drop h fun ref => ?_
        simp only [releaseFiles, mem_filter, Bool.not_eq_true', Bool.and_eq_false_iff,
          decide_eq_false_iff_not, Deletion.key, ne_eq, Prod.mk.injEq, not_and_or]
      · exact h
    | abandon request =>
      obtain rfl := Option.some.inj hstep
      exact h
    | batch caller steps =>
      dsimp only at hstep
      split at hstep
      · obtain rfl := Option.some.inj hstep
        exact h
      · rename_i store records hsteps
        obtain rfl := Option.some.inj hstep
        have hdata : Exact (state.store, state.records).1.refs (state.store, state.records).2 := h
        exact exact_of_batch hdata hcareful hsteps
    | appSave record =>
      obtain rfl := Option.some.inj hstep
      refine exact_of_put h fun ref => ?_
      split_ifs with hkey
      · rw [h ref, hcareful (ref.fileId, ref.field), ← hkey]
      · rfl
    | appDelete key =>
      obtain rfl := Option.some.inj hstep
      exact exact_of_drop_quiet h hcareful
    | wait duration =>
      obtain rfl := Option.some.inj hstep
      exact h

/-- **In a run of careful steps `_file_refs` is what the records embed.** -/
theorem exact_of_run {now : Int} {events : List Event}
    (hrun : Run (When Careful (Step path)) (State.empty now) events state) :
    Exact state.store.refs state.records :=
  hrun.invariant (I := fun state => Exact state.store.refs state.records)
    (fun _ _ _ h hstep => exact_step h hstep.1 hstep.2) fun ref => by simp [State.empty]

end Runs

/-! ### What the guard does -/

section Requests

variable {path} {request : DeleteRequest} {store : Store} {state : State} {id : String}

theorem refsForFile_eq_nil {refs : List FileRef} :
    refsForFile refs id = [] ↔ ¬ ∃ ref ∈ refs, ref.fileId = id := by
  have hlen := length_insertionSort (r := refLe) (refs.filter fun ref => ref.fileId = id)
  rw [refsForFile, ← length_eq_zero_iff, hlen, length_eq_zero_iff, filter_eq_nil_iff]
  simp

/-- What a request that names a file is answered. -/
theorem run_cases (hresolve : request.address.resolve path store = .ok id) :
    (∃ e, (request.run path store).1 = .refused e) ∨
    ((request.run path store).1 = .conflict (refsForFile store.refs id) ∧
      refsForFile store.refs id ≠ []) ∨
    ((request.run path store).1 = .noContent ∧ (∃ row ∈ store.files.rows, row.id = id) ∧
      (refsForFile store.refs id = [] ∨ request.force = true)) := by
  unfold DeleteRequest.run removeFile
  rw [hresolve]
  cases request.userId with
  | none => exact .inl ⟨_, rfl⟩
  | some user =>
    dsimp only
    cases hseen : (store.files.get id).filter request.sees with
    | none =>
      dsimp only
      split_ifs
      · exact .inl ⟨_, rfl⟩
      · exact .inl ⟨_, rfl⟩
    | some row =>
      dsimp only
      split_ifs with hused
      · exact .inr (.inl ⟨rfl, hused.1⟩)
      · obtain ⟨hget, -⟩ := Option.filter_eq_some_iff.mp hseen
        refine .inr (.inr ⟨rfl, ⟨row, mem_of_find?_eq_some hget, ?_⟩, ?_⟩)
        · simpa using List.find?_some hget
        · exact or_iff_not_imp_left.mpr fun hne => (not_not.mp fun hforce => hused ⟨hne, hforce⟩).1

theorem get_of_mem {files : FileTable} {row : FileRow} (hrow : row ∈ files.rows) :
    files.get row.id = some row := by
  cases hget : files.get row.id with
  | none => exact absurd rfl (FileTable.get_eq_none.mp hget row hrow)
  | some other =>
    have hid : other.id = row.id := by simpa using List.find?_some hget
    rw [files.eq_of_id (mem_of_find?_eq_some hget) hrow hid]

/-- A superuser may delete any file that has no references. -/
theorem exists_request (path : String → String) {row : FileRow} (hrow : row ∈ store.files.rows)
    (hnone : ¬ ∃ ref ∈ store.refs, ref.fileId = row.id) :
    ∃ request : DeleteRequest, request.force = false ∧
      request.address.resolve path store = .ok row.id ∧
        (request.run path store).1 = .noContent := by
  refine ⟨⟨some "root", true, false, .byId row.id, fun _ => true⟩, rfl, rfl, ?_⟩
  have hget := get_of_mem hrow
  simp only [DeleteRequest.run, Address.resolve, removeFile, hget, DeleteRequest.sees, Bool.true_or,
    Option.filter_some, if_true, refsForFile_eq_nil.mpr hnone, ne_eq, not_true_eq_false, false_and,
    if_false]

/-- **The guard protects every use and nothing else exactly when** some editor field embeds every
stored file that a file field names. -/
theorem guarded_iff {now : Int} {events : List Event}
    (hrun : Run (When Careful (Step path)) (State.empty now) events state) :
    Guarded path state ↔ OwnedEmbedded state := by
  have hexact := exact_of_run hrun
  constructor
  · intro h record hrecord row hrow hnames
    by_contra hnone
    obtain ⟨request, hforce, hresolve, hdeleted⟩ :=
      exists_request path hrow fun href => hnone ((exists_ref_iff hexact).mp href)
    obtain ⟨found, hfound, -, hid⟩ := hnames
    exact h.protects request row.id hforce hresolve hdeleted record hrecord ⟨found, hfound, hid⟩
  · intro h
    refine ⟨fun request id hforce hresolve hdeleted record hrecord huses => ?_,
      fun request id usage hforce hresolve hconflict => ?_⟩
    · rcases run_cases hresolve with ⟨e, hrefused⟩ | ⟨hconflict, -⟩ | ⟨-, ⟨row, hrow, rfl⟩, hnone⟩
      · rw [hdeleted] at hrefused
        cases hrefused
      · rw [hdeleted] at hconflict
        cases hconflict
      · have hunembedded := refsForFile_eq_nil.mp (hnone.resolve_right (by simp [hforce]))
        rw [exists_ref_iff hexact] at hunembedded
        obtain ⟨found, hfound, hid⟩ := huses
        cases hkind : found.link with
        | reference => exact hunembedded ⟨record, hrecord, found, hfound, hid, hkind⟩
        | owner => exact hunembedded (h record hrecord row hrow ⟨found, hfound, hkind, hid⟩)
    · rcases run_cases hresolve with ⟨e, hrefused⟩ | ⟨-, hne⟩ | ⟨hdeleted, -⟩
      · rw [hconflict] at hrefused
        cases hrefused
      · obtain ⟨record, hrecord, found, hfound, hid, -⟩ :=
          (exists_ref_iff hexact).mp (not_not.mp fun hnone => hne (refsForFile_eq_nil.mpr hnone))
        exact ⟨record, hrecord, found, hfound, hid⟩
      · rw [hconflict] at hdeleted
        cases hdeleted

end Requests

section Cover

/-- Ada uploads a cover and puts it on her album. -/
def coverRun : List Event :=
  [.record (.upload cover "coverUploadAda1"), .record (.save (.user "ada") adasAlbum)]

theorem exists_coverRun (path : String → String) :
    ∃ state : State, Run (When Careful (Step path)) (State.empty 0) coverRun state ∧
      (∃ record ∈ state.records, record.Names "coverUploadAda1") ∧
      (∃ row ∈ state.store.files.rows, row.id = "coverUploadAda1") ∧ state.store.refs = [] := by
  have hexec : ((Ownership.step (State.empty 0) (.upload cover "coverUploadAda1")).any fun mid =>
      (Ownership.step mid (.save (.user "ada") adasAlbum)).any fun state =>
        decide ((∃ record ∈ state.records, record.Names "coverUploadAda1") ∧
          (∃ row ∈ state.store.files.rows, row.id = "coverUploadAda1") ∧
          state.store.refs = [])) = true := by
    decide
  obtain ⟨mid, hmid, hexec⟩ := (Option.any_eq_true _ _).mp hexec
  obtain ⟨state, hstate, hexec⟩ := (Option.any_eq_true _ _).mp hexec
  exact ⟨state, .cons ⟨trivial, hmid⟩ (.cons ⟨trivial, hstate⟩ (.nil state)), of_decide_eq_true hexec⟩

/-- **The cover of an album is deleted under it.** -/
theorem guard_ignores_file_field :
    ¬ ∀ (path : String → String) (now : Int) (events : List Event) (state : State),
      Run (When Careful (Step path)) (State.empty now) events state → Guarded path state := by
  intro hall
  obtain ⟨state, hrun, ⟨record, hrecord, found, hfound, -, hid⟩, ⟨row, hrow, hrowId⟩, hrefs⟩ :=
    exists_coverRun id
  obtain ⟨request, hforce, hresolve, hdeleted⟩ :=
    exists_request id hrow (by simp [hrefs])
  exact (hall id 0 coverRun state hrun).protects request row.id hforce hresolve hdeleted record hrecord
    ⟨found, hfound, hid.trans hrowId.symm⟩

/-- After Ada's requests the guard depends on what embeds the cover. -/
theorem guarded_iff_cover : ∃ state : State,
    (∃ record ∈ state.records, record.Names "coverUploadAda1") ∧
      (Guarded id state ↔ OwnedEmbedded state) := by
  obtain ⟨state, hrun, hnames, -⟩ := exists_coverRun id
  exact ⟨state, hnames, guarded_iff hrun⟩

end Cover

end LazyPock.Guard
