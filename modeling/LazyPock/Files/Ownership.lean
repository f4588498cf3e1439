import LazyPock.Files.Reaper

/-!
# Who a file belongs to

A record owns the files that its file fields name. A row of `_files` says which record it is
attached to; `attach` writes that once, for an upload that is attached to no other record
(`crates/files/src/store.rs`). The routes that create or update a record attach its files in the
transaction of the write (`sync_files` of `crates/api/src/records.rs`), and so does a batch
(`crates/api/src/batch.rs`). A delete of a record through its route removes the rows attached to it
and the rows that the record names (`release_files`).

A hook's `$app.save` writes a record without attaching its files (`crates/api/src/hooks_host.rs`), so
the record may name a file of another record, and a delete of it removes that file.
`Ownership.secure_of_run` says that nothing else goes wrong, and `Ownership.app_save_takes_file` shows
the theft.

A delete request reads its record first, runs the hooks, and then removes the record and its files;
what it read may be old by then. A delete in a batch and `$app.delete` remove no file.

## Main definitions

* `Ownership.State`, `Ownership.Event`, `Ownership.step`.
* `Ownership.State.Secure`: files follow their record.
* `Ownership.Respectful`: the steps that keep to it.

## Main results

* `Ownership.secure_of_run`, `Ownership.app_save_takes_file`.
* `Ownership.sound_iff`: only such steps keep to it.
-/

namespace LazyPock.Ownership

open Text Machine Files List

/-! ### The system -/

/-- A record whose id `resolve_id` drew or accepted. -/
structure Record extends StoredRecord where
  valid : isValidId id = true

/-- The record names the file in a file field. -/
def Record.Names (record : Record) (id : String) : Prop :=
  ∃ found ∈ record.links, found.link = .owner ∧ found.id = id

instance (record : Record) (id : String) : Decidable (record.Names id) :=
  inferInstanceAs (Decidable (∃ found ∈ record.links, _))

/-- What a row says it is attached to. -/
def attachedTo (row : FileRow) : String × String := (row.collectionName, row.recordId)

/-- A delete request that has read its record. -/
structure Deletion where
  collection : Collection
  id : String
  existing : Option Record
  read_eq : ∀ record ∈ existing, record.collection = collection ∧ record.id = id

def Deletion.key (deletion : Deletion) : String × String := (deletion.collection.name, deletion.id)

/-- The media library, the records, the clock, and the delete requests under way. -/
structure State where
  store : Store
  records : List Record
  now : Int
  deletions : List Deletion

/-- A server without records or files. -/
def State.empty (now : Int) : State := ⟨⟨⟨[], nodup_nil⟩, []⟩, [], now, []⟩

/-- One request of a batch. -/
inductive BatchStep where
  /-- `POST` or `PATCH`. -/
  | save (record : Record)
  | delete (key : String × String)
  | get (key : String × String)

/-- What can happen. A request that the rules or the validation refuse changes nothing, so it does not
appear. -/
inductive Event where
  /-- An upload, or a reservation for one that goes to the storage directly. -/
  | upload (new : NewFile) (id : String)
  /-- The end of a direct upload: what arrived was measured. -/
  | complete (id : String) (size : Int) (mimeType : String)
  /-- A create or an update of a record through its route. -/
  | save (caller : Caller) (record : Record)
  /-- A delete through the route reads its record. -/
  | read (collection : Collection) (id : String)
  /-- A delete through the route removes the record. -/
  | delete (request : ℕ)
  /-- A delete through the route is refused or fails. -/
  | abandon (request : ℕ)
  | batch (caller : Caller) (steps : List BatchStep)
  /-- `$app.save` in a hook. -/
  | appSave (record : Record)
  /-- `$app.delete` in a hook. -/
  | appDelete (key : String × String)
  | wait (duration : ℕ)

/-- An upload names a record that exists, or no record. -/
def State.Accepts (state : State) (new : NewFile) : Prop :=
  new.recordId = "" ∨ (new.collectionName ≠ "" ∧
    ∃ record ∈ state.records, record.key = (new.collectionName, new.recordId))

instance (state : State) (new : NewFile) : Decidable (state.Accepts new) :=
  inferInstanceAs (Decidable (_ ∨ (_ ∧ ∃ record ∈ state.records, _)))

/-- Write a record over the one with its key. -/
def putRecord (records : List Record) (record : Record) : List Record :=
  record :: records.filter fun other => other.key ≠ record.key

/-- Remove the record with a key. -/
def dropRecord (records : List Record) (key : String × String) : List Record :=
  records.filter fun other => other.key ≠ key

/-- `execute`: one request of a batch, in the batch's transaction. -/
def execute (caller : Caller) (now : Int) (data : Store × List Record) :
    BatchStep → Result (Store × List Record)
  | .save record => do
    let store ← syncFiles data.1 record.collection record.document caller now
    return (store, putRecord data.2 record)
  | .delete key =>
    if data.2.any fun record => record.key = key then .ok (data.1, dropRecord data.2 key)
    else .error (.notFound ("no record " ++ debug key.2 ++ " in collection " ++ debug key.1))
  | .get key =>
    if data.2.any fun record => record.key = key then .ok data
    else .error (.notFound ("no record " ++ debug key.2 ++ " in collection " ++ debug key.1))

/-- `get_one` of a delete request. The schema stands still, so a record is read under the collection it
was written under. -/
def State.find (state : State) (collection : Collection) (id : String) : Option Record :=
  state.records.find? fun record => record.collection = collection ∧ record.id = id

theorem State.find_eq {state : State} {collection : Collection} {id : String} :
    ∀ record ∈ state.find collection id, record.collection = collection ∧ record.id = id :=
  fun _ h => by simpa using List.find?_some h

/-- One step. A write that is refused is rolled back. -/
@[grind =]
def step (state : State) : Event → Option State
  | .upload new id =>
    if state.Accepts new then
      (state.store.files.insert (new.row id state.now)).map fun files =>
        { state with store.files := files }
    else some state
  | .complete id size mimeType => some { state with
      store.files := state.store.files.update (fun row => row.id = id)
        (fun row => { row with size, mimeType }) fun _ => rfl }
  | .save caller record =>
    match syncFiles state.store record.collection record.document caller state.now with
    | .error _ => some state
    | .ok store => some { state with store, records := putRecord state.records record }
  | .read collection id => some { state with
      deletions := state.deletions ++ [⟨collection, id, state.find collection id, State.find_eq⟩] }
  | .delete request => (state.deletions[request]?).map fun deletion =>
      let records := dropRecord state.records deletion.key
      let deletions := state.deletions.eraseIdx request
      if state.records.any fun record => record.key = deletion.key then
        { state with
          store := releaseFiles state.store deletion.collection deletion.id
            (deletion.existing.map fun record => record.document)
          records, deletions }
      else { state with deletions }
  | .abandon request => some { state with deletions := state.deletions.eraseIdx request }
  | .batch caller steps =>
    match steps.foldlM (execute caller state.now) (state.store, state.records) with
    | .error _ => some state
    | .ok (store, records) => some { state with store, records }
  | .appSave record => some { state with records := putRecord state.records record }
  | .appDelete key => some { state with records := dropRecord state.records key }
  | .wait duration => some { state with now := state.now + duration }

/-- The steps as a relation. -/
def Step (state : State) (event : Event) (next : State) : Prop := step state event = some next

/-! ### Files that follow their record -/

/-- The rows that the record names are attached to it. -/
def Respects (files : FileTable) (record : Record) : Prop :=
  ∀ row ∈ files.rows, record.Names row.id → attachedTo row = record.key

instance (files : FileTable) (record : Record) : Decidable (Respects files record) :=
  inferInstanceAs (Decidable (∀ row ∈ files.rows, record.Names row.id → attachedTo row = record.key))

/-- What holds of a state and of any step that it can take. -/
structure State.Secure (state : State) : Prop where
  /-- The files that a live record names are attached to it. -/
  attached : ∀ record ∈ state.records, Respects state.store.files record
  /-- A row that is attached to a live record stays attached to it. -/
  stays : ∀ event next, Step state event next → ∀ record ∈ state.records,
    ∀ row ∈ state.store.files.rows, attachedTo row = record.key →
      ∀ row' ∈ next.store.files.rows, row'.id = row.id → attachedTo row' = record.key
  /-- Only the delete of a record removes a row, and only one that is attached to the record. -/
  released : ∀ event next, Step state event next → ∀ row ∈ state.store.files.rows,
    (∀ row' ∈ next.store.files.rows, row'.id ≠ row.id) → ∃ request deletion,
      event = .delete request ∧ state.deletions[request]? = some deletion ∧
        attachedTo row = deletion.key

/-- The live records, and those that a delete request has read. -/
def State.held (state : State) : List Record :=
  state.records ++ state.deletions.filterMap Deletion.existing

/-- The steps that leave every file with its record. -/
def Respectful (state : State) : Event → Prop
  -- A new id is random; no record names it before the upload exists.
  | .upload new id => state.Accepts new → ∀ record ∈ state.held, record.Names id →
    (new.collectionName, new.recordId) = record.key
  -- The hook names files of the record itself.
  | .appSave record => Respects state.store.files record
  | _ => True

instance (state : State) (event : Event) : Decidable (Respectful state event) :=
  match event with
  | .upload new id => inferInstanceAs (Decidable (state.Accepts new → ∀ record ∈ state.held,
      record.Names id → (new.collectionName, new.recordId) = record.key))
  | .appSave record => inferInstanceAs (Decidable (Respects state.store.files record))
  | .complete .. | .save .. | .read .. | .delete _ | .abandon _ | .batch .. | .appDelete _ | .wait _ =>
    inferInstanceAs (Decidable True)

/-- Every file stays with the record it belongs to, also while a delete request is under way. -/
def State.Sound (state : State) : Prop :=
  ∀ record ∈ state.held, Respects state.store.files record

/-- A table after some attachments: its rows are the rows that were there, and a row that was attached
is attached to the same record. -/
structure Settled (before after : FileTable) : Prop where
  ids : after.rows.map FileRow.id = before.rows.map FileRow.id
  stays : ∀ row' ∈ after.rows, ∃ row ∈ before.rows, row'.id = row.id ∧
    (row.recordId ≠ "" → attachedTo row' = attachedTo row)

section Settled

variable {a b c : FileTable} {record : Record}

theorem Record.id_ne_empty (record : Record) : record.id ≠ "" := by
  intro hid
  have hlen := byteLen_of_isValidId record.valid
  rw [hid] at hlen
  exact absurd hlen (by decide)

theorem Settled.refl (a : FileTable) : Settled a a :=
  ⟨rfl, fun row hrow => ⟨row, hrow, rfl, fun _ => rfl⟩⟩

theorem Settled.trans (hab : Settled a b) (hbc : Settled b c) : Settled a c := by
  refine ⟨hbc.ids.trans hab.ids, fun row'' hrow'' => ?_⟩
  obtain ⟨row', hrow', hid', hstays'⟩ := hbc.stays row'' hrow''
  obtain ⟨row, hrow, hid, hstays⟩ := hab.stays row' hrow'
  refine ⟨row, hrow, hid'.trans hid, fun hne => ?_⟩
  have hkey := hstays hne
  have hne' : row'.recordId ≠ "" := by
    rwa [show row'.recordId = row.recordId from congrArg Prod.snd hkey]
  exact (hstays' hne').trans hkey

/-- A row that is attached to a record stays with it. -/
theorem Settled.attached (hab : Settled a b) {row row' : FileRow} (hrow : row ∈ a.rows)
    (hrow' : row' ∈ b.rows) (hid : row'.id = row.id) (hkey : attachedTo row = record.key) :
    attachedTo row' = record.key := by
  obtain ⟨old, hold, hid', hstays⟩ := hab.stays row' hrow'
  obtain rfl := a.eq_of_id hold hrow (hid'.symm.trans hid)
  refine (hstays ?_).trans hkey
  rw [show old.recordId = record.id from congrArg Prod.snd hkey]
  exact record.id_ne_empty

theorem Settled.respects (hab : Settled a b) (h : Respects a record) : Respects b record := by
  intro row' hrow' hnames
  obtain ⟨row, hrow, hid, -⟩ := hab.stays row' hrow'
  exact hab.attached hrow hrow' hid (h row hrow (hid ▸ hnames))

theorem Settled.exists_id (hab : Settled a b) {row : FileRow} (hrow : row ∈ a.rows) :
    ∃ row' ∈ b.rows, row'.id = row.id :=
  mem_map.mp (hab.ids ▸ mem_map_of_mem hrow)

/-- An update that leaves the columns of the attachment alone. -/
theorem update_settled {p : FileRow → Bool} {assign : FileRow → FileRow}
    (hid : ∀ row, (assign row).id = row.id) (hkey : ∀ row, attachedTo (assign row) = attachedTo row) :
    Settled a (a.update p assign hid) := by
  refine ⟨FileTable.update_ids hid, fun row' hrow' => ?_⟩
  obtain ⟨row, hrow, rfl⟩ := mem_map.mp hrow'
  refine ⟨row, hrow, ?_, fun _ => ?_⟩
  · split_ifs
    · exact hid row
    · rfl
  · split_ifs
    · exact hkey row
    · rfl

end Settled

section Attach

variable {files after : FileTable} {id collection record field recordId : String} {caller : Caller}
  {now : Int}

/-- An attachment takes no row from another record. -/
theorem attach_settled {file : FileRow}
    (h : attach files id collection record field caller now = (after, .attached file)) :
    Settled files after ∧
      ∀ row ∈ after.rows, row.id = id → attachedTo row = (collection, record) := by
  obtain ⟨hids, row, hrow, hmatch, hafter⟩ := attach_cases h
  obtain ⟨-, hid, -, hfree⟩ := attachable_iff.mp hmatch
  refine ⟨⟨hids, fun row' hrow' => ?_⟩, fun row' hrow' hid' => ?_⟩
  · rcases hafter row' hrow' with rfl | ⟨hold, -⟩
    · refine ⟨row, hrow, rfl, fun hne => ?_⟩
      obtain ⟨hcollection, hrecord⟩ := hfree.resolve_left hne
      exact Prod.ext hcollection.symm hrecord.symm
    · exact ⟨row', hold, rfl, fun _ => rfl⟩
  · rcases hafter row' hrow' with rfl | ⟨-, hne⟩
    · rfl
    · exact absurd hid' hne

/-- **A record write through a route attaches what the record names**, and takes no file from another
record. -/
theorem syncFiles_settled {store next : Store} {record : Record}
    (h : syncFiles store record.collection record.document caller now = .ok next) :
    Settled store.files next.files ∧ Respects next.files record := by
  simp only [syncFiles, record.id_eq, Option.bind_some, Json.asStr] at h
  obtain ⟨⟨files, references⟩, hfold, h⟩ := bind_eq_ok.mp h
  obtain rfl := Except.ok.inj h
  have hlinks := foldlM_spec
    (R := fun before after => Settled before.1 after.1)
    (Q := fun found state => found.link = .owner → ∀ row ∈ state.1.rows, row.id = found.id →
      attachedTo row = record.key)
    (fun state => Settled.refl state.1) (fun _ _ _ => Settled.trans)
    (fun state found state' hlink => by
      rcases syncLink_cases hlink with ⟨href, rfl⟩ | ⟨-, rfl, hnone⟩ | ⟨-, -, file, hattach⟩
      · exact ⟨.refl _, fun howner => by rw [href] at howner; cases howner⟩
      · exact ⟨.refl _, fun _ row hrow hid => absurd hid (hnone row hrow)⟩
      · obtain ⟨hsettled, hkey⟩ := attach_settled hattach
        exact ⟨hsettled, fun _ => hkey⟩)
    (fun found state state' hkey hsettled howner row' hrow' hid => by
      obtain ⟨row, hrow, hid', -⟩ := hsettled.stays row' hrow'
      exact hsettled.attached hrow hrow' hid' (hkey howner row hrow (hid'.symm.trans hid)))
    hfold
  refine ⟨hlinks.1, ?_⟩
  rintro row hrow ⟨found, hfound, howner, hid⟩
  exact hlinks.2 found hfound howner row hrow hid.symm

end Attach

/-! ### What a step does -/

section Steps

variable {state next : State} {event : Event}

theorem mem_putRecord {records : List Record} {record other : Record}
    (h : other ∈ putRecord records record) : other = record ∨ other ∈ records := by
  rcases mem_cons.mp h with rfl | h
  · exact .inl rfl
  · exact .inr (mem_of_mem_filter h)

/-- What a part of a batch does: files stay with their records, and what a new record names is attached
to it. -/
structure Advances (before after : Store × List Record) : Prop where
  settled : Settled before.1.files after.1.files
  records : ∀ record ∈ after.2, record ∈ before.2 ∨ Respects after.1.files record

theorem Advances.trans {a b c : Store × List Record} (hab : Advances a b) (hbc : Advances b c) :
    Advances a c := by
  refine ⟨hab.settled.trans hbc.settled, fun record hrecord => ?_⟩
  rcases hbc.records record hrecord with hrecord | hrespects
  · exact (hab.records record hrecord).imp_right hbc.settled.respects
  · exact .inr hrespects

/-- A route's create or update of a record. -/
theorem advances_of_syncFiles {caller : Caller} {now : Int} {store after : Store}
    {records : List Record} {record : Record}
    (h : syncFiles store record.collection record.document caller now = .ok after) :
    Advances (store, records) (after, putRecord records record) := by
  obtain ⟨hsettled, hrespects⟩ := syncFiles_settled h
  refine ⟨hsettled, fun other hother => ?_⟩
  rcases mem_putRecord hother with rfl | hother
  · exact .inr hrespects
  · exact .inl hother

theorem advances_of_subset {store : Store} {records after : List Record}
    (h : ∀ record ∈ after, record ∈ records) : Advances (store, records) (store, after) :=
  ⟨.refl _, fun record hrecord => .inl (h record hrecord)⟩

theorem execute_advances {caller : Caller} {now : Int} {data data' : Store × List Record}
    {step : BatchStep} (h : execute caller now data step = .ok data') : Advances data data' := by
  cases step with
  | save record =>
    obtain ⟨store, hsync, hdata⟩ := bind_eq_ok.mp h
    obtain rfl := Except.ok.inj hdata
    exact advances_of_syncFiles hsync
  | delete key =>
    dsimp only [execute] at h
    split_ifs at h
    obtain rfl := Except.ok.inj h
    exact advances_of_subset fun record hrecord => mem_of_mem_filter hrecord
  | get key =>
    dsimp only [execute] at h
    split_ifs at h
    obtain rfl := Except.ok.inj h
    exact advances_of_subset fun record hrecord => hrecord

/-- A batch keeps files with their records, and attaches what its records name. -/
theorem foldlM_execute_advances {caller : Caller} {now : Int} {steps : List BatchStep}
    {data data' : Store × List Record} (h : steps.foldlM (execute caller now) data = .ok data') :
    Advances data data' :=
  (foldlM_spec (Q := fun _ _ => True) (fun _ => advances_of_subset fun _ hrecord => hrecord)
    (fun _ _ _ => Advances.trans) (fun _ _ _ hstep => ⟨execute_advances hstep, trivial⟩)
    (fun _ _ _ _ _ => trivial) h).1

/-- The rows that a delete of a record removes. -/
theorem mem_releaseFiles {store : Store} {row : FileRow} (deletion : Deletion)
    (hrow : row ∈ store.files.rows) :
    row ∈ (releaseFiles store deletion.collection deletion.id
      (deletion.existing.map fun record => record.document)).files.rows ∨
      attachedTo row = deletion.key ∨ ∃ record ∈ deletion.existing, record.Names row.id := by
  by_cases hkey : attachedTo row = deletion.key
  · exact .inr (.inl hkey)
  have hkept : (!(row.collectionName = deletion.collection.name && row.recordId = deletion.id)) =
      true := by
    simp only [Bool.not_eq_true', Bool.and_eq_false_iff, decide_eq_false_iff_not]
    exact not_and_or.mp fun h => hkey (Prod.ext h.1 h.2)
  cases hexisting : deletion.existing with
  | none => exact .inl (mem_filter.mpr ⟨hrow, hkept⟩)
  | some record =>
    by_cases hnames : record.Names row.id
    · exact .inr (.inr ⟨record, rfl, hnames⟩)
    refine .inl (mem_filter.mpr ⟨mem_filter.mpr ⟨hrow, hkept⟩, ?_⟩)
    simp only [Bool.not_eq_true', contains_eq_mem, decide_eq_false_iff_not, mem_map,
      mem_filter, decide_eq_true_eq, not_exists, not_and]
    rintro found ⟨hfound, howner⟩ hid
    refine hnames ⟨found, ?_, howner, hid⟩
    rw [← (deletion.read_eq record hexisting).1] at hfound
    exact hfound

theorem mem_held {record : Record} :
    record ∈ state.held ↔ record ∈ state.records ∨
      ∃ deletion ∈ state.deletions, deletion.existing = some record := by
  rw [State.held, mem_append, mem_filterMap]

/-- Fewer records, and fewer delete requests. -/
theorem held_subset (hrecords : ∀ record ∈ next.records, record ∈ state.records)
    (hdeletions : ∀ deletion ∈ next.deletions, deletion ∈ state.deletions) :
    ∀ record ∈ next.held, record ∈ state.held := by
  intro record hrecord
  rcases mem_held.mp hrecord with hrecord | ⟨deletion, hdeletion, hexisting⟩
  · exact mem_held.mpr (.inl (hrecords record hrecord))
  · exact mem_held.mpr (.inr ⟨deletion, hdeletions deletion hdeletion, hexisting⟩)

/-- A route's or a batch's write of records. -/
theorem held_of_advances {store : Store} {records : List Record}
    (h : Advances (state.store, state.records) (store, records)) :
    ∀ record ∈ { state with store, records }.held,
      record ∈ state.held ∨ Respects store.files record := by
  intro record hrecord
  rcases mem_held.mp hrecord with hrecord | hdeletion
  · exact (h.records record hrecord).imp_left fun hold => mem_held.mpr (.inl hold)
  · exact .inl (mem_held.mpr (.inr hdeletion))

/-- A step that leaves the files alone and stores no record. -/
theorem settled_of_same (hfiles : next.store.files = state.store.files)
    (hheld : ∀ record ∈ next.held, record ∈ state.held) :
    Settled state.store.files next.store.files ∧ ∀ record ∈ next.held,
      record ∈ state.held ∨ Respects next.store.files record ∨ event = .appSave record :=
  ⟨hfiles ▸ .refl _, fun record hrecord => .inl (hheld record hrecord)⟩

/-- **What a step can do**: an upload adds a row, the delete of a record releases its files, and any
other step leaves files with their records. Only `$app.save` stores a record whose files it did not
attach. -/
theorem step_cases (hstep : Step state event next) :
    (∃ new id, event = .upload new id ∧ state.Accepts new ∧
      (∀ row ∈ state.store.files.rows, row.id ≠ id) ∧
      next.store.files.rows = new.row id state.now :: state.store.files.rows ∧
      next.held = state.held) ∨
    (∃ request deletion, event = .delete request ∧ state.deletions[request]? = some deletion ∧
      next.store = releaseFiles state.store deletion.collection deletion.id
        (deletion.existing.map fun record => record.document) ∧
      ∀ record ∈ next.held, record ∈ state.held) ∨
    (Settled state.store.files next.store.files ∧ ∀ record ∈ next.held,
      record ∈ state.held ∨ Respects next.store.files record ∨ event = .appSave record) := by
  unfold Step Ownership.step at hstep
  cases event with
  | upload new id =>
    dsimp only at hstep
    split_ifs at hstep with haccepts
    · obtain ⟨files, hinsert, rfl⟩ := Option.map_eq_some_iff.mp hstep
      unfold FileTable.insert at hinsert
      split_ifs at hinsert with hfresh
      obtain rfl := Option.some.inj hinsert
      refine .inl ⟨new, id, rfl, haccepts, fun row hrow hid => hfresh ?_, rfl, rfl⟩
      exact mem_map.mpr ⟨row, hrow, hid⟩
    · obtain rfl := Option.some.inj hstep
      exact .inr (.inr (settled_of_same rfl fun record hrecord => hrecord))
  | complete id size mimeType =>
    obtain rfl := Option.some.inj hstep
    refine .inr (.inr ⟨update_settled (fun _ => ?_) fun _ => ?_, fun record hrecord => .inl hrecord⟩)
    · rfl
    · rfl
  | save caller record =>
    dsimp only at hstep
    split at hstep
    · obtain rfl := Option.some.inj hstep
      exact .inr (.inr (settled_of_same rfl fun record hrecord => hrecord))
    · rename_i store hsync
      obtain rfl := Option.some.inj hstep
      have hadvances : Advances (state.store, state.records)
          (store, putRecord state.records record) := advances_of_syncFiles hsync
      exact .inr (.inr ⟨hadvances.settled, fun record hrecord =>
        (held_of_advances hadvances record hrecord).imp_right .inl⟩)
  | read collection id =>
    obtain rfl := Option.some.inj hstep
    refine .inr (.inr ⟨.refl _, fun record hrecord => .inl ?_⟩)
    rcases mem_held.mp hrecord with hrecord | ⟨deletion, hdeletion, hexisting⟩
    · exact mem_held.mpr (.inl hrecord)
    · rcases mem_append.mp hdeletion with hdeletion | hnew
      · exact mem_held.mpr (.inr ⟨deletion, hdeletion, hexisting⟩)
      · obtain rfl := mem_singleton.mp hnew
        exact mem_held.mpr (.inl (mem_of_find?_eq_some hexisting))
  | delete request =>
    obtain ⟨deletion, hdeletion, hnext⟩ := Option.map_eq_some_iff.mp hstep
    dsimp only at hnext
    split_ifs at hnext
    · subst hnext
      exact .inr (.inl ⟨request, deletion, rfl, hdeletion, rfl, held_subset
        (fun record hrecord => mem_of_mem_filter hrecord)
        fun other hother => mem_of_mem_eraseIdx hother⟩)
    · subst hnext
      exact .inr (.inr (settled_of_same rfl (held_subset (fun record hrecord => hrecord)
        fun other hother => mem_of_mem_eraseIdx hother)))
  | abandon request =>
    obtain rfl := Option.some.inj hstep
    exact .inr (.inr (settled_of_same rfl (held_subset (fun record hrecord => hrecord)
      fun other hother => mem_of_mem_eraseIdx hother)))
  | batch caller steps =>
    dsimp only at hstep
    split at hstep
    · obtain rfl := Option.some.inj hstep
      exact .inr (.inr (settled_of_same rfl fun record hrecord => hrecord))
    · rename_i store records hsteps
      obtain rfl := Option.some.inj hstep
      have hadvances := foldlM_execute_advances hsteps
      exact .inr (.inr ⟨hadvances.settled, fun record hrecord =>
        (held_of_advances hadvances record hrecord).imp_right .inl⟩)
  | appSave record =>
    obtain rfl := Option.some.inj hstep
    refine .inr (.inr ⟨.refl _, fun other hother => ?_⟩)
    rcases mem_held.mp hother with hother | hdeletion
    · rcases mem_putRecord hother with rfl | hother
      · exact .inr (.inr rfl)
      · exact .inl (mem_held.mpr (.inl hother))
    · exact .inl (mem_held.mpr (.inr hdeletion))
  | appDelete key =>
    obtain rfl := Option.some.inj hstep
    exact .inr (.inr (settled_of_same rfl (held_subset
      (fun record hrecord => mem_of_mem_filter hrecord) fun other hother => hother)))
  | wait duration =>
    obtain rfl := Option.some.inj hstep
    exact .inr (.inr (settled_of_same rfl fun record hrecord => hrecord))

/-- A row that is attached to a record stays attached to it, whatever the step. -/
theorem attached_step (hstep : Step state event next) {record : Record} {row row' : FileRow}
    (hrow : row ∈ state.store.files.rows) (hkey : attachedTo row = record.key)
    (hrow' : row' ∈ next.store.files.rows) (hid : row'.id = row.id) :
    attachedTo row' = record.key := by
  rcases step_cases hstep with ⟨new, id, -, -, hfresh, hrows, -⟩ |
    ⟨request, deletion, -, -, hstore, -⟩ | ⟨hsettled, -⟩
  · rw [hrows] at hrow'
    rcases mem_cons.mp hrow' with rfl | hrow'
    · exact absurd hid.symm (hfresh row hrow)
    · rw [state.store.files.eq_of_id hrow' hrow hid, hkey]
  · rw [hstore] at hrow'
    rw [state.store.files.eq_of_id (mem_rows_releaseFiles hrow') hrow hid, hkey]
  · exact hsettled.attached hrow hrow' hid hkey

/-- A step removes rows of a record that it deletes only. -/
theorem released_step (hsound : state.Sound) (hstep : Step state event next) {row : FileRow}
    (hrow : row ∈ state.store.files.rows)
    (hgone : ∀ row' ∈ next.store.files.rows, row'.id ≠ row.id) :
    ∃ request deletion, event = .delete request ∧ state.deletions[request]? = some deletion ∧
      attachedTo row = deletion.key := by
  rcases step_cases hstep with ⟨new, id, -, -, -, hrows, -⟩ |
    ⟨request, deletion, hevent, hdeletion, hstore, -⟩ | ⟨hsettled, -⟩
  · exact absurd rfl (hgone row (hrows ▸ mem_cons_of_mem _ hrow))
  · refine ⟨request, deletion, hevent, hdeletion, ?_⟩
    rcases mem_releaseFiles deletion hrow with hkept | hkey | ⟨record, hexisting, hnames⟩
    · exact absurd rfl (hgone row (hstore ▸ hkept))
    · exact hkey
    · have hheld : record ∈ state.held :=
        mem_held.mpr (.inr ⟨deletion, mem_of_getElem? hdeletion, hexisting⟩)
      obtain ⟨hcollection, hid⟩ := deletion.read_eq record hexisting
      rw [hsound record hheld row hrow hnames, Deletion.key, ← hcollection, ← hid]
      rfl
  · obtain ⟨row', hrow', hid⟩ := hsettled.exists_id hrow
    exact absurd hid (hgone row' hrow')

/-- **The steps that leave every file with its record are the respectful ones.** -/
theorem sound_iff (hsound : state.Sound) (hstep : Step state event next) :
    next.Sound ↔ Respectful state event := by
  rcases step_cases hstep with ⟨new, id, rfl, haccepts, hfresh, hrows, hheld⟩ |
    ⟨request, deletion, rfl, -, hstore, hheld⟩ | ⟨hsettled, hheld⟩
  · constructor
    · intro hnext _ record hrecord hnames
      exact hnext record (hheld ▸ hrecord) (new.row id state.now) (hrows ▸ mem_cons_self) hnames
    · intro hrespectful record hrecord row hrow hnames
      rw [hheld] at hrecord
      rcases mem_cons.mp (hrows ▸ hrow) with rfl | hrow
      · exact hrespectful haccepts record hrecord hnames
      · exact hsound record hrecord row hrow hnames
  · refine iff_of_true (fun record hrecord row hrow hnames => ?_) trivial
    exact hsound record (hheld record hrecord) row (mem_rows_releaseFiles (hstore ▸ hrow)) hnames
  · constructor
    · intro hnext
      cases event with
      | appSave record =>
        obtain rfl := Option.some.inj hstep
        exact hnext record (mem_held.mpr (.inl mem_cons_self))
      | upload new id =>
        -- An accepted upload adds a row.
        intro haccepts
        simp only [Step, Ownership.step, if_pos haccepts] at hstep
        obtain ⟨files, hinsert, rfl⟩ := Option.map_eq_some_iff.mp hstep
        unfold FileTable.insert at hinsert
        split_ifs at hinsert
        obtain rfl := Option.some.inj hinsert
        exact absurd (congrArg List.length hsettled.ids) (by simp)
      | _ => trivial
    · intro hrespectful record hrecord
      rcases hheld record hrecord with hrecord | hrespects | rfl
      · exact hsettled.respects (hsound record hrecord)
      · exact hrespects
      · exact hsettled.respects hrespectful

end Steps

/-! ### Runs -/

theorem sound_empty (now : Int) : (State.empty now).Sound :=
  fun _ h => by simp [State.held, State.empty] at h

theorem State.Sound.secure {state : State} (hsound : state.Sound) : state.Secure where
  attached record hrecord := hsound record (mem_held.mpr (.inl hrecord))
  stays _ _ hstep _ _ _ hrow hkey _ hrow' hid := attached_step hstep hrow hkey hrow' hid
  released _ _ hstep _ hrow hgone := released_step hsound hstep hrow hgone

/-- **In a run of respectful steps files follow their record**: the files that a live record names are
attached to it and stay so, and the delete of a record removes no file of another one. The next step
keeps to it exactly when it is respectful. -/
theorem secure_of_run {now : Int} {events : List Event} {state : State}
    (hrun : Run (When Respectful Step) (State.empty now) events state) :
    state.Secure ∧ ∀ event next, Step state event next → (next.Sound ↔ Respectful state event) := by
  have hsound : state.Sound :=
    hrun.invariant (I := State.Sound) (fun _ _ _ h hstep => (sound_iff h hstep.2).mpr hstep.1)
      (sound_empty now)
  exact ⟨hsound.secure, fun event next hstep => sound_iff hsound hstep⟩

section Theft

/-- A collection with a file field. -/
def albums : Collection where
  id := "albums"
  name := "albums"
  collectionType := .base
  options := .object []
  rules := .object []
  fields := [⟨"f1", "albums", "cover", .file, false, false, .object [], 0⟩]

/-- An album whose cover is the upload. -/
def album (id : String) (hvalid : isValidId id = true) : Record where
  collection := albums
  id := id
  document := .object [("cover", .string "coverUploadAda1"), ("id", .string id)]
  id_eq := rfl
  valid := hvalid

def adasAlbum : Record := album "recordOfAdaLove" (by decide)

def mallorysAlbum : Record := album "recordOfMallory" (by decide)

def cover : NewFile := ⟨"image/png", 10, "local", "", "", "", .field, "ada"⟩

/-- Ada uploads a cover and puts it on her album; a hook saves another album with the same cover, and
somebody deletes that one. -/
def theftRun : List Event :=
  [.upload cover "coverUploadAda1", .save (.user "ada") adasAlbum, .appSave mallorysAlbum,
    .read albums "recordOfMallory"]

/-- **A record that a hook saved takes a file of another record with it.** -/
theorem app_save_takes_file :
    ¬ ∀ (now : Int) (events : List Event) (state : State),
      Run Step (State.empty now) events state → state.Secure := by
  intro hall
  have hexec : ((exec step (State.empty 0) theftRun).any fun state =>
      (step state (.delete 0)).any fun next => state.store.files.rows.any fun row =>
        (next.store.files.rows.all fun row' => row'.id ≠ row.id) &&
          (state.deletions[0]?).all fun deletion => attachedTo row ≠ deletion.key) = true := by
    decide
  obtain ⟨state, hstate, hexec⟩ := (Option.any_eq_true _ _).mp hexec
  obtain ⟨next, hnext, hexec⟩ := (Option.any_eq_true _ _).mp hexec
  obtain ⟨row, hrow, hexec⟩ := any_eq_true.mp hexec
  obtain ⟨hgone, hkey⟩ := (Bool.and_eq_true _ _).mp hexec
  obtain ⟨request, deletion, hevent, hdeletion, hattached⟩ :=
    (hall 0 theftRun state (run_of_exec hstate)).released _ next hnext row hrow
      fun row' hrow' => of_decide_eq_true (all_eq_true.mp hgone row' hrow')
  obtain rfl := Event.delete.inj hevent
  rw [hdeletion] at hkey
  exact of_decide_eq_true hkey hattached

/-- Ada's cover stays with her album until she deletes it. -/
theorem cover_follows_album :
    ∃ state : State, (∃ row ∈ state.store.files.rows, attachedTo row = adasAlbum.key) ∧
      state.Secure ∧ ∀ event next, Step state event next → (next.Sound ↔ Respectful state event) := by
  have hexec : ((exec (fun state event =>
      if Respectful state event then step state event else none) (State.empty 0)
      [.upload cover "coverUploadAda1", .save (.user "ada") adasAlbum,
        .read albums "recordOfAdaLove"]).any fun state =>
      state.store.files.rows.any fun row => attachedTo row = adasAlbum.key) = true := by
    decide
  obtain ⟨state, hstate, hrows⟩ := (Option.any_eq_true _ _).mp hexec
  obtain ⟨row, hrow, hkey⟩ := any_eq_true.mp hrows
  exact ⟨state, ⟨row, hrow, of_decide_eq_true hkey⟩, secure_of_run (run_of_exec_when hstate)⟩

end Theft

end LazyPock.Ownership
