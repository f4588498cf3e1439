import LazyPock.Files.Direct

/-!
# The limits of a file field

A file field limits the size and the types of its files (`check_file_policy` of
`crates/api/src/files.rs`). The limits are checked where a file is attached: when an upload through the
server names its record and field, and when a record write names the file. A file that goes to the
storage directly may be attached before its bytes are measured: `presign` inserts an attached row
without looking at the field, and a record write checks what the client claimed. `complete` then writes
what it measured into the row, and does not look at the field either.

`Limits.limited_of_run` says that this is all that can go wrong.

## Main definitions

* `Limits.WithinLimits`: a row meets the limits of the field it is attached to.
* `Limits.State.Limited`: so do all measured rows of live records.

## Main results

* `Limits.syncFiles_checked`: a record write checks what it attaches.
* `Limits.sound_step_iff`, `Limits.limited_of_run`.
* `Limits.complete_exceeds_limit`.
-/

namespace LazyPock.Limits

open Text Machine Files Direct
open Ownership (attachedTo Record BatchStep mem_held held_subset mem_putRecord execute)

variable (deployment : Deployment)

/-- The row meets the limits of the file field that it names, in the schema. -/
def WithinLimits (row : FileRow) : Prop :=
  ∀ collection ∈ deployment.schema.collections, collection.name = row.collectionName →
    ∀ field, collection.fields.find? (fun field => field.name = row.fieldName) = some field →
      field.fieldType = .file → checkFilePolicy field row.size row.mimeType = .ok ()

/-- Every measured file that is attached to a file field of a live record meets the field's limits. -/
def Limited (state : Direct.State) : Prop :=
  ∀ row ∈ state.store.files.rows, row.id ∈ state.completed →
    ∀ record ∈ state.records, attachedTo row = record.key →
      ∀ field, record.collection.fields.find? (fun field => field.name = row.fieldName) =
          some field →
        field.fieldType = .file → checkFilePolicy field row.size row.mimeType = .ok ()

/-- A row that is attached to no record, or meets the limits of its field. -/
def Fits (row : FileRow) : Prop := row.recordId ≠ "" → WithinLimits deployment row

/-- What holds along careful runs: every measured row fits, and records are of the schema. -/
structure Sound (state : Direct.State) : Prop where
  fits : ∀ row ∈ state.store.files.rows, row.id ∈ state.completed → Fits deployment row
  schema : ∀ record ∈ state.held, record.collection ∈ deployment.schema.collections

/-- The steps that keep to the limits: what is measured fits where it is attached. -/
def Careful (state : Direct.State) : Direct.Event → Prop
  | .complete userId id => ∀ object format, measure deployment state userId id = .ok (object, format) →
    ∀ row ∈ state.store.files.rows, row.id = id →
      Fits deployment { row with size := object.body.length, mimeType := format.contentType }
  | _ => True

/-- What a record write leaves: a row fits as it did before, or its limits were checked. -/
def Checked (before after : FileTable) : Prop :=
  ∀ row' ∈ after.rows, ∃ row ∈ before.rows, row'.id = row.id ∧
    (Fits deployment row → Fits deployment row')

/-! ### Record writes -/

section Records

variable {deployment} {files after : FileTable} {collection : Collection} {recordId : String}
  {caller : Caller} {now : Int}

theorem Checked.refl (files : FileTable) : Checked deployment files files :=
  fun row hrow => ⟨row, hrow, rfl, fun hfits => hfits⟩

theorem Checked.trans {a b c : FileTable} (hab : Checked deployment a b)
    (hbc : Checked deployment b c) : Checked deployment a c := by
  intro row'' hrow''
  obtain ⟨row', hrow', hid', hfits'⟩ := hbc row'' hrow''
  obtain ⟨row, hrow, hid, hfits⟩ := hab row' hrow'
  exact ⟨row, hrow, hid'.trans hid, fun h => hfits' (hfits h)⟩

theorem Checked.of_subset (h : ∀ row ∈ after.rows, row ∈ files.rows) :
    Checked deployment files after :=
  fun row hrow => ⟨row, h row hrow, rfl, fun hfits => hfits⟩

/-- The collections of the schema have different names. -/
theorem eq_of_name {other : Collection} (h : collection ∈ deployment.schema.collections)
    (hother : other ∈ deployment.schema.collections) (hname : other.name = collection.name) :
    other = collection :=
  List.inj_on_of_nodup_map deployment.names hother h hname

/-- The row that is attached is the one that is answered. -/
theorem attach_file {id record field name : String} {file : FileRow}
    (h : attach files id name record field caller now = (after, .attached file)) :
    (∃ row ∈ files.rows, row.id = file.id) ∧ file.collectionName = name ∧ file.fieldName = field ∧
      ∀ row' ∈ after.rows, row' = file ∨ row' ∈ files.rows := by
  obtain ⟨-, row, hrow, hmatch, hafter⟩ := attach_cases h
  have hfile : file = row.attachTo name record field now := by
    unfold attach at h
    split at h
    · rename_i found hfound
      obtain ⟨-, hattached⟩ := Prod.mk.inj h
      have hid : found.id = row.id :=
        (attachable_iff.mp (List.find?_some hfound)).2.1.trans (attachable_iff.mp hmatch).2.1.symm
      rw [← Attach.attached.inj hattached,
        files.eq_of_id (List.mem_of_find?_eq_some hfound) hrow hid]
    · split at h
      · exact absurd (Prod.mk.inj h).2 (by simp)
      · split at h
        · split_ifs at h
          · exact absurd (Prod.mk.inj h).2 (by simp)
          · exact absurd (Prod.mk.inj h).2 (by simp)
        · exact absurd (Prod.mk.inj h).2 (by simp)
  rw [hfile]
  exact ⟨⟨row, hrow, rfl⟩, rfl, rfl, fun row' hrow' => (hafter row' hrow').imp_right And.left⟩

/-- An attached file passed the checks of its field. -/
theorem syncLink_policy {state next : FileTable × List (String × String)} {found : FoundFile}
    {file : FileRow} (h : syncLink collection recordId caller now state found = .ok next)
    (howner : found.link = .owner)
    (hattach : attach state.1 found.id collection.name recordId found.field caller now =
      (next.1, .attached file)) {field : Field}
    (hfield : collection.fields.find? (fun field => field.name = found.field) = some field) :
    checkFilePolicy field file.size file.mimeType = .ok () := by
  unfold syncLink at h
  simp only [howner, hattach, hfield] at h
  obtain ⟨_, hpolicy, -⟩ := bind_eq_ok.mp h
  exact hpolicy

/-- One link of a record write. -/
theorem checked_of_syncLink (hcollection : collection ∈ deployment.schema.collections)
    {state next : FileTable × List (String × String)} {found : FoundFile}
    (h : syncLink collection recordId caller now state found = .ok next) :
    Checked deployment state.1 next.1 := by
  rcases syncLink_cases h with ⟨-, rfl⟩ | ⟨-, rfl, -⟩ | ⟨howner, -, file, hattach⟩
  · exact .refl _
  · exact .refl _
  · obtain ⟨⟨row, hrow, hid⟩, hname, hfield, hafter⟩ := attach_file hattach
    intro row' hrow'
    rcases hafter row' hrow' with rfl | hold
    · refine ⟨row, hrow, hid.symm, fun _ _ other hother hotherName field hfind hfile => ?_⟩
      obtain rfl := eq_of_name hcollection hother (hotherName.trans hname)
      rw [hfield] at hfind
      exact syncLink_policy h howner hattach hfind
    · exact ⟨row', hold, rfl, fun hfits => hfits⟩

/-- **A record write checks what it attaches.** -/
theorem syncFiles_checked {store next : Store} {record : Record}
    (hcollection : record.collection ∈ deployment.schema.collections)
    (h : syncFiles store record.collection record.document caller now = .ok next) :
    Checked deployment store.files next.files := by
  simp only [syncFiles, record.id_eq, Option.bind_some, Json.asStr] at h
  obtain ⟨⟨files, references⟩, hfold, h⟩ := bind_eq_ok.mp h
  obtain rfl := Except.ok.inj h
  exact (foldlM_spec (R := fun before after => Checked deployment before.1 after.1)
    (Q := fun _ _ => True) (fun state => .refl state.1) (fun _ _ _ => .trans)
    (fun _ _ _ hlink => ⟨checked_of_syncLink hcollection hlink, trivial⟩)
    (fun _ _ _ _ _ => trivial) hfold).1

/-- A batch checks what its writes attach. -/
theorem checked_of_batch {steps : List BatchStep} {data data' : Store × List Record}
    (hschema : ∀ record ∈ data.2 ++ Guard.saved steps,
      record.collection ∈ deployment.schema.collections)
    (h : steps.foldlM (execute caller now) data = .ok data') :
    Checked deployment data.1.files data'.1.files ∧
      ∀ record ∈ data'.2, record.collection ∈ deployment.schema.collections := by
  induction steps generalizing data with
  | nil =>
    obtain rfl := Except.ok.inj h
    exact ⟨.refl _, fun record hrecord => hschema record (List.mem_append_left _ hrecord)⟩
  | cons step steps ih =>
    obtain ⟨mid, hstep, hrest⟩ := bind_eq_ok.mp h
    have hold : ∀ record ∈ data.2, record.collection ∈ deployment.schema.collections :=
      fun record hrecord => hschema record (List.mem_append_left _ hrecord)
    have hlater : ∀ record ∈ Guard.saved steps,
        record.collection ∈ deployment.schema.collections := fun record hrecord =>
      hschema record (List.mem_append_right _
        (Guard.mem_saved.mpr (List.mem_cons_of_mem _ (Guard.mem_saved.mp hrecord))))
    have hmid : Checked deployment data.1.files mid.1.files ∧
        ∀ record ∈ mid.2, record.collection ∈ deployment.schema.collections := by
      cases step with
      | save record =>
        obtain ⟨store, hsync, hdata⟩ := bind_eq_ok.mp hstep
        obtain rfl := Except.ok.inj hdata
        have hrecord := hschema record
          (List.mem_append_right _ (Guard.mem_saved.mpr List.mem_cons_self))
        refine ⟨syncFiles_checked hrecord hsync, fun other hother => ?_⟩
        rcases mem_putRecord hother with rfl | hother
        · exact hrecord
        · exact hold other hother
      | delete key =>
        dsimp only [execute] at hstep
        split_ifs at hstep
        obtain rfl := Except.ok.inj hstep
        exact ⟨.refl _, fun other hother => hold other (List.mem_of_mem_filter hother)⟩
      | get key =>
        dsimp only [execute] at hstep
        split_ifs at hstep
        obtain rfl := Except.ok.inj hstep
        exact ⟨.refl _, hold⟩
    obtain ⟨hchecked, hrecords⟩ := ih (fun record hrecord =>
      (List.mem_append.mp hrecord).elim (hmid.2 record) (hlater record)) hrest
    exact ⟨hmid.1.trans hchecked, hrecords⟩

/-- A step of the records checks what it attaches, and stores records of the schema. -/
theorem checked_of_step {state next : Ownership.State} {event : Ownership.Event}
    (hschema : ∀ record ∈ state.held, record.collection ∈ deployment.schema.collections)
    (hevent : inSchema deployment event = true) (hstep : Ownership.Step state event next) :
    Checked deployment state.store.files next.store.files ∧
      ∀ record ∈ next.held, record.collection ∈ deployment.schema.collections := by
  have hlive : ∀ record ∈ state.records, record.collection ∈ deployment.schema.collections :=
    fun record hrecord => hschema record (mem_held.mpr (.inl hrecord))
  have hpending : ∀ deletion ∈ state.deletions, ∀ record, deletion.existing = some record →
      record.collection ∈ deployment.schema.collections := fun deletion hdeletion record hexisting =>
    hschema record (mem_held.mpr (.inr ⟨deletion, hdeletion, hexisting⟩))
  unfold Ownership.Step Ownership.step at hstep
  cases event with
  | upload new id => cases hevent
  | complete id size mimeType => cases hevent
  | save caller record =>
    dsimp only at hstep
    split at hstep
    · obtain rfl := Option.some.inj hstep
      exact ⟨.refl _, hschema⟩
    · rename_i store hsync
      obtain rfl := Option.some.inj hstep
      have hrecord := of_decide_eq_true hevent
      refine ⟨syncFiles_checked hrecord hsync, fun other hother => ?_⟩
      rcases mem_held.mp hother with hother | ⟨deletion, hdeletion, hexisting⟩
      · rcases mem_putRecord hother with rfl | hother
        · exact hrecord
        · exact hlive other hother
      · exact hpending deletion hdeletion other hexisting
  | read collection id =>
    obtain rfl := Option.some.inj hstep
    refine ⟨.refl _, fun record hrecord => ?_⟩
    rcases mem_held.mp hrecord with hrecord | ⟨deletion, hdeletion, hexisting⟩
    · exact hlive record hrecord
    · rcases List.mem_append.mp hdeletion with hdeletion | hnew
      · exact hpending deletion hdeletion record hexisting
      · obtain rfl := List.mem_singleton.mp hnew
        exact hlive record (List.mem_of_find?_eq_some hexisting)
  | delete request =>
    obtain ⟨deletion, -, hnext⟩ := Option.map_eq_some_iff.mp hstep
    dsimp only at hnext
    split_ifs at hnext
    · subst hnext
      refine ⟨.of_subset fun row hrow => mem_rows_releaseFiles hrow, fun record hrecord =>
        hschema record (held_subset ?_ ?_ record hrecord)⟩
      · exact fun other hother => List.mem_of_mem_filter hother
      · exact fun other hother => List.mem_of_mem_eraseIdx hother
    · subst hnext
      refine ⟨.refl _, fun record hrecord => hschema record (held_subset ?_ ?_ record hrecord)⟩
      · exact fun other hother => hother
      · exact fun other hother => List.mem_of_mem_eraseIdx hother
  | abandon request =>
    obtain rfl := Option.some.inj hstep
    refine ⟨.refl _, fun record hrecord => hschema record (held_subset ?_ ?_ record hrecord)⟩
    · exact fun other hother => hother
    · exact fun other hother => List.mem_of_mem_eraseIdx hother
  | batch caller steps =>
    dsimp only at hstep
    split at hstep
    · obtain rfl := Option.some.inj hstep
      exact ⟨.refl _, hschema⟩
    · rename_i store records hsteps
      obtain rfl := Option.some.inj hstep
      obtain ⟨hchecked, hrecords⟩ := checked_of_batch (fun record hrecord =>
        (List.mem_append.mp hrecord).elim (hlive record) fun hsaved =>
          of_decide_eq_true (List.all_eq_true.mp hevent record hsaved)) hsteps
      refine ⟨hchecked, fun record hrecord => ?_⟩
      rcases mem_held.mp hrecord with hrecord | ⟨deletion, hdeletion, hexisting⟩
      · exact hrecords record hrecord
      · exact hpending deletion hdeletion record hexisting
  | appSave record =>
    obtain rfl := Option.some.inj hstep
    refine ⟨.refl _, fun other hother => ?_⟩
    rcases mem_held.mp hother with hother | ⟨deletion, hdeletion, hexisting⟩
    · rcases mem_putRecord hother with rfl | hother
      · exact of_decide_eq_true hevent
      · exact hlive other hother
    · exact hpending deletion hdeletion other hexisting
  | appDelete key =>
    obtain rfl := Option.some.inj hstep
    refine ⟨.refl _, fun record hrecord => hschema record (held_subset ?_ ?_ record hrecord)⟩
    · exact fun other hother => List.mem_of_mem_filter hother
    · exact fun other hother => hother
  | wait duration =>
    obtain rfl := Option.some.inj hstep
    exact ⟨.refl _, hschema⟩

end Records

/-! ### Uploads -/

section Steps

variable {deployment} {state next : Direct.State} {event : Direct.Event}

theorem get_of_name {collection : Collection} (h : collection ∈ deployment.schema.collections) :
    deployment.schema.get collection.name = some collection := by
  have hlast : deployment.schema.last (fun other => other.name = collection.name) =
      some collection := by
    cases hfind : deployment.schema.last fun other => other.name = collection.name with
    | none =>
      have hnone := List.find?_eq_none.mp hfind collection (List.mem_reverse.mpr h)
      simp at hnone
    | some other =>
      have hmem := List.mem_reverse.mp (List.mem_of_find?_eq_some hfind)
      rw [eq_of_name h hmem (by simpa using List.find?_some hfind)]
  rw [Schema.get, hlast, Option.some_or]

/-- An upload through the server is checked before it is stored. -/
theorem fits_of_acceptUpload {request : UploadRequest} {random key id : String} {object : Object}
    {new : NewFile} (h : acceptUpload deployment state request random = .ok (key, object, new)) :
    Fits deployment (new.row id state.now) := by
  obtain ⟨_, -, h⟩ := bind_eq_ok.mp h
  obtain ⟨_, hplace, h⟩ := bind_eq_ok.mp h
  obtain ⟨_, -, h⟩ := bind_eq_ok.mp h
  obtain ⟨format, -, h⟩ := bind_eq_ok.mp h
  obtain ⟨_, hpolicy, h⟩ := bind_eq_ok.mp h
  obtain ⟨-, hrest⟩ := Prod.mk.inj (Except.ok.inj h)
  obtain ⟨-, rfl⟩ := Prod.mk.inj hrest
  intro hattached collection hcollection hname field hfind hfile
  have hfield : request.place.field deployment = some field := by
    have hnonempty : trim request.place.collection ≠ "" := by
      intro hempty
      obtain ⟨_, -, hplace⟩ := bind_eq_ok.mp hplace
      obtain ⟨_, hplace, -⟩ := bind_eq_ok.mp hplace
      exact failIf_eq_ok.mp hplace ⟨hattached, hempty⟩
    have hnamed : request.place.fieldName ≠ "" := by
      have hfound := List.find?_some hfind
      rw [decide_eq_true_eq] at hfound
      change field.name = request.place.fieldName at hfound
      rw [← hfound]
      exact deployment.fieldNames collection hcollection field (List.mem_of_find?_eq_some hfind)
    have hget : deployment.schema.get (trim request.place.collection) = some collection :=
      (congrArg deployment.schema.get hname.symm).trans (get_of_name hcollection)
    rw [Place.field, if_neg (not_or.mpr ⟨hnonempty, hnamed⟩), hget]
    exact hfind
  rw [hfield] at hpolicy
  exact hpolicy

/-- Storing a row leaves the records, and those of the deletions that are under way. -/
theorem held_of_insertRow {new : NewFile} {id key : String}
    (h : state.insertRow new id key = some next) : next.held = state.held := by
  obtain ⟨files, -, rfl⟩ := Option.map_eq_some_iff.mp h
  rfl

/-- **A step keeps measured files within their limits exactly when it is careful.** -/
theorem sound_step_iff (h : Sound deployment state)
    (hstep : Direct.Step deployment state event next) :
    Sound deployment next ↔ Careful deployment state event := by
  unfold Direct.Step Direct.step at hstep
  cases event with
  | upload request id random =>
    refine iff_of_true ?_ trivial
    dsimp only at hstep
    split at hstep
    · obtain rfl := Option.some.inj hstep
      exact h
    · rename_i key object new haccept
      obtain ⟨mid, hinsert, rfl⟩ := Option.map_eq_some_iff.mp hstep
      obtain ⟨hfresh, hrows, -, -, -, hcompleted, -⟩ := insertRow_cases hinsert
      refine ⟨fun row hrow hmeasured => ?_, held_of_insertRow hinsert ▸ h.schema⟩
      rcases List.mem_cons.mp (hrows ▸ hrow) with rfl | hrow
      · exact fits_of_acceptUpload haccept
      · refine h.fits row hrow ?_
        exact hcompleted ▸ (List.mem_cons.mp hmeasured).resolve_left (hfresh row hrow)
  | presign request id random =>
    refine iff_of_true ?_ trivial
    dsimp only at hstep
    split at hstep
    · obtain rfl := Option.some.inj hstep
      exact h
    · rename_i key new haccept
      split at hstep
      · obtain rfl := Option.some.inj hstep
        exact h
      · obtain ⟨mid, hinsert, rfl⟩ := Option.map_eq_some_iff.mp hstep
        obtain ⟨-, hrows, -, -, -, hcompleted, -⟩ := insertRow_cases hinsert
        refine ⟨fun row hrow hmeasured => ?_, held_of_insertRow hinsert ▸ h.schema⟩
        obtain ⟨hmeasured, hother⟩ := List.mem_filter.mp hmeasured
        rcases List.mem_cons.mp (hrows ▸ hrow) with rfl | hrow
        · exact absurd rfl (of_decide_eq_true hother)
        · exact h.fits row hrow (hcompleted ▸ hmeasured)
  | put key object =>
    refine iff_of_true ?_ trivial
    dsimp only at hstep
    split_ifs at hstep
    · obtain rfl := Option.some.inj hstep
      exact ⟨h.fits, h.schema⟩
    · obtain rfl := Option.some.inj hstep
      exact h
  | complete userId id =>
    dsimp only at hstep
    split at hstep
    · rename_i e hrefused
      obtain rfl := Option.some.inj hstep
      refine iff_of_true h fun object format hmeasure => ?_
      rw [hrefused] at hmeasure
      cases hmeasure
    · rename_i object format hmeasure
      obtain rfl := Option.some.inj hstep
      constructor
      · intro hnext object' format' hmeasure' row hrow hid
        obtain ⟨rfl, rfl⟩ := Prod.mk.inj (Except.ok.inj (hmeasure'.symm.trans hmeasure))
        exact hnext.fits _ (List.mem_map.mpr ⟨row, hrow, if_pos (decide_eq_true hid)⟩)
          (hid ▸ List.mem_cons_self)
      · intro hcareful
        refine ⟨fun row' hrow' hmeasured => ?_, h.schema⟩
        obtain ⟨row, hrow, rfl⟩ := List.mem_map.mp hrow'
        split_ifs at hmeasured ⊢ with hid
        · exact hcareful object format hmeasure row hrow (of_decide_eq_true hid)
        · exact h.fits row hrow
            ((List.mem_cons.mp hmeasured).resolve_left fun heq => hid (decide_eq_true heq))
  | record recordEvent =>
    refine iff_of_true ?_ trivial
    dsimp only at hstep
    split_ifs at hstep with hevent
    obtain ⟨after, hafter, rfl⟩ := Option.map_eq_some_iff.mp hstep
    obtain ⟨hchecked, hschema⟩ := checked_of_step h.schema hevent hafter
    refine ⟨fun row' hrow' hmeasured => ?_, hschema⟩
    obtain ⟨row, hrow, hid, hfits⟩ := hchecked row' hrow'
    exact hfits (h.fits row hrow (hid ▸ hmeasured))
  | dropRow id =>
    refine iff_of_true ?_ trivial
    obtain rfl := Option.some.inj hstep
    exact ⟨fun row hrow => h.fits row (mem_rows_delete hrow), h.schema⟩
  | dropObject key =>
    refine iff_of_true ?_ trivial
    obtain rfl := Option.some.inj hstep
    exact ⟨h.fits, h.schema⟩

/-- Rows that fit are within the limits of live records' fields. -/
theorem Sound.limited (h : Sound deployment state) : Limited state := by
  intro row hrow hmeasured record hrecord hattached field hfind hfile
  obtain ⟨hname, hid⟩ := Prod.mk.inj hattached
  exact h.fits row hrow hmeasured (hid ▸ record.id_ne_empty) record.collection
    (h.schema record (mem_held.mpr (.inl hrecord))) hname.symm field hfind hfile

/-- **In a run of careful steps every measured file meets the limits of its field**, and the next step
keeps it so exactly when it is careful. -/
theorem limited_of_run {now : Int} {events : List Direct.Event}
    (hrun : Run (When (Careful deployment) (Direct.Step deployment)) (Direct.State.empty now) events
      state) :
    Limited state ∧ ∀ event next, Direct.Step deployment state event next →
      (Sound deployment next ↔ Careful deployment state event) := by
  have hsound : Sound deployment state :=
    hrun.invariant (I := Sound deployment)
      (fun _ _ _ h hstep => (sound_step_iff h hstep.2).mpr hstep.1)
      ⟨fun row hrow => by simp [Direct.State.empty, Ownership.State.empty] at hrow,
        fun record hrecord => by
          simp [Direct.State.empty, Ownership.State.empty, Ownership.State.held] at hrecord⟩
  exact ⟨hsound.limited, fun event next hstep => sound_step_iff hsound hstep⟩

end Steps

/-! ### A picture that grows -/

section Growing

/-- A collection whose file field takes files of 29 bytes. -/
def stamps : Collection where
  id := "stamps"
  name := "stamps"
  collectionType := .base
  options := .object []
  rules := .object []
  fields := [⟨"f1", "stamps", "scan", .file, false, false,
    .object [("maxSize", .number (.posInt 29))], 0⟩]

/-- A server with the collection that keeps its files in a bucket. -/
def stampAlbum : Deployment where
  backend := .s3Storage
  limits := .default
  keyPrefix := ""
  schema := ⟨[stamps]⟩
  names := List.nodup_singleton _
  fieldNames := by simp [stamps]

/-- A stamp without a scan. -/
def blackPenny : Record where
  collection := stamps
  id := "recordOfPennies"
  document := .object [("id", .string "recordOfPennies")]
  id_eq := rfl
  valid := by decide

def scanKey : String := "stamps/recordOfPennies/randomOfAdaLove_photo.png"

def larger : Object := ⟨"image/png", photo.body ++ [0]⟩

/-- Ada says that her scan has 29 bytes, and sends an object. -/
def scanRun (object : Object) : List Direct.Event :=
  [.record (.save (.user "ada") blackPenny),
    .presign ⟨some "ada", ⟨"stamps", "recordOfPennies", "scan"⟩, "photo.png", .field, "image/png", 29⟩
      "fileOfAdaLovela" "randomOfAdaLove",
    .put scanKey object, .complete (some "ada") "fileOfAdaLovela"]

/-- The row is attached to the scan of the stamp, which is live. -/
def attachedScan (state : Direct.State) (row : FileRow) : Bool :=
  row.id ∈ state.completed && row.fieldName = "scan" && state.records.any fun record =>
    attachedTo row = record.key && record.collection = stamps

/-- **A file that was reserved with 29 bytes has 30**, where no more than 29 are accepted. -/
theorem complete_exceeds_limit :
    ¬ ∀ (deployment : Deployment) (now : Int) (events : List Direct.Event) (state : Direct.State),
      Run (Direct.Step deployment) (Direct.State.empty now) events state → Limited state := by
  intro hall
  have hexec : ((exec (Direct.step stampAlbum) (Direct.State.empty 0) (scanRun larger)).any
      fun state => state.store.files.rows.any fun row => attachedScan state row &&
        decide (row.size = 30 ∧ row.mimeType = "image/png")) = true := by
    decide
  obtain ⟨state, hstate, hrows⟩ := (Option.any_eq_true _ _).mp hexec
  obtain ⟨row, hrow, hrest⟩ := List.any_eq_true.mp hrows
  simp only [attachedScan, Bool.and_eq_true, decide_eq_true_eq, List.any_eq_true] at hrest
  obtain ⟨⟨⟨hmeasured, hfield⟩, record, hlive, hattached, hcollection⟩, hsize, hmime⟩ := hrest
  have hlimited := hall stampAlbum 0 _ state (run_of_exec hstate) row hrow hmeasured record hlive
    hattached _ (by rw [hfield, hcollection]; rfl) rfl
  have hrefused : isOk (checkFilePolicy ⟨"f1", "stamps", "scan", .file, false, false,
      .object [("maxSize", .number (.posInt 29))], 0⟩ 30 "image/png") = false := by decide
  rw [hsize, hmime] at hlimited
  rw [hlimited] at hrefused
  cases hrefused

/-- A scan of 29 bytes meets the limit. -/
theorem scan_is_limited : ∃ state : Direct.State,
    (∃ row ∈ state.store.files.rows, attachedScan state row = true) ∧
      Limited state ∧ ∀ event next, Direct.Step stampAlbum state event next →
        (Sound stampAlbum next ↔ Careful stampAlbum state event) := by
  have hexec : ((Direct.step stampAlbum (Direct.State.empty 0) (scanRun photo)[0]).any fun saved =>
      (Direct.step stampAlbum saved (scanRun photo)[1]).any fun reserved =>
      (Direct.step stampAlbum reserved (scanRun photo)[2]).any fun stored =>
        decide (measure stampAlbum stored (some "ada") "fileOfAdaLovela" = .ok (photo, .png)) &&
        (stored.store.files.rows.all fun row => row.fieldName = "scan") &&
        (Direct.step stampAlbum stored (scanRun photo)[3]).any fun state =>
          state.store.files.rows.any fun row => attachedScan state row) = true := by
    decide
  obtain ⟨saved, hsave, hexec⟩ := (Option.any_eq_true _ _).mp hexec
  obtain ⟨reserved, hreserve, hexec⟩ := (Option.any_eq_true _ _).mp hexec
  obtain ⟨stored, hput, hexec⟩ := (Option.any_eq_true _ _).mp hexec
  rw [Bool.and_eq_true, Bool.and_eq_true, decide_eq_true_eq, List.all_eq_true] at hexec
  obtain ⟨⟨hmeasure, hfields⟩, hexec⟩ := hexec
  obtain ⟨state, hcomplete, hrows⟩ := (Option.any_eq_true _ _).mp hexec
  have hcareful : Careful stampAlbum stored (.complete (some "ada") "fileOfAdaLovela") := by
    intro object format hmeasured row hrow hid hattached collection hcollection hname field hfind hfile
    obtain ⟨rfl, rfl⟩ := Prod.mk.inj (Except.ok.inj (hmeasured.symm.trans hmeasure))
    obtain rfl := List.mem_singleton.mp hcollection
    rw [of_decide_eq_true (hfields row hrow)] at hfind
    obtain rfl := Option.some.inj hfind
    change checkFilePolicy _ photo.body.length ImageFormat.png.contentType = _
    decide
  have hrun : Run (When (Careful stampAlbum) (Direct.Step stampAlbum)) (Direct.State.empty 0)
      (scanRun photo) state :=
    .cons ⟨trivial, hsave⟩ (.cons ⟨trivial, hreserve⟩ (.cons ⟨trivial, hput⟩
      (.cons ⟨hcareful, hcomplete⟩ (.nil state))))
  exact ⟨state, List.any_eq_true.mp hrows, limited_of_run hrun⟩

end Growing

end LazyPock.Limits
