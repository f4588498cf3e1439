import LazyPock.Files.Ownership

/-!
# Edits of a record with files

`sync_files` of `crates/api/src/records.rs` runs behind every write of a record, and attaches every file
that the record names in a file field, also those that were attached before. It does so as the caller: a
file is attached again by its uploader or by a superuser, and by nobody else. The limits of the field are
checked again too, and `field_name` is written again, by the last field that names the file; both may have
been otherwise where the upload named the record by itself.

An edit is what `sync_files` is given: the record after the update. The time of an attachment is not
counted as a part of it; it is written by every edit.

## Main definitions

* `Edits.KeepsFiles`, `Edits.InPlace`: an edit that leaves the file fields alone.
* `Edits.Passes`: the edit is let through, and the attachments stay.
* `Edits.Unhindered`: the files for which it is.

## Main results

* `Edits.foldlM_syncLink_iff`: which links are let through, and what they leave.
* `Edits.passes_iff`, `Edits.other_account_is_refused`.
-/

namespace LazyPock.Edits

open Text Machine Files Ownership

/-! ### What an edit does to a row -/

/-- The limits of the field that names a file. -/
def checkNamed (collection : Collection) (name : String) (row : FileRow) : Result Unit :=
  match collection.fields.find? fun field => field.name = name with
  | some field => checkFilePolicy field row.size row.mimeType
  | none => .ok ()

/-- A row after one link was synchronised. -/
def retouch (collection recordId : String) (now : Int) (row : FileRow) (found : FoundFile) : FileRow :=
  if found.link = .owner ∧ found.id = row.id then row.attachTo collection recordId found.field now
  else row

/-- A row after all links. -/
def settle (collection recordId : String) (now : Int) (links : List FoundFile) (row : FileRow) : FileRow :=
  links.foldl (retouch collection recordId now) row

/-- The last field that names a file. -/
def lastField (links : List FoundFile) (id : String) : Option String :=
  ((links.filter fun found => found.link = .owner ∧ found.id = id).getLast?).map FoundFile.field

section Rows

variable {collection : Collection} {name recordId : String} {caller : Caller} {now : Int}
  {row : FileRow} {found : FoundFile} {links : List FoundFile}

@[simp] theorem retouch_id : (retouch name recordId now row found).id = row.id := by
  rw [retouch]
  split_ifs <;> rfl

@[simp] theorem mayUpdate_retouch :
    caller.mayUpdate (retouch name recordId now row found) = caller.mayUpdate row := by
  rw [retouch]
  split_ifs <;> cases caller <;> rfl

@[simp] theorem checkNamed_retouch {field : String} :
    checkNamed collection field (retouch name recordId now row found) =
      checkNamed collection field row := by
  rw [retouch]
  split_ifs <;> rfl

theorem attachedTo_retouch (h : attachedTo row = (name, recordId)) :
    attachedTo (retouch name recordId now row found) = (name, recordId) := by
  rw [retouch]
  split_ifs
  · rfl
  · exact h

theorem settle_cons : settle name recordId now (found :: links) row =
    settle name recordId now links (retouch name recordId now row found) := rfl

/-- **What the links leave of a row**: it is attached where the last of them says. -/
theorem settle_eq : settle name recordId now links row =
    match lastField links row.id with
    | some field => row.attachTo name recordId field now
    | none => row := by
  induction links generalizing row with
  | nil => rfl
  | cons found links ih =>
    rw [settle_cons, ih, retouch_id]
    by_cases hnames : found.link = .owner ∧ found.id = row.id
    · have hlast : lastField (found :: links) row.id =
          some ((lastField links row.id).getD found.field) := by
        rw [lastField, List.filter_cons, if_pos (decide_eq_true hnames), List.getLast?_cons, lastField]
        cases (links.filter fun found => found.link = .owner ∧ found.id = row.id).getLast? <;> rfl
      rw [hlast, retouch, if_pos hnames]
      cases lastField links row.id <;> rfl
    · have hlast : lastField (found :: links) row.id = lastField links row.id := by
        rw [lastField, List.filter_cons, if_neg (by simpa using hnames), lastField]
      rw [hlast, retouch, if_neg hnames]

end Rows

/-! ### The links of a record -/

section Links

variable {collection : Collection} {recordId : String} {caller : Caller} {now : Int} {files : FileTable}
  {refs : List (String × String)} {row : FileRow} {found : FoundFile} {links : List FoundFile}

/-- A file that is not there is left alone. -/
theorem syncLink_absent (hlink : found.link = .owner) (habsent : ∀ row ∈ files.rows, row.id ≠ found.id) :
    syncLink collection recordId caller now (files, refs) found = .ok (files, refs) := by
  have hget : files.get found.id = none := FileTable.get_eq_none.mpr habsent
  have hfind : files.rows.find? (attachable caller found.id collection.name recordId) = none := by
    rw [List.find?_eq_none]
    exact fun row hrow hmatch => habsent row hrow (attachable_iff.mp hmatch).2.1
  simp only [syncLink, hlink, attach, hfind, hget, Option.filter_none]

theorem get_of_mem (hrow : row ∈ files.rows) : files.get row.id = some row := by
  cases hget : files.get row.id with
  | none => exact absurd rfl (FileTable.get_eq_none.mp hget row hrow)
  | some other =>
    have hid : other.id = row.id := by simpa using List.find?_some hget
    rw [files.eq_of_id (List.mem_of_find?_eq_some hget) hrow hid]

/-- A file that the caller may not update is refused, whatever it is attached to. -/
theorem syncLink_denied (hlink : found.link = .owner) (hrow : row ∈ files.rows) (hid : found.id = row.id)
    (hdenied : caller.mayUpdate row = false) :
    isOk (syncLink collection recordId caller now (files, refs) found) = false := by
  have hfind : files.rows.find? (attachable caller found.id collection.name recordId) = none := by
    rw [List.find?_eq_none]
    intro other hother hmatch
    obtain ⟨hmay, hsame, -⟩ := attachable_iff.mp hmatch
    rw [files.eq_of_id hother hrow (hsame.trans hid), hdenied] at hmay
    cases hmay
  have hget : files.get found.id = some row := hid ▸ get_of_mem hrow
  simp only [syncLink, hlink, attach, hfind, hget, Option.filter_some, hdenied, Bool.false_eq_true,
    if_false]
  split_ifs <;> rfl

/-- A file that is in place is attached again, where it is within the limits of the field. -/
theorem syncLink_again (hlink : found.link = .owner) (hrow : row ∈ files.rows) (hid : found.id = row.id)
    (hmay : caller.mayUpdate row = true) (hplace : attachedTo row = (collection.name, recordId)) :
    ∃ after : FileTable,
      after.rows = files.rows.map (retouch collection.name recordId now · found) ∧
      syncLink collection recordId caller now (files, refs) found =
        (checkNamed collection found.field row >>= fun _ => .ok (after, refs)) := by
  obtain ⟨hcollection, hrecord⟩ := Prod.mk.inj hplace
  have howner : ∀ owner, caller.owner = some owner → row.uploadedBy = owner := by
    intro owner howner
    cases caller with
    | superuser => cases howner
    | anonymous => cases howner
    | user id =>
      obtain rfl := Option.some.inj howner
      simpa [Caller.mayUpdate] using hmay
  have hmatch : attachable caller found.id collection.name recordId row = true :=
    attachable_iff.mpr ⟨hmay, hid.symm, howner, .inr ⟨hcollection, hrecord⟩⟩
  have hiff : ∀ other ∈ files.rows,
      attachable caller found.id collection.name recordId other = true ↔ found.id = other.id := by
    intro other hother
    refine ⟨fun h => (attachable_iff.mp h).2.1.symm, fun h => ?_⟩
    rwa [files.eq_of_id hother hrow (h.symm.trans hid)]
  have hfind : files.rows.find? (attachable caller found.id collection.name recordId) = some row := by
    cases hfound : files.rows.find? (attachable caller found.id collection.name recordId) with
    | none => exact absurd hmatch (List.find?_eq_none.mp hfound row hrow)
    | some other =>
      have hother := (attachable_iff.mp (List.find?_some hfound)).2.1
      rw [files.eq_of_id (List.mem_of_find?_eq_some hfound) hrow (hother.trans hid)]
  refine ⟨files.update (attachable caller found.id collection.name recordId)
    (fun row => row.attachTo collection.name recordId found.field now) fun _ => rfl, ?_, ?_⟩
  · refine List.map_congr_left fun other hother => ?_
    by_cases hsame : found.id = other.id
    · rw [if_pos ((hiff other hother).mpr hsame), retouch, if_pos ⟨hlink, hsame⟩]
    · rw [if_neg (mt (hiff other hother).mp hsame), retouch, if_neg fun h => hsame h.2]
  · simp only [syncLink, hlink, attach, hfind, checkNamed]
    cases collection.fields.find? fun field => field.name = found.field <;> rfl

/-- The links that are let through: their files are the caller's, and within the limits. -/
def Clear (caller : Caller) (collection : Collection) (links : List FoundFile) (row : FileRow) : Prop :=
  ∀ found ∈ links, found.link = .owner → found.id = row.id →
    caller.mayUpdate row = true ∧ checkNamed collection found.field row = .ok ()

/-- The files that the links name are attached to the record. -/
def Placed (collection : Collection) (recordId : String) (links : List FoundFile) (row : FileRow) : Prop :=
  ∀ found ∈ links, found.link = .owner → found.id = row.id → attachedTo row = (collection.name, recordId)

theorem clear_cons : Clear caller collection (found :: links) row ↔
    (found.link = .owner → found.id = row.id →
      caller.mayUpdate row = true ∧ checkNamed collection found.field row = .ok ()) ∧
      Clear caller collection links row := by
  rw [Clear, Clear, List.forall_mem_cons]

theorem clear_retouch {name : String} : Clear caller collection links (retouch name recordId now row found) ↔
    Clear caller collection links row := by
  simp only [Clear, retouch_id, mayUpdate_retouch, checkNamed_retouch]

/-- **The links of a record whose files are in place**: the write goes through if and only if every file
is the caller's and within the limits, and then every row is as the last of its links says. -/
theorem foldlM_syncLink_iff (hplaced : ∀ row ∈ files.rows, Placed collection recordId links row) :
    (isOk (links.foldlM (syncLink collection recordId caller now) (files, refs)) = true ↔
      ∀ row ∈ files.rows, Clear caller collection links row) ∧
    ∀ after, links.foldlM (syncLink collection recordId caller now) (files, refs) = .ok after →
      after.1.rows = files.rows.map (settle collection.name recordId now links) := by
  induction links generalizing files refs with
  | nil =>
    refine ⟨iff_of_true rfl fun row _ found hfound => absurd hfound List.not_mem_nil, ?_⟩
    rintro after h
    obtain rfl := Except.ok.inj h
    exact (List.map_id' files.rows).symm
  | cons found links ih =>
    have hrest : ∀ row ∈ files.rows, Placed collection recordId links row :=
      fun row hrow other hother => hplaced row hrow other (List.mem_cons_of_mem _ hother)
    rw [List.foldlM_cons]
    cases hlink : found.link with
    | reference =>
      have hstep : syncLink collection recordId caller now (files, refs) found =
          .ok (files, refs ++ [(found.id, found.field)]) := by
        rw [syncLink, hlink]
      obtain ⟨hgoes, hleaves⟩ := @ih _ (refs ++ [(found.id, found.field)]) hrest
      rw [hstep]
      refine ⟨hgoes.trans (forall₂_congr fun row _ => ?_), fun after h => ?_⟩
      · rw [clear_cons, hlink]
        simp
      · rw [hleaves after h]
        refine List.map_congr_left fun row _ => ?_
        rw [settle_cons, retouch, hlink]
        simp
    | owner =>
      by_cases hexists : ∃ row ∈ files.rows, found.id = row.id
      · obtain ⟨row, hrow, hid⟩ := hexists
        by_cases hmay : caller.mayUpdate row = true
        · obtain ⟨after, hafter, hstep⟩ := @syncLink_again _ _ _ now _ refs _ _ hlink hrow hid hmay
            (hplaced row hrow found List.mem_cons_self hlink hid)
          rw [hstep]
          cases hcheck : checkNamed collection found.field row with
          | error e =>
            refine ⟨iff_of_false (by simp [bind, Except.bind]) fun hclear => ?_, fun out h => ?_⟩
            · have hok := (hclear row hrow found List.mem_cons_self hlink hid).2
              rw [hcheck] at hok
              cases hok
            · cases h
          | ok checked =>
            have hplacedAfter : ∀ row' ∈ after.rows, Placed collection recordId links row' := by
              intro row' hrow'
              rw [hafter] at hrow'
              obtain ⟨old, hold, rfl⟩ := List.mem_map.mp hrow'
              intro other hother howner hsame
              rw [retouch_id] at hsame
              exact attachedTo_retouch (hrest old hold other hother howner hsame)
            obtain ⟨hgoes, hleaves⟩ := @ih _ refs hplacedAfter
            refine ⟨hgoes.trans ?_, fun out h => ?_⟩
            · simp only [hafter, List.forall_mem_map, clear_retouch, clear_cons]
              refine forall₂_congr fun old hold => (and_iff_right fun _ hsame => ?_).symm
              rw [files.eq_of_id hold hrow (hsame.symm.trans hid)]
              exact ⟨hmay, hcheck⟩
            · rw [hleaves out h, hafter, List.map_map]
              rfl
        · have hdenied := @syncLink_denied collection recordId _ now _ refs _ _ hlink hrow hid (Bool.not_eq_true _ ▸ hmay)
          obtain ⟨e, he⟩ := isOk_eq_false.mp hdenied
          rw [he]
          refine ⟨iff_of_false (by simp [bind, Except.bind]) fun hclear => ?_, fun out h => ?_⟩
          · exact hmay (hclear row hrow found List.mem_cons_self hlink hid).1
          · cases h
      · have habsent : ∀ row ∈ files.rows, row.id ≠ found.id :=
          fun row hrow hid => hexists ⟨row, hrow, hid.symm⟩
        obtain ⟨hgoes, hleaves⟩ := @ih _ refs hrest
        rw [syncLink_absent hlink habsent]
        refine ⟨hgoes.trans (forall₂_congr fun row hrow => ?_), fun after h => ?_⟩
        · rw [clear_cons]
          exact (and_iff_right fun _ hid => absurd hid.symm (habsent row hrow)).symm
        · rw [hleaves after h]
          refine List.map_congr_left fun row hrow => ?_
          rw [settle_cons, retouch, if_neg fun h => habsent row hrow h.2.symm]

end Links

/-! ### Edits that leave the files alone -/

/-- The record after an edit that leaves its file fields as they were. -/
structure KeepsFiles (record edited : Record) : Prop where
  collection : edited.collection = record.collection
  id : edited.id = record.id
  files : ∀ field ∈ record.collection.fields, field.fieldType = .file →
    edited.document.get field.name = record.document.get field.name

/-- The file fields name only files that are attached to the record. -/
def InPlace (files : FileTable) (record : Record) : Prop :=
  ∀ row ∈ files.rows, record.Names row.id → attachedTo row = record.key ∧ row.status = .ready

/-- **The edit passes**: it is not refused because of the files, and they stay attached as they were. -/
def Passes (store : Store) (record edited : Record) (caller : Caller) (now : Int) : Prop :=
  ∃ after, syncFiles store edited.collection edited.document caller now = .ok after ∧
    ∀ row ∈ store.files.rows, record.Names row.id →
      ∃ row' ∈ after.files.rows, row' = { row with attachedAt := row'.attachedAt }

/-- What an edit asks of the files in place. -/
structure Unhindered (files : FileTable) (edited : Record) (caller : Caller) : Prop where
  /-- The caller is a superuser or has uploaded them. -/
  uploader : ∀ row ∈ files.rows, edited.Names row.id →
    caller = .superuser ∨ caller = .user row.uploadedBy
  /-- They are within the limits of the fields that name them. -/
  limits : ∀ row ∈ files.rows, ∀ found ∈ edited.links, found.link = .owner → found.id = row.id →
    checkNamed edited.collection found.field row = .ok ()
  /-- They are attached in the last field that names them. -/
  field : ∀ row ∈ files.rows, edited.Names row.id →
    lastField edited.links row.id = some row.fieldName

section Edits

variable {store : Store} {record edited : Record} {caller : Caller} {now : Int} {row : FileRow}
  {id : String} {found : FoundFile}

theorem fieldType_of_owner {field : Field} {value : Json} (h : found ∈ linksOfField field value)
    (howner : found.link = .owner) : field.fieldType = .file := by
  unfold linksOfField at h
  split at h
  · assumption
  · split at h
    · obtain ⟨id, -, rfl⟩ := List.mem_map.mp h
      cases howner
    · cases h
  · cases h

theorem KeepsFiles.symm (h : KeepsFiles record edited) : KeepsFiles edited record :=
  ⟨h.collection.symm, h.id.symm, fun field hfield hfile =>
    (h.files field (h.collection ▸ hfield) hfile).symm⟩

theorem KeepsFiles.key (h : KeepsFiles record edited) : edited.key = record.key :=
  Prod.ext (congrArg Collection.name h.collection) h.id

theorem KeepsFiles.names (h : KeepsFiles record edited) (hnames : record.Names id) : edited.Names id := by
  obtain ⟨found, hfound, howner, hid⟩ := hnames
  obtain ⟨hne, field, hfield, value, hvalue, hlink⟩ := mem_fileLinksIn.mp hfound
  rw [← h.files field hfield (fieldType_of_owner hlink howner)] at hvalue
  exact ⟨found, mem_fileLinksIn.mpr ⟨hne, field, h.collection ▸ hfield, value, hvalue, hlink⟩, howner, hid⟩

theorem KeepsFiles.names_iff (h : KeepsFiles record edited) : edited.Names id ↔ record.Names id :=
  ⟨h.symm.names, h.names⟩

theorem lastField_isSome : (lastField edited.links id).isSome = true ↔ edited.Names id := by
  rw [lastField, Option.isSome_map, List.getLast?_isSome, Ne, List.filter_eq_nil_iff]
  simp [Record.Names]

theorem mayUpdate_iff : caller.mayUpdate row = true ↔
    caller = .superuser ∨ caller = .user row.uploadedBy := by
  cases caller <;> simp [Caller.mayUpdate, eq_comm]

/-- A file in place that is attached again is as it was, where the field is. -/
theorem attachTo_eq_iff (hplace : attachedTo row = edited.key) (hready : row.status = .ready)
    {field : String} :
    (row.attachTo edited.collection.name edited.id field now =
      { row with attachedAt := (row.attachTo edited.collection.name edited.id field now).attachedAt }) ↔
      field = row.fieldName := by
  obtain ⟨hcollection, hrecord⟩ := Prod.mk.inj hplace
  constructor
  · exact fun h => congrArg FileRow.fieldName h
  · rintro rfl
    rw [FileRow.attachTo, ← hcollection, ← hrecord, ← hready]

/-- The row that an edit leaves of a file in place. -/
theorem settled_iff {files : FileTable} {field : String} (hrow : row ∈ files.rows)
    (hplace : attachedTo row = edited.key) (hready : row.status = .ready)
    (hfield : lastField edited.links row.id = some field) :
    (∃ row' ∈ files.rows.map (settle edited.collection.name edited.id now edited.links),
      row' = { row with attachedAt := row'.attachedAt }) ↔ field = row.fieldName := by
  have hsettle : settle edited.collection.name edited.id now edited.links row =
      row.attachTo edited.collection.name edited.id field now := by
    rw [settle_eq, hfield]
  rw [← @attachTo_eq_iff _ now _ hplace hready]
  constructor
  · rintro ⟨row', hrow', hsame⟩
    obtain ⟨old, hold, rfl⟩ := List.mem_map.mp hrow'
    have hid : old.id = row.id := by
      have hsettled : (settle edited.collection.name edited.id now edited.links old).id = old.id := by
        rw [settle_eq]
        cases lastField edited.links old.id <;> rfl
      rw [← hsettled, hsame]
    rw [files.eq_of_id hold hrow hid, hsettle] at hsame
    exact hsame
  · intro hsame
    exact ⟨_, List.mem_map_of_mem hrow, by rw [hsettle]; exact hsame⟩

/-- What `sync_files` does with the links of a record. -/
theorem syncFiles_eq_ok_iff {next : Store} :
    syncFiles store edited.collection edited.document caller now = .ok next ↔
      ∃ after, edited.links.foldlM (syncLink edited.collection edited.id caller now) (store.files, []) =
        .ok after ∧ next = ⟨after.1, syncRefs store.refs edited.collection.name edited.id after.2⟩ := by
  simp only [syncFiles, edited.id_eq, Option.bind_some, Json.asStr]
  refine bind_eq_ok.trans (exists_congr fun after => and_congr Iff.rfl ?_)
  exact ⟨fun h => (Except.ok.inj h).symm, fun h => h ▸ rfl⟩

/-- **An edit that leaves the file fields alone passes** if and only if the caller may update every file
in place, each of them is within the limits, and is attached in the field that names it last. -/
theorem passes_iff (hkeeps : KeepsFiles record edited) (hplace : InPlace store.files record) :
    Passes store record edited caller now ↔ Unhindered store.files edited caller := by
  have hattached : ∀ row ∈ store.files.rows, edited.Names row.id →
      attachedTo row = edited.key ∧ row.status = .ready := by
    intro row hrow hnames
    rw [hkeeps.key]
    exact hplace row hrow (hkeeps.names_iff.mp hnames)
  obtain ⟨hgoes, hleaves⟩ := @foldlM_syncLink_iff edited.collection edited.id caller now _ [] edited.links
    fun row hrow found hfound howner hid => (hattached row hrow ⟨found, hfound, howner, hid⟩).1
  constructor
  · rintro ⟨next, hnext, hkept⟩
    obtain ⟨after, hafter, rfl⟩ := syncFiles_eq_ok_iff.mp hnext
    have hclear := hgoes.mp (isOk_iff.mpr ⟨after, hafter⟩)
    have hrows := hleaves after hafter
    refine ⟨?_, ?_, ?_⟩
    · rintro row hrow ⟨found, hfound, howner, hid⟩
      exact mayUpdate_iff.mp (hclear row hrow found hfound howner hid).1
    · exact fun row hrow found hfound howner hid => (hclear row hrow found hfound howner hid).2
    · intro row hrow hnames
      obtain ⟨hkey, hready⟩ := hattached row hrow hnames
      obtain ⟨field, hfield⟩ := Option.isSome_iff_exists.mp (lastField_isSome.mpr hnames)
      have hrow' := hkept row hrow (hkeeps.names_iff.mp hnames)
      rw [hrows] at hrow'
      rw [hfield, (settled_iff hrow hkey hready hfield).mp hrow']
  · intro h
    obtain ⟨after, hafter⟩ := isOk_iff.mp (hgoes.mpr fun row hrow found hfound howner hid =>
      ⟨mayUpdate_iff.mpr (h.uploader row hrow ⟨found, hfound, howner, hid⟩),
        h.limits row hrow found hfound howner hid⟩)
    refine ⟨_, syncFiles_eq_ok_iff.mpr ⟨after, hafter, rfl⟩, fun row hrow hnames => ?_⟩
    have hnames := hkeeps.names hnames
    obtain ⟨hkey, hready⟩ := hattached row hrow hnames
    rw [hleaves after hafter]
    exact (settled_iff hrow hkey hready (h.field row hrow hnames)).mpr rfl

/-- A collection with a title and a file. -/
def covers : Collection where
  id := "albums"
  name := "albums"
  collectionType := .base
  options := .object []
  rules := .object []
  fields := [⟨"f1", "albums", "cover", .file, false, false, .object [], 0⟩,
    ⟨"f2", "albums", "title", .text, false, false, .object [], 1⟩]

def titled (title : String) : Record where
  collection := covers
  id := "recordOfAdaLove"
  document := .object [("cover", .string "coverUploadAda1"), ("id", .string "recordOfAdaLove"),
    ("title", .string title)]
  id_eq := rfl
  valid := adasAlbum.valid

/-- The media library after Ada has put her upload on the album. -/
def coverStore : Store :=
  ⟨⟨[⟨"coverUploadAda1", "image/png", 10, "local", "albums", "recordOfAdaLove", "cover", .field, .ready,
    "ada", some 0, 0⟩], by decide⟩, []⟩

theorem keepsFiles_titled (a b : String) : KeepsFiles (titled a) (titled b) where
  collection := rfl
  id := rfl
  files := List.forall_mem_cons.mpr ⟨fun _ => rfl, List.forall_mem_cons.mpr
    ⟨fun h => absurd h (by decide), fun _ h => absurd h List.not_mem_nil⟩⟩

theorem inPlace_titled (title : String) : InPlace coverStore.files (titled title) := by
  rintro row hrow -
  obtain rfl := List.mem_singleton.mp hrow
  exact ⟨rfl, rfl⟩

/-- Ada gives her album another title. -/
theorem ada_passes : Passes coverStore (titled "one") (titled "two") (.user "ada") 1 ↔
    Unhindered coverStore.files (titled "two") (.user "ada") :=
  passes_iff (keepsFiles_titled "one" "two") (inPlace_titled "one")

/-- Somebody else gives it one. -/
theorem other_account_is_refused :
    ¬ ∀ (now : Int) (events : List Ownership.Event) (state : State) (record edited : Record) (caller : Caller),
      Run Ownership.Step (State.empty now) events state → record ∈ state.records →
        KeepsFiles record edited → InPlace state.store.files record → Passes state.store record edited caller state.now := by
  intro hall
  have hrun : Run Ownership.Step (State.empty 0)
      [.upload cover "coverUploadAda1", .save (.user "ada") (titled "one")]
      ⟨coverStore, [titled "one"], 0, []⟩ := .cons rfl (.cons rfl (.nil _))
  obtain ⟨next, hnext, -⟩ := hall 0 _ _ (titled "one") (titled "two") (.user "bob") hrun
    List.mem_cons_self (keepsFiles_titled "one" "two") (inPlace_titled "one")
  have hrefused : isOk (syncFiles coverStore covers (titled "two").document (.user "bob") 0) = false := by
    decide
  rw [show syncFiles coverStore covers (titled "two").document (.user "bob") 0 = .ok next from hnext]
    at hrefused
  cases hrefused

end Edits

end LazyPock.Edits
