import LazyPock.Files.Keys
import LazyPock.Schema.Collection
import Mathlib.Data.List.Sort

/-!
# The media library

The rows of `_files` and `_file_refs` and what a record write does to them
(`crates/files/src/store.rs`, `sync_files` and `release_files` of `crates/api/src/records.rs`). A file
field owns the uploads it names: a write of the record attaches them. An editor field references
those its text links to: a write of the record replaces its rows of `_file_refs`, and the uploads
themselves stay as they are.

A table of files carries the uniqueness of its ids.

## Main definitions

* `Files.fileLinksIn`: the files a record points at.
* `Files.FileTable`, `Files.attach`.
* `Files.syncFiles`, `Files.releaseFiles`.

## Main results

* `Files.mem_fileLinksIn`.
* `Files.syncFiles_spec`: after a record write the files that the record owns are attached.
-/

namespace LazyPock.Files

open Text List

/-! ### Links -/

/-- What a file id found in a record is doing there. -/
inductive FileLink where
  /-- A `file` field's value. -/
  | owner
  /-- An id inside an editor field's text. -/
  | reference
deriving DecidableEq

/-- One file a record points at. -/
structure FoundFile where
  id : String
  /-- The field that names it. -/
  field : String
  link : FileLink
deriving DecidableEq

/-- `PREFIX` of `ids_in_text`. -/
def linkPrefix : List Char := "/api/files/".toList

/-- The ids behind the links of a text. The characters of a link's prefix are skipped before the
search goes on. -/
def idsInChars : (skip : ℕ) → List Char → List String
  | _, [] => []
  | skip + 1, _ :: text => idsInChars skip text
  | 0, c :: text =>
    if linkPrefix.isPrefixOf (c :: text) then
      let id := ((c :: text).drop linkPrefix.length).takeWhile isAsciiAlphanumeric
      (if id = [] then [] else [String.ofList id]) ++ idsInChars (linkPrefix.length - 1) text
    else idsInChars 0 text

def idsInText (text : String) : List String := idsInChars 0 text.toList

/-- The ids a field's value points at. -/
def linksOfField (field : Field) (value : Json) : List FoundFile :=
  match field.fieldType with
  | .file => match value with
    | .string id => [⟨id, field.name, .owner⟩]
    | .array values => (values.filterMap Json.asStr).map fun id => ⟨id, field.name, .owner⟩
    | _ => []
  | .editor => match value.asStr with
    | some text => (idsInText text).map fun id => ⟨id, field.name, .reference⟩
    | none => []
  | _ => []

/-- The order the links are sorted by. -/
def FoundFile.le (a b : FoundFile) : Prop :=
  a.id < b.id ∨ (a.id = b.id ∧ (a.field < b.field ∨
    (a.field = b.field ∧ (a.link = .owner ∨ b.link = .reference))))

instance (a b : FoundFile) : Decidable (a.le b) :=
  inferInstanceAs (Decidable (_ ∨ _))

/-- `Vec::dedup`. -/
def dedup {α : Type} [DecidableEq α] : List α → List α
  | [] => []
  | [a] => [a]
  | a :: b :: rest => if a = b then dedup (b :: rest) else a :: dedup (b :: rest)

/-- Every file a record's values point at. -/
def fileLinksIn (collection : Collection) (record : Json) : List FoundFile :=
  let found := collection.fields.flatMap fun field =>
    match record.get field.name with
    | some value => (linksOfField field value).filter fun found => found.id ≠ ""
    | none => []
  dedup (found.insertionSort FoundFile.le)

theorem mem_dedup {α : Type} [DecidableEq α] {a : α} {l : List α} : a ∈ dedup l ↔ a ∈ l := by
  fun_induction dedup l with
  | case1 => rfl
  | case2 => rfl
  | case3 b rest ih => rw [ih]; simp
  | case4 b c rest hne ih => rw [mem_cons, ih, mem_cons, mem_cons, mem_cons]

/-! ### Rows -/

inductive Origin where
  /-- A record's file field. -/
  | field
  /-- The richtext editor. -/
  | editor
  /-- The media library. -/
  | library
deriving DecidableEq

inductive Status where
  /-- Stored, not attached to a record yet. -/
  | pending
  /-- Attached: the row names its collection, record and field. -/
  | ready
deriving DecidableEq

/-- A row of `_files`. -/
structure FileRow where
  id : String
  mimeType : String
  size : Int
  storageBackend : String
  collectionName : String
  recordId : String
  fieldName : String
  origin : Origin
  status : Status
  uploadedBy : String
  attachedAt : Option Int
  createdAt : Int
deriving DecidableEq

/-- `_files`, by its primary key. -/
structure FileTable where
  rows : List FileRow
  nodup : (rows.map FileRow.id).Nodup

/-- A row of `_file_refs`. -/
structure FileRef where
  fileId : String
  collection : String
  recordId : String
  field : String
deriving DecidableEq

namespace FileTable

def get (files : FileTable) (id : String) : Option FileRow :=
  files.rows.find? fun row => row.id = id

/-- `update … set … where …`, for an assignment that keeps the id. -/
def update (files : FileTable) (p : FileRow → Bool) (assign : FileRow → FileRow)
    (hid : ∀ row, (assign row).id = row.id) : FileTable where
  rows := files.rows.map fun row => if p row then assign row else row
  nodup := by
    have hids : (files.rows.map fun row => if p row then assign row else row).map FileRow.id =
        files.rows.map FileRow.id := by
      rw [map_map]
      refine map_congr_left fun row _ => ?_
      by_cases hp : p row = true <;> simp [hp, hid]
    rw [hids]
    exact files.nodup

/-- `delete from … where …`. -/
def delete (files : FileTable) (p : FileRow → Bool) : FileTable where
  rows := files.rows.filter fun row => !p row
  nodup := files.nodup.sublist (filter_sublist.map _)

/-- `insert into …`; an id that is taken breaks the primary key. -/
def insert (files : FileTable) (row : FileRow) : Option FileTable :=
  if hfresh : row.id ∉ files.rows.map FileRow.id then
    some ⟨row :: files.rows, nodup_cons.mpr ⟨hfresh, files.nodup⟩⟩
  else none

end FileTable

/-- `_files` and `_file_refs`. -/
structure Store where
  files : FileTable
  refs : List FileRef

/-! ### Attaching -/

/-- Who makes a request, as the policies of the media library see it. -/
inductive Caller where
  | superuser
  | user (id : String)
  | anonymous
deriving DecidableEq

/-- The identity that has to be the uploader; a superuser bypasses the check. -/
def Caller.owner : Caller → Option String
  | .superuser | .anonymous => none
  | .user id => some id

/-- The policies of `_files` for an update: the rows the caller uploaded. -/
def Caller.mayUpdate (caller : Caller) (row : FileRow) : Bool :=
  match caller with
  | .superuser => true
  | .user id => row.uploadedBy = id
  | .anonymous => false

/-- What attaching a file to a record field did. -/
inductive Attach where
  /-- Attached, or attached again to the record it already belonged to. -/
  | attached (file : FileRow)
  /-- No file with that id. -/
  | missing
  /-- The file was uploaded by a different account. -/
  | notOwned
  /-- The file already belongs to a different record. -/
  | elsewhere (collection record field : String)

/-- The rows that the update of `attach` matches. -/
def attachable (caller : Caller) (id collection record : String) (row : FileRow) : Bool :=
  caller.mayUpdate row && row.id = id &&
    (match caller.owner with
      | none => true
      | some owner => row.uploadedBy = owner) &&
    (row.recordId = "" || (row.collectionName = collection && row.recordId = record))

/-- What the update of `attach` assigns. -/
def FileRow.attachTo (row : FileRow) (collection record field : String) (now : Int) : FileRow :=
  { row with
    collectionName := collection
    recordId := record
    fieldName := field
    status := .ready
    attachedAt := some now }

/-- Attach an upload to a record, which takes it out of the reaper's reach. -/
def attach (files : FileTable) (id collection record field : String) (caller : Caller) (now : Int) :
    FileTable × Attach :=
  match files.rows.find? (attachable caller id collection record) with
  | some row =>
    (files.update (attachable caller id collection record)
      (fun row => row.attachTo collection record field now) fun _ => rfl,
      .attached (row.attachTo collection record field now))
  | none =>
    -- The reason is asked for under the request role, which sees what it may update.
    match (files.get id).filter caller.mayUpdate with
    | none => (files, .missing)
    | some row => match caller.owner with
      | some owner =>
        if row.uploadedBy ≠ owner then (files, .notOwned)
        else (files, .elsewhere row.collectionName row.recordId row.fieldName)
      | none => (files, .elsewhere row.collectionName row.recordId row.fieldName)

/-- `file_size_limit` -/
def fileSizeLimit (options : Json) : Option ℕ :=
  (optionU64 options "maxFileSize").or (optionU64 options "maxSize")

/-- `str::eq_ignore_ascii_case`. -/
def eqIgnoreAsciiCase (a b : String) : Bool := a.toList.map Char.toLower = b.toList.map Char.toLower

/-- Whether a file's type matches one entry of `mimeTypes`: exactly, or by `type/*`. -/
def mimeMatches (pattern mimeType : String) : Bool :=
  if endsWith "/*" pattern then
    match splitOnce '/' mimeType with
    | some (actual, _) =>
      eqIgnoreAsciiCase actual (String.ofList (pattern.toList.take (pattern.toList.length - 2)))
    | none => false
  else eqIgnoreAsciiCase pattern mimeType

/-- A field's own limits. -/
def checkFilePolicy (field : Field) (size : Int) (mimeType : String) : Result Unit := do
  match fileSizeLimit field.options with
  | some max =>
    failIf ((max : Int) < size)
      (.invalid ("`" ++ field.name ++ "` accepts files up to " ++ toString max ++
        " bytes; this one is " ++ toString size ++ " bytes"))
  | none => .ok ()
  match (field.options.get "mimeTypes").bind Json.asArray with
  | some types =>
    let allowed := types.filterMap Json.asStr
    failIf (allowed ≠ [] ∧ ¬ allowed.any fun pattern => mimeMatches pattern mimeType)
      (.invalid ("`" ++ field.name ++ "` accepts " ++ join ", " allowed ++ "; this file is " ++
        mimeType))
  | none => .ok ()

/-! ### Record writes -/

/-- A refusal to attach somebody else's file. -/
def notYours (id : String) : Error :=
  .forbidden ("the file " ++ id ++
    " was uploaded by a different account, so it cannot be attached to this record")

/-- A refusal to attach a file of another record. -/
def belongsTo (id collection record field : String) : Error :=
  .conflict ("the file " ++ id ++ " already belongs to " ++ collection ++ "/" ++ record ++ "/" ++ field)

/-- The loop of `sync_files` over one link: the files so far, and the references so far. -/
def syncLink (collection : Collection) (recordId : String) (caller : Caller) (now : Int)
    (state : FileTable × List (String × String)) (found : FoundFile) :
    Result (FileTable × List (String × String)) :=
  match found.link with
  | .reference => .ok (state.1, state.2 ++ [(found.id, found.field)])
  | .owner => match attach state.1 found.id collection.name recordId found.field caller now with
    | (files, .attached file) => do
      match collection.fields.find? fun field => field.name = found.field with
      | some field => checkFilePolicy field file.size file.mimeType
      | none => .ok ()
      return (files, state.2)
    | (_, .missing) => match state.1.get found.id with
      -- An id that was never stored is left alone.
      | none => .ok state
      | some file =>
        if caller = .superuser ∨ caller.owner = some file.uploadedBy then
          .error (belongsTo found.id file.collectionName file.recordId file.fieldName)
        else .error (notYours found.id)
    | (_, .notOwned) => .error (notYours found.id)
    | (_, .elsewhere collection record field) => .error (belongsTo found.id collection record field)

/-- Replace a record's references with the given pairs of file id and field. -/
def syncRefs (refs : List FileRef) (collection record : String)
    (references : List (String × String)) : List FileRef :=
  let kept := refs.filter fun ref =>
    !(ref.collection = collection && ref.recordId = record &&
      !references.contains (ref.fileId, ref.field))
  references.foldl (fun refs reference =>
    let ref : FileRef := ⟨reference.1, collection, record, reference.2⟩
    if ref ∈ refs then refs else refs ++ [ref]) kept

/-- Record what a record's file fields own and reference. -/
def syncFiles (store : Store) (collection : Collection) (record : Json) (caller : Caller)
    (now : Int) : Result Store :=
  match (record.get "id").bind Json.asStr with
  | none => .ok store
  | some recordId => do
    let (files, references) ←
      (fileLinksIn collection record).foldlM (syncLink collection recordId caller now) (store.files, [])
    return ⟨files, syncRefs store.refs collection.name recordId references⟩

/-- Let go of what a deleted record owned and referenced. -/
def releaseFiles (store : Store) (collection : Collection) (recordId : String)
    (record : Option Json) : Store :=
  let files := store.files.delete fun row =>
    row.collectionName = collection.name && row.recordId = recordId
  let files := match record with
    | some record =>
      let owned := ((fileLinksIn collection record).filter fun found => found.link = .owner).map
        FoundFile.id
      files.delete fun row => owned.contains row.id
    | none => files
  ⟨files, store.refs.filter fun ref =>
    !(ref.collection = collection.name && ref.recordId = recordId)⟩

/-! ### What a record write leaves -/

/-- The links of a record are those of its fields. -/
theorem mem_fileLinksIn {collection : Collection} {record : Json} {found : FoundFile} :
    found ∈ fileLinksIn collection record ↔ found.id ≠ "" ∧
      ∃ field ∈ collection.fields, ∃ value, record.get field.name = some value ∧
        found ∈ linksOfField field value := by
  rw [fileLinksIn, mem_dedup, mem_insertionSort, mem_flatMap]
  constructor
  · rintro ⟨field, hfield, hmem⟩
    cases hvalue : record.get field.name with
    | none => simp [hvalue] at hmem
    | some value =>
      rw [hvalue] at hmem
      obtain ⟨hlink, hne⟩ := mem_filter.mp hmem
      exact ⟨of_decide_eq_true hne, field, hfield, value, hvalue, hlink⟩
  · rintro ⟨hne, field, hfield, value, hvalue, hlink⟩
    refine ⟨field, hfield, ?_⟩
    rw [hvalue]
    exact mem_filter.mpr ⟨hlink, decide_eq_true hne⟩

/-- A table in which files were attached only: no row is new, and what was attached still is. -/
def FileTable.Attaches (before after : FileTable) : Prop :=
  ∀ row' ∈ after.rows, ∃ row ∈ before.rows, row'.id = row.id ∧
    (row.status = .ready → row'.status = .ready)

/-- Every row with the id is attached. -/
def FileTable.Ready (files : FileTable) (id : String) : Prop :=
  ∀ row ∈ files.rows, row.id = id → row.status = .ready

section Attach

variable {files after : FileTable} {id collection record field : String} {caller : Caller}
  {now : Int}

theorem FileTable.Attaches.refl (files : FileTable) : files.Attaches files :=
  fun row hrow => ⟨row, hrow, rfl, id⟩

theorem FileTable.Attaches.trans {a b c : FileTable} (hab : a.Attaches b) (hbc : b.Attaches c) :
    a.Attaches c := by
  intro row'' hrow''
  obtain ⟨row', hrow', hid', hready'⟩ := hbc row'' hrow''
  obtain ⟨row, hrow, hid, hready⟩ := hab row' hrow'
  exact ⟨row, hrow, hid'.trans hid, fun h => hready' (hready h)⟩

theorem FileTable.Attaches.ready (h : files.Attaches after) (hready : files.Ready id) :
    after.Ready id := by
  intro row' hrow' hid'
  obtain ⟨row, hrow, hid, hkeep⟩ := h row' hrow'
  exact hkeep (hready row hrow (hid.symm.trans hid'))

/-- Two rows with one id are one row. -/
theorem FileTable.eq_of_id (files : FileTable) {row row' : FileRow} (hrow : row ∈ files.rows)
    (hrow' : row' ∈ files.rows) (hid : row.id = row'.id) : row = row' :=
  inj_on_of_nodup_map files.nodup hrow hrow' hid

theorem FileTable.get_eq_none : files.get id = none ↔ ∀ row ∈ files.rows, row.id ≠ id := by
  rw [FileTable.get, List.find?_eq_none]
  simp

/-- What the guards of an attachment say about the row. -/
theorem attachable_iff {row : FileRow} :
    attachable caller id collection record row = true ↔
      caller.mayUpdate row = true ∧ row.id = id ∧
        (∀ owner, caller.owner = some owner → row.uploadedBy = owner) ∧
        (row.recordId = "" ∨ (row.collectionName = collection ∧ row.recordId = record)) := by
  cases howner : caller.owner <;> simp [attachable, howner, and_assoc]

theorem attach_eq {file : FileRow}
    (h : attach files id collection record field caller now = (after, .attached file)) :
    ∃ row, files.rows.find? (attachable caller id collection record) = some row ∧
      after = files.update (attachable caller id collection record)
        (fun row => row.attachTo collection record field now) fun _ => rfl := by
  unfold attach at h
  split at h
  · rename_i row hrow
    exact ⟨row, hrow, (Prod.mk.inj h).1.symm⟩
  · split at h
    · exact absurd (Prod.mk.inj h).2 (by simp)
    · split at h
      · split_ifs at h
        · exact absurd (Prod.mk.inj h).2 (by simp)
        · exact absurd (Prod.mk.inj h).2 (by simp)
      · exact absurd (Prod.mk.inj h).2 (by simp)

theorem FileTable.update_ids {p : FileRow → Bool} {assign : FileRow → FileRow}
    (hid : ∀ row, (assign row).id = row.id) :
    (files.update p assign hid).rows.map FileRow.id = files.rows.map FileRow.id := by
  rw [FileTable.update, map_map]
  refine map_congr_left fun row _ => ?_
  by_cases hp : p row = true <;> simp [hp, hid]

/-- What attaching a file changes: the row with its id, which the guards let through. -/
theorem attach_cases {file : FileRow}
    (h : attach files id collection record field caller now = (after, .attached file)) :
    after.rows.map FileRow.id = files.rows.map FileRow.id ∧
      ∃ row ∈ files.rows, attachable caller id collection record row = true ∧
        ∀ row' ∈ after.rows, row' = row.attachTo collection record field now ∨
          (row' ∈ files.rows ∧ row'.id ≠ id) := by
  obtain ⟨row, hrow, rfl⟩ := attach_eq h
  refine ⟨FileTable.update_ids _, row, mem_of_find?_eq_some hrow, List.find?_some hrow,
    fun row' hrow' => ?_⟩
  obtain ⟨old, hold, rfl⟩ := mem_map.mp hrow'
  have hid : row.id = id := (attachable_iff.mp (List.find?_some hrow)).2.1
  by_cases hsame : old.id = id
  · have hold' : old = row :=
      files.eq_of_id hold (mem_of_find?_eq_some hrow) (hsame.trans hid.symm)
    rw [hold', if_pos (List.find?_some hrow)]
    exact .inl rfl
  · rw [if_neg fun hmatch => hsame (attachable_iff.mp hmatch).2.1]
    exact .inr ⟨hold, hsame⟩

/-- A file that was attached is attached, and nothing else has changed. -/
theorem attach_attached {file : FileRow}
    (h : attach files id collection record field caller now = (after, .attached file)) :
    files.Attaches after ∧ after.Ready id := by
  obtain ⟨-, row, hrow, -, hafter⟩ := attach_cases h
  refine ⟨fun row' hrow' => ?_, fun row' hrow' hid => ?_⟩
  · rcases hafter row' hrow' with rfl | ⟨hold, -⟩
    · exact ⟨row, hrow, rfl, fun _ => rfl⟩
    · exact ⟨row', hold, rfl, fun hready => hready⟩
  · rcases hafter row' hrow' with rfl | ⟨-, hne⟩
    · rfl
    · exact absurd hid hne

end Attach

section Sync

variable {collection : Collection} {recordId : String} {caller : Caller} {now : Int}

/-- What one link does: a reference leaves the files alone, and so does an id that was never stored;
any other owned file is attached. -/
theorem syncLink_cases {state next : FileTable × List (String × String)} {found : FoundFile}
    (h : syncLink collection recordId caller now state found = .ok next) :
    (found.link = .reference ∧ next = (state.1, state.2 ++ [(found.id, found.field)])) ∨
      (found.link = .owner ∧ next = state ∧ ∀ row ∈ state.1.rows, row.id ≠ found.id) ∨
      (found.link = .owner ∧ next.2 = state.2 ∧ ∃ file,
        attach state.1 found.id collection.name recordId found.field caller now =
          (next.1, .attached file)) := by
  unfold syncLink at h
  cases hlink : found.link with
  | reference =>
    rw [hlink] at h
    exact .inl ⟨rfl, (Except.ok.inj h).symm⟩
  | owner =>
    rw [hlink] at h
    dsimp only at h
    split at h
    · rename_i files file hattach
      have hnext : (files, state.2) = next := by
        split at h
        · obtain ⟨_, -, h⟩ := bind_eq_ok.mp h
          exact Except.ok.inj h
        · exact Except.ok.inj h
      exact .inr (.inr ⟨rfl, hnext ▸ rfl, file, hnext ▸ hattach⟩)
    · split at h
      · rename_i hget
        exact .inr (.inl ⟨rfl, (Except.ok.inj h).symm, FileTable.get_eq_none.mp hget⟩)
      · split_ifs at h
    · cases h
    · cases h

/-- One link: an owned file is attached, and a reference leaves the files alone. -/
theorem syncLink_spec {state next : FileTable × List (String × String)} {found : FoundFile}
    (h : syncLink collection recordId caller now state found = .ok next) :
    state.1.Attaches next.1 ∧ (found.link = .owner → next.1.Ready found.id) ∧
      next.2 = state.2 ++ if found.link = .reference then [(found.id, found.field)] else [] := by
  rcases syncLink_cases h with ⟨hlink, rfl⟩ | ⟨hlink, rfl, hnone⟩ | ⟨hlink, hrefs, file, hattach⟩
  · exact ⟨.refl _, by simp [hlink], by simp [hlink]⟩
  · exact ⟨.refl _, fun _ row hrow hid => absurd hid (hnone row hrow), by simp [hlink]⟩
  · obtain ⟨hattaches, hready⟩ := attach_attached hattach
    exact ⟨hattaches, fun _ => hready, by simp [hlink, hrefs]⟩

/-- All links, one after the other. -/
theorem foldlM_syncLink_spec {links : List FoundFile} {state next : FileTable × List (String × String)}
    (h : links.foldlM (syncLink collection recordId caller now) state = .ok next) :
    state.1.Attaches next.1 ∧ (∀ found ∈ links, found.link = .owner → next.1.Ready found.id) ∧
      next.2 = state.2 ++ (links.filter fun found => found.link = .reference).map
        fun found => (found.id, found.field) := by
  induction links generalizing state with
  | nil =>
    obtain rfl := Except.ok.inj h
    exact ⟨.refl _, by simp, by simp⟩
  | cons found links ih =>
    rw [foldlM_cons] at h
    obtain ⟨middle, hfound, hrest⟩ := bind_eq_ok.mp h
    obtain ⟨hfirst, hready, hreferences⟩ := syncLink_spec hfound
    obtain ⟨hlast, hall, hrefs⟩ := ih hrest
    refine ⟨hfirst.trans hlast, ?_, ?_⟩
    · intro other hother howner
      rcases mem_cons.mp hother with rfl | hother
      · exact hlast.ready (hready howner)
      · exact hall other hother howner
    · rw [hrefs, hreferences, append_assoc]
      by_cases hlink : found.link = .reference <;> simp [hlink]

/-- The references that a record's text holds. -/
def referencesIn (collection : Collection) (record : Json) : List (String × String) :=
  ((fileLinksIn collection record).filter fun found => found.link = .reference).map
    fun found => (found.id, found.field)

/-- A row of `_file_refs` after a record's references were replaced. -/
theorem mem_syncRefs {refs : List FileRef} {collection record : String}
    {references : List (String × String)} {ref : FileRef} :
    ref ∈ syncRefs refs collection record references ↔
      if ref.collection = collection ∧ ref.recordId = record then
        (ref.fileId, ref.field) ∈ references
      else ref ∈ refs := by
  -- The insertions add what they name and keep the rest.
  have hinsert (kept : List FileRef) : ref ∈ references.foldl (fun refs reference =>
      let ref : FileRef := ⟨reference.1, collection, record, reference.2⟩
      if ref ∈ refs then refs else refs ++ [ref]) kept ↔
        ref ∈ kept ∨ (ref.collection = collection ∧ ref.recordId = record ∧
          (ref.fileId, ref.field) ∈ references) := by
    induction references generalizing kept with
    | nil => simp
    | cons reference rest ih =>
      rw [foldl_cons, ih]
      obtain ⟨fileId, field⟩ := reference
      obtain ⟨id, c, r, f⟩ := ref
      by_cases hmem : (⟨fileId, collection, record, field⟩ : FileRef) ∈ kept
      · simp only [if_pos hmem, mem_cons, Prod.mk.injEq]
        constructor
        · rintro (h | ⟨hc, hr, h⟩)
          · exact .inl h
          · exact .inr ⟨hc, hr, .inr h⟩
        · rintro (h | ⟨rfl, rfl, ⟨rfl, rfl⟩ | h⟩)
          · exact .inl h
          · exact .inl hmem
          · exact .inr ⟨rfl, rfl, h⟩
      · simp only [if_neg hmem, mem_append, mem_cons, Prod.mk.injEq,
          FileRef.mk.injEq]
        tauto
  rw [syncRefs, hinsert, mem_filter]
  split_ifs with hsame
  · simp only [hsame.1, hsame.2, decide_true, Bool.true_and, Bool.not_not, contains_iff_mem,
      true_and]
    exact ⟨fun h => h.elim And.right id, .inr⟩
  · constructor
    · rintro (h | ⟨hc, hr, -⟩)
      · exact h.1
      · exact absurd ⟨hc, hr⟩ hsame
    · refine fun h => .inl ⟨h, ?_⟩
      simp only [Bool.not_eq_true', Bool.and_eq_false_iff, decide_eq_false_iff_not]
      exact .inl (not_and_or.mp hsame)

/-- **What a record write does to the media library**: the files that the record owns are attached,
the references of its text are the rows of `_file_refs`, and no file goes. -/
theorem syncFiles_spec {store next : Store} {record : Json}
    (hid : record.get "id" = some (.string recordId))
    (h : syncFiles store collection record caller now = .ok next) :
    store.files.Attaches next.files ∧
      (∀ found ∈ fileLinksIn collection record, found.link = .owner →
        next.files.Ready found.id) ∧
      ∀ ref, ref ∈ next.refs ↔
        if ref.collection = collection.name ∧ ref.recordId = recordId then
          (ref.fileId, ref.field) ∈ referencesIn collection record
        else ref ∈ store.refs := by
  simp only [syncFiles, hid, Option.bind_some, Json.asStr] at h
  obtain ⟨⟨files, references⟩, hfold, h⟩ := bind_eq_ok.mp h
  obtain rfl := Except.ok.inj h
  obtain ⟨hattaches, hready, hreferences⟩ := foldlM_syncLink_spec hfold
  refine ⟨hattaches, hready, fun ref => ?_⟩
  rw [mem_syncRefs, show references = referencesIn collection record from hreferences]

end Sync

end LazyPock.Files
