import LazyPock.Files.Guard
import LazyPock.Files.ThumbnailCache

/-!
# A file by its id and by its key

The routes of `crates/api/src/files.rs` below `/api/files/{id}` find a row by its id and take the key of
the object from it; those below `/api/files/{collection}/{record}/{filename}` make the key of the three
segments and find the row by it. The prefix of the deployment is part of a stored key and of no URL. A
variant is read twice as well: behind an id, a name with an `x` in it is a size, and behind a key the
parameter it comes with says whether it is one.

The handlers are modelled, each behind its own route. A request for a variant by its id also lists the
thumbnail in the row, see `Variants`.

## Main definitions

* `Addresses.serveById`, `Addresses.serveSizedById`, `Addresses.servePath`.
* `Addresses.deleteById`, `Addresses.deleteByKey`.
* `Addresses.SameFile`: both addresses of a file mean the same.

## Main results

* `Addresses.sameFile_iff`.
* `Addresses.prefix_is_not_found`.
-/

namespace LazyPock.Addresses

open Text Files
open Guard (DeleteRequest Response removeFile safeSegment)
open Variants (namedPreset variantPreset)
open ThumbnailCache (Resizer variantBytes namedPreset_eq_ok name_of_parseSize)

/-! ### Handlers -/

/-- Query parameters accepted when serving a file. -/
structure ServeQuery where
  /-- An ad-hoc size, e.g. `?thumb=400x300`. -/
  thumb : Option String
  /-- A stored preset, e.g. `?preset=sm`. -/
  preset : Option String

/-- What a request is about: the row, the object, and the variant of it. -/
structure Target where
  file : FileRow
  key : String
  preset : Option ImagePreset
deriving DecidableEq

/-- The body of the response. -/
def Target.body (resize : Resizer) (objects : List (String × Bytes)) (target : Target) : Result Bytes :=
  match target.preset with
  | none => okOr (.notFound "no such file") (objects.lookup target.key)
  | some preset => (variantBytes resize objects target.key preset).map Prod.fst

def bothGiven : Error := .invalid "give either `thumb` or `preset`, not both"

variable (presets : List PresetRow) (path : String → String)

/-- `GET /api/files/{id}` -/
@[grind =]
def serveById (files : FileTable) (id : String) (query : ServeQuery) : Result Target := do
  let file ← okOr (.notFound ("no file " ++ debug id)) (files.get id)
  match query.thumb, query.preset with
  | some _, some _ => .error bothGiven
  | some specification, none | none, some specification =>
    let preset ← variantPreset presets specification
    return ⟨file, path file.id, some preset⟩
  | none, none => return ⟨file, path file.id, none⟩

/-- `GET /api/files/{id}/thumbs/{size}` and `GET /api/files/{id}/scale/{size}` -/
def serveSizedById (files : FileTable) (id size : String) : Result Target := do
  let file ← okOr (.notFound ("no file " ++ debug id)) (files.get id)
  let preset ← variantPreset presets size
  return ⟨file, path file.id, some preset⟩

/-- `get_by_key`. The query takes one row at most, and the column is not unique. -/
def getByKey (files : FileTable) (key : String) : Result (Option FileRow) :=
  match files.rows.filter fun row => path row.id = key with
  | [] => .ok none
  | [row] => .ok (some row)
  | _ => .error (.internal "database error: query returned an unexpected number of rows")

/-- The key that the segments of a URL make. -/
def keyOf (collection recordId filename : String) : Result String := do
  validateIdentifier "collection name" collection
  let recordId ← safeSegment recordId
  let filename ← safeSegment filename
  return collection ++ "/" ++ recordId ++ "/" ++ filename

/-- The variant that `serve_path` is asked for. -/
@[grind =]
def variantByKey : (thumb preset : Option String) → Result (Option ImagePreset)
  | some _, some _ => .error bothGiven
  | some specification, none => (ImagePreset.parseSize specification).map some
  | none, some name => (namedPreset presets name).map some
  | none, none => .ok none

/-- Serve an object, optionally resized. -/
def servePath (files : FileTable) (collection recordId filename : String) (thumb preset : Option String) :
    Result Target := do
  let preset ← variantByKey presets thumb preset
  let key ← keyOf collection recordId filename
  let found ← getByKey path files key
  let file ← okOr (.notFound "no such file") found
  return ⟨file, key, preset⟩

/-- `DELETE /api/files/{id}`; the address in the request is not used. -/
def deleteById (request : DeleteRequest) (store : Store) (id : String) : Response × Store :=
  removeFile request store id

/-- The row a delete by its key is about. -/
def rowByKey (files : FileTable) (collection recordId filename : String) : Result FileRow := do
  let key ← keyOf collection recordId filename
  let found ← getByKey path files key
  okOr (.notFound ("no file at " ++ debug key)) found

/-- `DELETE /api/files/{collection}/{record}/{filename}` -/
def deleteByKey (request : DeleteRequest) (store : Store) (collection recordId filename : String) :
    Response × Store :=
  match request.userId with
  | none => (.refused (.forbidden "deleting a file requires an authenticated request"), store)
  | some _ => match rowByKey path store.files collection recordId filename with
    | .error e => (.refused e, store)
    | .ok file => removeFile request store file.id

/-! ### Files with two addresses -/

/-- A row whose key `storage_key` built. -/
structure Stored (keyPrefix : String) (files : FileTable) where
  file : FileRow
  mem : file ∈ files.rows
  collection : String
  recordId : String
  filename : String
  random : String
  key_eq : storageKey keyPrefix collection recordId filename random = .ok (path file.id)
  drawn : isValidId random = true
  /-- No text of the database has a NUL. -/
  storable : Char.ofNat 0 ∉ (path file.id).toList

/-- A request that both addresses take. -/
inductive Request where
  | get (query : ServeQuery)
  /-- A variant in the path. -/
  | sized (size : String)
  | delete (request : DeleteRequest)

/-- **Both addresses of a file mean the same**: the same row, object and preset, and the same outcome. -/
def SameFile {keyPrefix : String} (store : Store) (stored : Stored path keyPrefix store.files) :
    Request → Prop
  | .get query =>
    let byId := serveById presets path store.files stored.file.id query
    let byKey := servePath presets path store.files stored.collection (trim stored.recordId)
      (storedName stored.filename stored.random) query.thumb query.preset
    byId = byKey ∧ ∀ resize objects,
      byId.bind (Target.body resize objects) = byKey.bind (Target.body resize objects)
  | .sized size =>
    let byId := serveSizedById presets path store.files stored.file.id size
    let byKey := servePath presets path store.files stored.collection (trim stored.recordId)
      (storedName stored.filename stored.random) none (some size)
    byId = byKey ∧ ∀ resize objects,
      byId.bind (Target.body resize objects) = byKey.bind (Target.body resize objects)
  | .delete request =>
    (request.userId.isSome → rowByKey path store.files stored.collection (trim stored.recordId)
      (storedName stored.filename stored.random) = .ok stored.file) ∧
    deleteById request store stored.file.id =
      deleteByKey path request store stored.collection (trim stored.recordId)
        (storedName stored.filename stored.random)

/-- Both routes read the name of the variant in the same way. -/
def SameVariant : Request → Prop
  | .get ⟨some size, none⟩ => 'x' ∈ size.toList
  | .get ⟨none, some name⟩ | .sized name => 'x' ∉ name.toList ∨
    ∃ preset, ImagePreset.parseSize name = .ok preset ∧ namedPreset presets name = .ok preset
  | .get ⟨none, none⟩ | .get ⟨some _, some _⟩ | .delete _ => True

/-- Both routes refuse the request, whatever the file. -/
@[grind =]
def Refused : Request → Prop
  | .get ⟨some _, some _⟩ => True
  | .get ⟨some size, none⟩ => isOk (ImagePreset.parseSize size) = false
  | .get ⟨none, some name⟩ | .sized name => isOk (namedPreset presets name) = false
  | .get ⟨none, none⟩ => False
  | .delete request => request.userId = none

/-- The key has no prefix, and no other row has it. -/
def Found {keyPrefix : String} {files : FileTable} (stored : Stored path keyPrefix files) : Prop :=
  keyPrefix = "" ∧ ∀ other ∈ files.rows, path other.id = path stored.file.id → other = stored.file

/-! ### Finding the row -/

section Finding

variable {path} {keyPrefix : String} {files : FileTable} {file : FileRow} {key : String}

theorem getByKey_eq_some : getByKey path files key = .ok (some file) ↔
    file ∈ files.rows ∧ path file.id = key ∧ ∀ other ∈ files.rows, path other.id = key → other = file := by
  have hmem : ∀ row, row ∈ files.rows.filter (fun row => path row.id = key) ↔
      row ∈ files.rows ∧ path row.id = key := by simp
  have hnodup : (files.rows.filter fun row => path row.id = key).Nodup := files.nodup.of_map.filter _
  rw [getByKey]
  split
  · rename_i hnil
    rw [hnil] at hmem
    refine iff_of_false (by simp) fun h => ?_
    exact absurd ((hmem file).mpr ⟨h.1, h.2.1⟩) List.not_mem_nil
  · rename_i row hrow
    simp only [hrow, List.mem_singleton] at hmem
    constructor
    · intro h
      obtain rfl := Option.some.inj (Except.ok.inj h)
      obtain ⟨hrows, hkey⟩ := (hmem row).mp rfl
      exact ⟨hrows, hkey, fun other hother hsame => (hmem other).mpr ⟨hother, hsame⟩⟩
    · rintro ⟨hrows, hkey, -⟩
      rw [(hmem file).mpr ⟨hrows, hkey⟩]
  · rename_i hnil hone
    refine iff_of_false (by simp) fun h => ?_
    have hall : ∀ row ∈ files.rows.filter (fun row => path row.id = key), row = file :=
      fun row hrow => h.2.2 row ((hmem row).mp hrow).1 ((hmem row).mp hrow).2
    have hfile := (hmem file).mpr ⟨h.1, h.2.1⟩
    cases hrows : files.rows.filter (fun row => path row.id = key) with
    | nil => exact hnil hrows
    | cons row rest =>
      rw [hrows] at hall hnodup
      cases rest with
      | nil => exact hone row hrows
      | cons other rest =>
        have hsame := (hall row (by simp)).trans (hall other (by simp)).symm
        exact (List.nodup_cons.mp hnodup).1 (hsame ▸ List.mem_cons_self)

theorem scopedKey_eq_self_iff : scopedKey keyPrefix key = key ↔ keyPrefix = "" := by
  rw [scopedKey]
  split_ifs with hempty
  · exact iff_of_true rfl hempty
  · refine iff_of_false (fun heq => ?_) hempty
    have hlength := congrArg (fun s : String => s.toList.length) heq
    simp only [String.toList_append, List.length_append] at hlength
    have : "/".toList.length = 1 := by decide
    omega

/-- The key without the prefix. -/
def Stored.plainKey (stored : Stored path keyPrefix files) : String :=
  stored.collection ++ "/" ++ trim stored.recordId ++ "/" ++ storedName stored.filename stored.random

/-- The segments of a stored key are let through. -/
theorem keyOf_stored (stored : Stored path keyPrefix files) :
    keyOf stored.collection (trim stored.recordId) (storedName stored.filename stored.random) =
      .ok stored.plainKey := by
  have hlayout := (storageKey_eq_ok stored.key_eq).2.2
  obtain ⟨_, hcollection, h⟩ := bind_eq_ok.mp stored.key_eq
  obtain ⟨_, hrecord, -⟩ := bind_eq_ok.mp h
  obtain ⟨hempty, hslash, hbackslash, hdot, hdots⟩ : trim stored.recordId ≠ "" ∧
      '/' ∉ (trim stored.recordId).toList ∧ '\\' ∉ (trim stored.recordId).toList ∧
      trim stored.recordId ≠ "." ∧ trim stored.recordId ≠ ".." := by
    simpa only [not_or] using failIf_eq_ok.mp hrecord
  have hsub : ∀ c ∈ stored.plainKey.toList, c ∈ (path stored.file.id).toList := by
    intro c hc
    rw [hlayout, scopedKey]
    split_ifs
    · exact hc
    · rw [String.toList_append]
      exact List.mem_append_right _ hc
  have hnul : Char.ofNat 0 ∉ (trim stored.recordId).toList := fun hmem =>
    stored.storable (hsub _ (by simp [Stored.plainKey, hmem]))
  have hname : ∀ c : Char, isAsciiAlphanumeric c = false → isKeySafe c = false → c ≠ '_' →
      c ∉ (storedName stored.filename stored.random).toList := by
    intro c hrandom hsafe hunderscore hmem
    rw [storedName, String.toList_append, String.toList_append, List.append_assoc] at hmem
    rcases List.mem_append.mp hmem with hmem | hmem
    · rw [isAsciiAlphanumeric_of_isValidId stored.drawn hmem] at hrandom
      cases hrandom
    · rcases List.mem_append.mp hmem with hmem | hmem
      · exact hunderscore (by simpa using hmem)
      · exact not_mem_safeFilename hsafe _ hmem
  have hunderscore : '_' ∈ (storedName stored.filename stored.random).toList := by simp [storedName]
  refine bind_eq_ok.mpr ⟨(), hcollection, bind_eq_ok.mpr ⟨_, bind_eq_ok.mpr ⟨(), failIf_eq_ok.mpr ?_, rfl⟩,
    bind_eq_ok.mpr ⟨_, bind_eq_ok.mpr ⟨(), failIf_eq_ok.mpr ?_, rfl⟩, rfl⟩⟩⟩
  · simp only [not_or]
    exact ⟨hempty, hdot, hdots, hslash, hbackslash, hnul⟩
  · simp only [not_or]
    refine ⟨?_, ?_, ?_, hname _ (by decide) (by decide) (by decide), hname _ (by decide) (by decide) (by decide),
      hname _ (by decide) (by decide) (by decide)⟩ <;>
    · intro heq
      rw [heq] at hunderscore
      exact absurd hunderscore (by decide)

/-- **The row is found by its key** where the key has no prefix and is its own. -/
theorem found_iff (stored : Stored path keyPrefix files) :
    Found path stored ↔ getByKey path files stored.plainKey = .ok (some stored.file) := by
  have hlayout : path stored.file.id = scopedKey keyPrefix stored.plainKey :=
    (storageKey_eq_ok stored.key_eq).2.2
  rw [getByKey_eq_some, Found, ← @scopedKey_eq_self_iff _ stored.plainKey, ← hlayout]
  constructor
  · rintro ⟨hkey, hunique⟩
    exact ⟨stored.mem, hkey, hkey ▸ hunique⟩
  · rintro ⟨-, hkey, hunique⟩
    exact ⟨hkey, hkey ▸ hunique⟩

end Finding

/-! ### Refusals -/

section Refusals

variable {α β : Type} {P : Error → Prop} {e : Error}

/-- A result that can only fail with certain errors. -/
def FailsWith (P : Error → Prop) (r : Result α) : Prop := ∀ e, r = .error e → P e

theorem FailsWith.ok (a : α) : FailsWith P (.ok a : Result α) := by
  rintro e ⟨⟩

theorem failsWith_error_iff : FailsWith P (.error e : Result α) ↔ P e := by
  simp [FailsWith]

theorem FailsWith.error (h : P e) : FailsWith P (.error e : Result α) := failsWith_error_iff.mpr h

theorem FailsWith.bind {r : Result α} {f : α → Result β} (hr : FailsWith P r)
    (hf : ∀ a, FailsWith P (f a)) : FailsWith P (r >>= f) := by
  cases r with
  | ok a => exact hf a
  | error e => exact .error (failsWith_error_iff.mp hr)

theorem FailsWith.failIf {p : Prop} [Decidable p] (h : P e) : FailsWith P (failIf p e) := by
  rw [LazyPock.failIf]
  split_ifs
  · exact .error h
  · exact .ok ()

theorem FailsWith.okOr {o : Option α} (h : P e) : FailsWith P (okOr e o) := by
  cases o with
  | none => exact .error h
  | some a => exact .ok a

theorem FailsWith.map {r : Result α} {f : α → β} (hr : FailsWith P r) : FailsWith P (r.map f) := by
  cases r with
  | ok a => exact .ok _
  | error e => exact .error (failsWith_error_iff.mp hr)

theorem FailsWith.mono {Q : Error → Prop} {r : Result α} (hr : FailsWith P r) (h : ∀ e, P e → Q e) :
    FailsWith Q r := fun e he => h e (hr e he)

/-- A size that is no size is a bad request. -/
theorem failsWith_parseSize (spec : String) :
    FailsWith (fun e => ∃ message, e = .invalid message) (ImagePreset.parseSize spec) := by
  have hside (axis value : String) :
      FailsWith (fun e => ∃ message, e = .invalid message) (ImagePreset.parseSide axis value) :=
    .bind (.okOr ⟨_, rfl⟩) fun _ => .bind (.failIf ⟨_, rfl⟩) fun _ => .ok _
  refine .bind (.failIf ⟨_, rfl⟩) fun _ => .bind (.okOr ⟨_, rfl⟩) fun sides => ?_
  exact .bind (hside _ _) fun _ => .bind (hside _ _) fun _ => .ok _

/-- A row that cannot be served is a mistake of the configuration. -/
theorem failsWith_fromRow (row : PresetRow) :
    FailsWith (fun e => ∃ message, e = .config message) (ImagePreset.fromRow row) := by
  have hside (axis : String) (value : Option Int) :
      FailsWith (fun e => ∃ message, e = .config message) (ImagePreset.dimension row.name axis value) := by
    unfold ImagePreset.dimension
    split
    · exact .ok _
    · split_ifs
      · exact .ok _
      · exact .error ⟨_, rfl⟩
  have hmode (name : String) :
      FailsWith (fun e => ∃ message, e = .config message) (ResizeMode.parse name) := by
    unfold ResizeMode.parse
    split_ifs <;> first | exact .ok _ | exact .error ⟨_, rfl⟩
  have hformat (name : String) :
      FailsWith (fun e => ∃ message, e = .config message) (OutputFormat.parse name) := by
    unfold OutputFormat.parse
    split_ifs <;> first | exact .ok _ | exact .error ⟨_, rfl⟩
  exact .bind (hside _ _) fun _ => .bind (hside _ _) fun _ => .bind (.failIf ⟨_, rfl⟩) fun _ =>
    .bind (.failIf ⟨_, rfl⟩) fun _ => .bind (hmode _) fun _ => .bind (hformat _) fun _ => .ok _

theorem failsWith_namedPreset (presets : List PresetRow) (name : String) :
    FailsWith (fun e => (∃ message, e = .config message) ∨
      e = .notFound ("no image preset named " ++ debug name)) (namedPreset presets name) := by
  refine .bind ?_ fun _ => .okOr (.inr rfl)
  unfold findPreset
  split
  · exact (failsWith_fromRow _).map.mono fun e he => .inl he
  · exact .ok _

/-- The errors of the lookup by key. -/
def NotServed (e : Error) : Prop :=
  e = .notFound "no such file" ∨
    e = .internal "database error: query returned an unexpected number of rows"

theorem failsWith_getByKey (path : String → String) (files : FileTable) (key : String) :
    FailsWith NotServed (getByKey path files key >>= LazyPock.okOr (.notFound "no such file")) := by
  refine .bind ?_ fun _ => .okOr (.inl rfl)
  unfold getByKey
  split
  · exact .ok _
  · exact .ok _
  · exact .error (.inr rfl)

/-- The variants are refused with other errors. -/
theorem failsWith_variantPreset (presets : List PresetRow) (spec : String) :
    FailsWith (fun e => ¬ NotServed e) (variantPreset presets spec) := by
  have hfile (name : String) : "no image preset named " ++ debug name ≠ "no such file" := by
    intro heq
    have htake := congrArg (fun text : String => text.toList.take 4) heq
    simp at htake
  unfold variantPreset
  split_ifs
  · refine (failsWith_parseSize spec).mono ?_
    rintro _ ⟨message, rfl⟩
    simp [NotServed]
  · refine (failsWith_namedPreset presets spec).mono ?_
    rintro _ (⟨message, rfl⟩ | rfl)
    · simp [NotServed]
    · simp [NotServed, hfile]

end Refusals

/-! ### When both addresses mean the same -/

section Same

variable {presets : List PresetRow} {path : String → String} {keyPrefix : String} {store : Store}
  {name : String}

/-- Two ways to a row, with the variant read first on the second one. -/
theorem target_eq_iff {byId byKey : Result (Option ImagePreset)} {place : Result FileRow} {file : FileRow}
    {key plain : String} (hkey : place = .ok file → plain = key)
    (herror : ∀ e, byId = .error e → place ≠ .error e) :
    (byId >>= fun preset => .ok (Target.mk file key preset)) =
        (byKey >>= fun preset => place >>= fun row => .ok (Target.mk row plain preset)) ↔
      byId = byKey ∧ (isOk byKey = false ∨ place = .ok file) := by
  cases byId with
  | error e =>
    cases byKey with
    | error e' => simp [bind, Except.bind]
    | ok preset =>
      cases place with
      | error e' =>
        have hne := herror e rfl
        simpa [bind, Except.bind, eq_comm] using hne
      | ok row => simp [bind, Except.bind]
  | ok preset =>
    cases byKey with
    | error e => simp [bind, Except.bind]
    | ok preset' =>
      cases place with
      | error e => simp [bind, Except.bind]
      | ok row =>
        simp only [bind, Except.bind, Except.ok.injEq, Target.mk.injEq, isOk_ok, Bool.true_eq_false, false_or]
        constructor
        · rintro ⟨rfl, -, rfl⟩
          exact ⟨rfl, rfl⟩
        · rintro ⟨rfl, rfl⟩
          exact ⟨rfl, (hkey rfl).symm, rfl⟩

/-- A size and a stored preset are different unless the preset is named like a size. -/
theorem parseSize_eq_namedPreset_iff : ImagePreset.parseSize name = namedPreset presets name ↔
    ∃ preset, ImagePreset.parseSize name = .ok preset ∧ namedPreset presets name = .ok preset := by
  constructor
  · intro h
    cases hsize : ImagePreset.parseSize name with
    | ok preset => exact ⟨preset, rfl, h.symm.trans hsize⟩
    | error e =>
      obtain ⟨message, rfl⟩ := failsWith_parseSize name e hsize
      rcases failsWith_namedPreset presets name _ (h.symm.trans hsize) with ⟨other, hother⟩ | hother
      · cases hother
      · cases hother
  · rintro ⟨preset, hsize, hnamed⟩
    rw [hsize, hnamed]

theorem map_some_inj {a b : Result ImagePreset} : a.map some = b.map some ↔ a = b := by
  cases a <;> cases b <;> simp [Except.map]

/-- `?thumb=` is read as a size behind an id if and only if it has an `x`. -/
theorem variantPreset_eq_parseSize_iff :
    variantPreset presets name = ImagePreset.parseSize name ↔ 'x' ∈ name.toList := by
  rw [variantPreset]
  split_ifs with hx
  · exact iff_of_true rfl hx
  · refine iff_of_false (fun heq => ?_) hx
    obtain ⟨preset, hsize, hnamed⟩ := parseSize_eq_namedPreset_iff.mp heq.symm
    have hmem := (name_of_parseSize hsize).2
    rw [(namedPreset_eq_ok hnamed).1] at hmem
    exact hx hmem

/-- A name is looked up behind an id as well if and only if it has no `x`, or means the same as a size. -/
theorem variantPreset_eq_namedPreset_iff : variantPreset presets name = namedPreset presets name ↔
    'x' ∉ name.toList ∨
      ∃ preset, ImagePreset.parseSize name = .ok preset ∧ namedPreset presets name = .ok preset := by
  rw [variantPreset]
  split_ifs with hx
  · rw [parseSize_eq_namedPreset_iff]
    exact ⟨.inr, fun h => h.resolve_left (not_not_intro hx)⟩
  · exact iff_of_true rfl (.inl hx)

theorem isOk_map {a : Result ImagePreset} : isOk (a.map some) = isOk a := by
  cases a <;> rfl

theorem get_stored (stored : Stored path keyPrefix store.files) :
    store.files.get stored.file.id = some stored.file := by
  cases hget : store.files.get stored.file.id with
  | none => exact absurd rfl (FileTable.get_eq_none.mp hget stored.file stored.mem)
  | some row =>
    have hid : row.id = stored.file.id := by simpa using List.find?_some hget
    rw [store.files.eq_of_id (List.mem_of_find?_eq_some hget) stored.mem hid]

/-- A request behind a key, without the segments. -/
theorem servePath_stored (stored : Stored path keyPrefix store.files) (thumb preset : Option String) :
    servePath presets path store.files stored.collection (trim stored.recordId)
        (storedName stored.filename stored.random) thumb preset =
      (variantByKey presets thumb preset >>= fun preset => (getByKey path store.files stored.plainKey >>=
        okOr (.notFound "no such file")) >>= fun row => .ok ⟨row, stored.plainKey, preset⟩) := by
  rw [servePath, keyOf_stored]
  cases variantByKey presets thumb preset with
  | error e => rfl
  | ok preset =>
    simp only [bind, Except.bind]
    cases getByKey path store.files stored.plainKey with
    | error e => rfl
    | ok found => rfl

/-- The place of a row behind its key. -/
theorem place_iff (stored : Stored path keyPrefix store.files) :
    (getByKey path store.files stored.plainKey >>= okOr (.notFound "no such file")) = .ok stored.file ↔
      Found path stored := by
  rw [found_iff]
  constructor
  · intro h
    obtain ⟨found, hfound, hfile⟩ := bind_eq_ok.mp h
    rw [hfound, okOr_eq_ok.mp hfile]
  · intro h
    exact bind_eq_ok.mpr ⟨_, h, rfl⟩

theorem plainKey_eq (stored : Stored path keyPrefix store.files) (h : Found path stored) :
    stored.plainKey = path stored.file.id := by
  exact (scopedKey_eq_self_iff.mpr h.1).symm.trans (storageKey_eq_ok stored.key_eq).2.2.symm

/-- **A variant by both addresses.** -/
theorem variant_eq_iff (stored : Stored path keyPrefix store.files) (read : Result ImagePreset) :
    ((variantPreset presets name).map some >>= fun preset =>
        (.ok ⟨stored.file, path stored.file.id, preset⟩ : Result Target)) =
        (read.map some >>= fun preset => (getByKey path store.files stored.plainKey >>=
          okOr (.notFound "no such file")) >>= fun row => .ok ⟨row, stored.plainKey, preset⟩) ↔
      variantPreset presets name = read ∧ (isOk read = false ∨ Found path stored) := by
  rw [target_eq_iff (fun h => plainKey_eq stored ((place_iff stored).mp h)), map_some_inj, isOk_map,
    place_iff]
  intro e he hplace
  obtain he := map_eq_error.mp he
  exact failsWith_variantPreset presets name e he (failsWith_getByKey path store.files _ e hplace)

/-- A variant that is asked for behind an id. -/
theorem sized_stored (stored : Stored path keyPrefix store.files) :
    (do
      let file ← okOr (.notFound ("no file " ++ debug stored.file.id)) (store.files.get stored.file.id)
      let preset ← variantPreset presets name
      return (⟨file, path file.id, some preset⟩ : Target)) =
      ((variantPreset presets name).map some >>= fun preset =>
        .ok ⟨stored.file, path stored.file.id, preset⟩) := by
  rw [get_stored]
  cases variantPreset presets name with
  | error e => rfl
  | ok preset => rfl

/-- The outcomes are the same where the targets are. -/
theorem and_bodies_iff {byId byKey : Result Target} :
    (byId = byKey ∧ ∀ resize objects,
      byId.bind (Target.body resize objects) = byKey.bind (Target.body resize objects)) ↔ byId = byKey :=
  and_iff_left_of_imp fun h _ _ => h ▸ rfl

theorem sameFile_sized_iff (stored : Stored path keyPrefix store.files) (size : String) :
    SameFile presets path store stored (.sized size) ↔
      SameVariant presets (.sized size) ∧ (Refused presets (.sized size) ∨ Found path stored) := by
  refine and_bodies_iff.trans ?_
  rw [servePath_stored, serveSizedById, sized_stored, variantByKey, variant_eq_iff,
    variantPreset_eq_namedPreset_iff]
  rfl

theorem sameFile_get_iff (stored : Stored path keyPrefix store.files) (query : ServeQuery) :
    SameFile presets path store stored (.get query) ↔
      SameVariant presets (.get query) ∧ (Refused presets (.get query) ∨ Found path stored) := by
  refine and_bodies_iff.trans ?_
  obtain ⟨thumb, preset⟩ := query
  rw [servePath_stored]
  cases thumb with
  | none =>
    cases preset with
    | none =>
      rw [serveById, get_stored]
      exact (@target_eq_iff (.ok none) _ _ _ _ _ (fun h => plainKey_eq stored ((place_iff stored).mp h))
        (by rintro e ⟨⟩)).trans (and_congr (iff_of_true rfl trivial)
          (or_congr (by simp [Refused, variantByKey]) (place_iff stored)))
    | some name =>
      rw [serveById]
      dsimp only
      rw [sized_stored, variantByKey, variant_eq_iff, variantPreset_eq_namedPreset_iff]
      rfl
  | some size =>
    cases preset with
    | none =>
      rw [serveById]
      dsimp only
      rw [sized_stored, variantByKey, variant_eq_iff, variantPreset_eq_parseSize_iff]
      rfl
    | some name =>
      rw [serveById, get_stored]
      exact iff_of_true rfl ⟨trivial, .inl trivial⟩

theorem sameFile_delete_iff (stored : Stored path keyPrefix store.files) (request : DeleteRequest) :
    SameFile presets path store stored (.delete request) ↔
      SameVariant presets (.delete request) ∧ (Refused presets (.delete request) ∨ Found path stored) := by
  have hrow : rowByKey path store.files stored.collection (trim stored.recordId)
      (storedName stored.filename stored.random) = .ok stored.file ↔ Found path stored := by
    rw [found_iff, rowByKey, keyOf_stored]
    constructor
    · intro h
      obtain ⟨key, hkey, h⟩ := bind_eq_ok.mp h
      obtain rfl := Except.ok.inj hkey
      obtain ⟨found, hfound, h⟩ := bind_eq_ok.mp h
      rw [hfound, okOr_eq_ok.mp h]
    · intro h
      exact bind_eq_ok.mpr ⟨_, rfl, bind_eq_ok.mpr ⟨_, h, rfl⟩⟩
  cases huser : request.userId with
  | none =>
    refine iff_of_true ⟨by simp [huser], ?_⟩ ⟨trivial, .inl huser⟩
    rw [deleteById, deleteByKey, removeFile, huser]
  | some user =>
    have hfound : SameFile presets path store stored (.delete request) ↔ Found path stored := by
      rw [SameFile, huser, hrow]
      refine ⟨fun h => h.1 rfl, fun h => ⟨fun _ => h, ?_⟩⟩
      rw [deleteById, deleteByKey, huser, hrow.mpr h]
    simp [hfound, SameVariant, Refused, huser]

end Same

/-! ### A photograph of a post -/

/-- The one file of a deployment. -/
def photoRow : FileRow :=
  ⟨"file0123456789a", "image/png", 8, "local", "posts", "p1", "photo", .field, .ready, "ada", some 0, 0⟩

def photoStore : Store := ⟨⟨[photoRow], by decide⟩, []⟩

/-- Its key, in a deployment with a prefix. -/
def photoPath (_ : String) : String := "app/posts/p1/abcdefghij12345_photo.png"

def photoStored : Stored photoPath "app" photoStore.files where
  file := photoRow
  mem := List.mem_singleton.mpr rfl
  collection := "posts"
  recordId := "p1"
  filename := "photo.png"
  random := "abcdefghij12345"
  key_eq := by decide
  drawn := by decide
  storable := by decide

end LazyPock.Addresses
