import LazyPock.Backup.Archive
import LazyPock.Core.JsonText

/-!
# Backup documents

The two documents an archive is kept as (`crates/db/src/backup.rs`): the payload that holds everything in
one value, and the zip file with its manifest, the definitions and one record a line for every collection.
The zip layer and `serde_json::from_str` are parameters, and the place in an error of the reader is left
out. A document is read through a value: where the code's reader refuses a key that comes twice, the last
one stays here.

## Main definitions

* `Backup.Manifest`, `Backup.StoredArchive`.
* `Backup.ZipLayer`: what is asked of the zip layer.
* `Backup.write`, `Backup.read`.
* `Backup.ArchiveCollection.asRead`: a collection whose rules, where `null`, are absent.
* `Backup.StoredArchive.Restorable`: the archives that are read again.

## Main results

* `Backup.archiveFromPayload_toPayload`: what the single document holds.
* `Backup.lines_ndjson`: the lines of a data entry are its records.
* `Backup.documents_round_trip_iff`.
-/

namespace LazyPock.Backup

open Text Assoc

/-! ### The manifest -/

/-- One collection's line in the manifest. -/
structure ManifestCollection where
  name : String
  collectionType : Option String
  records : UInt64
deriving DecidableEq

/-- Upload totals. -/
structure ManifestFiles where
  total : UInt64
  bytes : UInt64
  missing : UInt64
deriving DecidableEq

/-- Overall totals. -/
structure ManifestTotals where
  collections : UInt64
  records : UInt64
  files : UInt64
deriving DecidableEq

structure Manifest where
  format : String
  formatVersion : UInt32
  lazypockVersion : Option String
  createdAt : Option String
  collections : List ManifestCollection
  files : Option ManifestFiles
  totals : Option ManifestTotals
deriving DecidableEq

/-- The entries of a structure: a map, or a sequence of the values alone. -/
@[grind =]
def structEntries (expected : String) (keys : List String) : Json → Except String (List (String × Json))
  | .object entries => .ok entries
  | .array items =>
    if keys.length < items.length then
      .error ("invalid length " ++ toString items.length ++ ", expected fewer elements in array")
    else .ok (keys.zip items)
  | other => CreateField.typeError other ("struct " ++ expected)

/-- An unsigned integer, where it fits. -/
def unsigned (expected : String) (bound : ℕ) : Json → Except String ℕ
  | .number (.posInt n) =>
    if n < bound then .ok n
    else .error ("invalid value: integer `" ++ toString n ++ "`, expected " ++ expected)
  | .number (.negInt n) =>
    .error ("invalid value: integer `" ++ Json.renderNumber (.negInt n) ++ "`, expected " ++ expected)
  | other => CreateField.typeError other expected

/-- A count, zero when it is absent. -/
def countKey (entries : List (String × Json)) (key : String) : Except String UInt64 :=
  match lookup key entries with
  | none => .ok 0
  | some value => (unsigned "u64" (2 ^ 64) value).map UInt64.ofNat

/-- A structure that may be absent or `null`. -/
def optionalStruct {α : Type} (entries : List (String × Json)) (key : String)
    (read : Json → Except String α) : Except String (Option α) :=
  match optionalKey entries key with
  | none => .ok none
  | some value => (read value).map some

def ofCount (n : UInt64) : Json := .number (.posInt n.toNat)

def ofOptional {α : Type} (f : α → Json) (value : Option α) : Json := (value.map f).getD .null

def ManifestCollection.toJson (collection : ManifestCollection) : Json :=
  .object [("name", .string collection.name), ("type", ofOptional .string collection.collectionType),
    ("records", ofCount collection.records)]

def ManifestCollection.deserialize (value : Json) : Except String ManifestCollection := do
  let entries ← structEntries "ManifestCollection" ["name", "type", "records"] value
  return ⟨← CreateField.stringKey entries "name", ← optionalString entries "type",
    ← countKey entries "records"⟩

def ManifestFiles.toJson (files : ManifestFiles) : Json :=
  .object [("total", ofCount files.total), ("bytes", ofCount files.bytes),
    ("missing", ofCount files.missing)]

def ManifestFiles.deserialize (value : Json) : Except String ManifestFiles := do
  let entries ← structEntries "ManifestFiles" ["total", "bytes", "missing"] value
  return ⟨← countKey entries "total", ← countKey entries "bytes", ← countKey entries "missing"⟩

def ManifestTotals.toJson (totals : ManifestTotals) : Json :=
  .object [("collections", ofCount totals.collections), ("records", ofCount totals.records),
    ("files", ofCount totals.files)]

def ManifestTotals.deserialize (value : Json) : Except String ManifestTotals := do
  let entries ← structEntries "ManifestTotals" ["collections", "records", "files"] value
  return ⟨← countKey entries "collections", ← countKey entries "records", ← countKey entries "files"⟩

def Manifest.toJson (manifest : Manifest) : Json :=
  .object [("format", .string manifest.format),
    ("format_version", .number (.posInt manifest.formatVersion.toNat)),
    ("lazypock_version", ofOptional .string manifest.lazypockVersion),
    ("created_at", ofOptional .string manifest.createdAt),
    ("collections", .array (manifest.collections.map ManifestCollection.toJson)),
    ("files", ofOptional ManifestFiles.toJson manifest.files),
    ("totals", ofOptional ManifestTotals.toJson manifest.totals)]

@[grind =]
def Manifest.deserialize (value : Json) : Except String Manifest := do
  let entries ← structEntries "Manifest" ["format", "format_version", "lazypock_version", "created_at",
    "collections", "files", "totals"] value
  let format ← CreateField.stringKey entries "format"
  let formatVersion ← match lookup "format_version" entries with
    | none => .error "missing field `format_version`"
    | some value => unsigned "u32" (2 ^ 32) value
  let lazypockVersion ← optionalString entries "lazypock_version"
  let createdAt ← optionalString entries "created_at"
  let collections ← arrayKey entries "collections"
  let collections ← collections.mapM ManifestCollection.deserialize
  let files ← optionalStruct entries "files" ManifestFiles.deserialize
  let totals ← optionalStruct entries "totals" ManifestTotals.deserialize
  return ⟨format, UInt32.ofNat formatVersion, lazypockVersion, createdAt, collections, files, totals⟩

/-! ### The zip file -/

def archiveFormat : String := "lazypock-archive"

def archiveFormatVersion : UInt32 := 1

def manifestEntry : String := "manifest.json"

def schemaEntry : String := "schema.json"

def filesEntry : String := "files.ndjson"

/-- The entry with the records of a collection. -/
def dataEntry (name : String) : String := "data/" ++ name ++ ".ndjson"

/-- An archive with its manifest. -/
structure StoredArchive where
  manifest : Manifest
  archive : Archive

/-- The zip layer: it returns the texts it was given. -/
structure ZipLayer where
  /-- What is written. -/
  File : Type
  write : List (String × String) → Result File
  /-- The text of an entry, where there is one. -/
  readText : File → String → Result (Option String)
  readText_write : ∀ entries : List (String × String), (entries.map Prod.fst).Nodup →
    ∃ file, write entries = .ok file ∧ ∀ name, readText file name = .ok (lookup name entries)

/-- A collection, its keys in the order they are declared in. -/
def ArchiveCollection.serialize (collection : ArchiveCollection) : Json :=
  .object [("name", .string collection.name), ("type", ofOptional .string collection.collectionType),
    ("schema", .array collection.schema), ("rules", collection.rules.getD .null),
    ("options", collection.options.getD .null), ("records", .array collection.records)]

/-- What `schema.json` holds. -/
def schemaJson (collections : List ArchiveCollection) : Json :=
  .object [("collections", .array (collections.map ArchiveCollection.serialize))]

def deserializeSchema (value : Json) : Except String (List ArchiveCollection) := do
  let entries ← structEntries "ArchiveSchema" ["collections"] value
  match lookup "collections" entries with
  | some collections => readCollections collections
  | none => .error "missing field `collections`"

/-- One record a line. -/
def ndjson : List Json → String
  | [] => ""
  | record :: rest => record.render ++ "\n" ++ ndjson rest

/-- The entries of an archive, the manifest first. -/
def StoredArchive.entries (stored : StoredArchive) : List (String × String) :=
  (manifestEntry, stored.manifest.toJson.render) ::
    (schemaEntry, (schemaJson stored.archive.collections).render) ::
      (stored.archive.data.map (fun entry => (dataEntry entry.1, ndjson entry.2)) ++ [(filesEntry, "")])

/-- Write an archive. -/
def write (zip : ZipLayer) (stored : StoredArchive) : Result zip.File := zip.write stored.entries

/-- A line with its line break cut off: `\r\n` is one, too. -/
def stripReturn (line : String) : String := (stripSuffix "\r" line).getD line

/-- `str::lines` -/
def lines (text : String) : List String :=
  let pieces := splitOn '\n' text
  -- What stands behind the last line break is a line only if there is something.
  pieces.dropLast.map stripReturn ++ if pieces.getLastD "" = "" then [] else [pieces.getLastD ""]

/-- The records of a data entry. Blank lines are passed over. -/
def readRecords (reader : JsonReader) (entry text : String) : Result (List Json) :=
  ((lines text).zipIdx.filter fun line => trim line.1 ≠ "").mapM fun line =>
    (reader.fromStr line.1).mapError fun err =>
      .invalid (entry ++ " line " ++ toString (line.2 + 1) ++ " is not valid JSON: " ++ err)

/-- Read an entry, or fail naming it. -/
def readJson {α : Type} (zip : ZipLayer) (reader : JsonReader) (file : zip.File) (name : String)
    (deserialize : Json → Except String α) : Result α := do
  let text ← zip.readText file name
  let text ← okOr (.invalid ("the archive has no " ++ name)) text
  (reader.fromStr text >>= deserialize).mapError fun err =>
    .invalid (name ++ " is not valid JSON: " ++ err)

/-- The records of a collection. -/
def readData (zip : ZipLayer) (reader : JsonReader) (file : zip.File) (name : String) :
    Result (String × List Json) := do
  match ← zip.readText file (dataEntry name) with
  -- A collection with no data entry carries no records.
  | none => return (name, [])
  | some text => return (name, ← readRecords reader (dataEntry name) text)

/-- Read an archive: the manifest is checked before anything else is trusted. -/
def read (zip : ZipLayer) (reader : JsonReader) (file : zip.File) : Result StoredArchive := do
  let manifest ← readJson zip reader file manifestEntry Manifest.deserialize
  failIf (manifest.format ≠ archiveFormat) (.invalid ("this is not a lazypock archive (format " ++
    debug manifest.format ++ ", expected " ++ debug archiveFormat ++ ")"))
  failIf (archiveFormatVersion < manifest.formatVersion) (.invalid ("the archive is format version " ++
    toString manifest.formatVersion ++ " but this server understands " ++
    toString archiveFormatVersion ++
    "; a newer archive may contain things this version would silently drop"))
  let collections ← readJson zip reader file schemaEntry deserializeSchema
  let data ← collections.mapM fun collection => readData zip reader file collection.name
  return ⟨manifest, collections, data⟩

/-! ### What a document can hold -/

/-- A collection as it is read again: rules that are `null` are absent. -/
def ArchiveCollection.asRead (collection : ArchiveCollection) : ArchiveCollection :=
  { collection with rules := collection.rules.filter fun value => !value.isNull }

/-- The archives that the server makes: names that differ, the records apart from the definitions. -/
structure Archive.Canonical (archive : Archive) : Prop where
  names : (archive.collections.map ArchiveCollection.name).Nodup
  data : archive.data.map Prod.fst = archive.collections.map ArchiveCollection.name
  options : ∀ collection ∈ archive.collections, ∃ entries, collection.options = some (.object entries)
  records : ∀ collection ∈ archive.collections, collection.records = []

/-- A value of `serde_json`: the objects are maps, and the numbers are in range. -/
def IsValue (value : Json) : Prop := value.ordered = true ∧ value.inRange = true

instance (value : Json) : Decidable (IsValue value) :=
  inferInstanceAs (Decidable (value.ordered = true ∧ value.inRange = true))

/-- The values in a collection are values of `serde_json`. -/
structure ArchiveCollection.Values (collection : ArchiveCollection) : Prop where
  schema : ∀ field ∈ collection.schema, IsValue field
  rules : ∀ rules ∈ collection.rules, IsValue rules
  options : ∀ options ∈ collection.options, IsValue options

structure Archive.Values (archive : Archive) : Prop where
  collections : ∀ collection ∈ archive.collections, collection.Values
  data : ∀ entry ∈ archive.data, ∀ record ∈ entry.2, IsValue record

/-! ### The single document -/

/-- A list of steps each of which is known. -/
theorem mapM_eq_ok {ε α β : Type} {f : α → Except ε β} {g : α → β} {items : List α}
    (h : ∀ a ∈ items, f a = .ok (g a)) : items.mapM f = .ok (items.map g) := by
  induction items with
  | nil => rfl
  | cons a items ih =>
    obtain ⟨ha, hitems⟩ := List.forall_mem_cons.mp h
    rw [List.mapM_cons, ha, ih hitems]
    rfl

/-- A collection is read from what is found under its keys. -/
theorem deserialize_of_lookup {entries options : List (String × Json)} {name : String}
    {collectionType : Option String} {schema records : List Json} {rules : Json}
    (hname : lookup "name" entries = some (.string name))
    (htype : lookup "type" entries = some (ofOptional .string collectionType))
    (hschema : lookup "schema" entries = some (.array schema))
    (hrules : lookup "rules" entries = some rules)
    (hoptions : lookup "options" entries = some (.object options))
    (hrecords : lookup "records" entries = some (.array records))
    (hfields : lookup "fields" entries = none) (hquery : lookup "viewQuery" entries = none)
    (hbuilder : lookup "viewBuilder" entries = none) :
    ArchiveCollection.deserialize (.object entries) = .ok ⟨name, collectionType, schema,
      (some rules).filter fun value => !value.isNull, some (.object options), records⟩ := by
  have hname : CreateField.stringKey entries "name" = .ok name := by rw [CreateField.stringKey, hname]
  have htype : optionalString entries "type" = .ok collectionType := by
    rw [optionalString, optionalKey, htype]
    cases collectionType <;> rfl
  have hschema : optionalArray entries "schema" = .ok (some schema) := by
    rw [optionalArray, optionalKey, hschema]
    rfl
  have hfields : optionalArray entries "fields" = .ok none := by
    rw [optionalArray, optionalKey, hfields]
    rfl
  have hquery : optionalString entries "viewQuery" = .ok none := by
    rw [optionalString, optionalKey, hquery]
    rfl
  have hrecords : arrayKey entries "records" = .ok records := by rw [arrayKey, hrecords]
  have hbuilder : optionalKey entries "viewBuilder" = none := by rw [optionalKey, hbuilder]; rfl
  have hoptions : optionalKey entries "options" = some (.object options) := by
    rw [optionalKey, hoptions]
    rfl
  rw [ArchiveCollection.deserialize, wireEntries]
  simp only [bind, Except.bind, hname, htype, hschema, hfields, hquery, hrecords, hoptions, hbuilder]
  rw [optionalKey, hrules]
  rfl

section Payload

variable {collection : ArchiveCollection} {archive : Archive}

theorem asRead_rules (rules : Option Json) :
    (some (rules.getD .null)).filter (fun value => !value.isNull) =
      rules.filter fun value => !value.isNull := by
  cases rules <;> rfl

/-- A collection of the payload is read as it was, with the records it has there. -/
theorem deserialize_toJson {options : List (String × Json)}
    (h : collection.options = some (.object options)) (records : List Json) :
    ArchiveCollection.deserialize (collection.toJson records) =
      .ok { collection.asRead with records } := by
  have hread := @deserialize_of_lookup [("name", .string collection.name), ("options", .object options),
    ("records", .array records), ("rules", collection.rules.getD .null), ("schema", .array collection.schema),
    ("type", ofOptional .string collection.collectionType)] _ _ _ _ _ _
    rfl rfl rfl rfl rfl rfl rfl rfl rfl
  rw [asRead_rules, ← h] at hread
  rw [ArchiveCollection.toJson, h]
  exact hread

/-- What is found under the names of a table, each of them once. -/
theorem map_find? {α : Type} {data : List (String × α)} (h : (data.map Prod.fst).Nodup) (default : α) :
    (data.map Prod.fst).map (fun name =>
      (name, ((data.find? fun entry => entry.1 = name).map Prod.snd).getD default)) = data := by
  rw [List.map_map]
  refine (List.map_congr_left fun entry hentry => ?_).trans (List.map_id _)
  have hfind : data.find? (fun other => other.1 = entry.1) = some entry := by
    have hsome : (data.find? fun other => other.1 = entry.1).isSome :=
      List.find?_isSome.mpr ⟨entry, hentry, by simp⟩
    obtain ⟨other, hother⟩ := Option.isSome_iff_exists.mp hsome
    have hname : other.1 = entry.1 := by simpa using List.find?_some hother
    rw [hother, List.inj_on_of_nodup_map h (List.mem_of_find?_eq_some hother) hentry hname]
  simp [hfind]

/-- **The single document holds the archive**: the same collections, and the same records for each. -/
theorem archiveFromPayload_toPayload (h : archive.Canonical) :
    archiveFromPayload (toPayload archive) =
      .ok ⟨archive.collections.map ArchiveCollection.asRead, archive.data⟩ := by
  have hread : readCollections (.array (archive.collections.map fun collection =>
      collection.toJson ((archive.recordsOf collection.name).getD []))) =
        .ok (archive.collections.map fun collection =>
          { collection.asRead with records := (archive.recordsOf collection.name).getD [] }) := by
    rw [readCollections, List.mapM_map]
    refine mapM_eq_ok fun collection hmem => ?_
    obtain ⟨options, hoptions⟩ := h.options collection hmem
    exact deserialize_toJson hoptions _
  have hdata : (archive.collections.map fun collection =>
      (collection.name, (archive.recordsOf collection.name).getD [])) = archive.data := by
    have hmap := @map_find? _ archive.data (h.data ▸ h.names) []
    rw [h.data, List.map_map] at hmap
    exact hmap
  have hcollections (collection : ArchiveCollection) (hmem : collection ∈ archive.collections) :
      { collection.asRead with records := [] } = collection.asRead := by
    rw [← h.records collection hmem]
    rfl
  have hpayload : payloadCollections (toPayload archive) =
      .ok (.array (archive.collections.map fun collection =>
        collection.toJson ((archive.recordsOf collection.name).getD []))) := rfl
  rw [archiveFromPayload, hpayload]
  simp only [bind, Except.bind, hread, List.map_map]
  refine congrArg Except.ok ?_
  rw [Archive.mk.injEq]
  exact ⟨List.map_congr_left hcollections, hdata⟩

end Payload

/-! ### One record a line -/

section Lines

variable {reader : JsonReader} {records : List Json}

theorem splitOn_ndjson (h : ∀ record ∈ records, record.inRange = true) :
    splitOn '\n' (ndjson records) = records.map Json.render ++ [""] := by
  induction records with
  | nil => rfl
  | cons record rest ih =>
    obtain ⟨hrecord, hrest⟩ := List.forall_mem_cons.mp h
    have hbreak : '\n' ∉ record.render.toList := fun hmem =>
      absurd (Json.render_printable hrecord _ hmem) (by decide)
    have htext : (ndjson (record :: rest)).toList = record.render.toList ++ '\n' :: (ndjson rest).toList := by
      simp [ndjson]
    have ih := ih hrest
    rw [splitOn] at ih
    rw [splitOn, htext, splitChars_append hbreak, List.map_cons, ih, String.ofList_toList]
    rfl

theorem stripReturn_render {record : Json} (h : record.inRange = true) :
    stripReturn record.render = record.render := by
  rw [stripReturn]
  cases hstrip : stripSuffix "\r" record.render with
  | none => rfl
  | some start =>
    rw [stripSuffix_eq_some] at hstrip
    have hmem : '\r' ∈ record.render.toList := by simp [hstrip]
    exact absurd (Json.render_printable h _ hmem) (by decide)

/-- **The lines of a data entry are its records.** -/
theorem lines_ndjson (h : ∀ record ∈ records, record.inRange = true) :
    lines (ndjson records) = records.map Json.render := by
  have hreturn : (records.map Json.render).map stripReturn = records.map Json.render := by
    rw [List.map_map]
    exact List.map_congr_left fun record hmem => stripReturn_render (h record hmem)
  rw [lines, splitOn_ndjson h, List.dropLast_concat, hreturn]
  simp

theorem trim_render {record : Json} (h : record.inRange = true) : trim record.render ≠ "" := by
  obtain ⟨c, cs, hfirst, -, hspace, -⟩ := JsonText.exists_first h
  intro hempty
  have hmem := mem_trim hspace (s := record.render) (hfirst ▸ List.mem_cons_self)
  rw [hempty] at hmem
  cases hmem

/-- What is read of the lines, wherever they stand. -/
theorem mapM_lines_iff {f : String × ℕ → Result Json} (records : List Json) (start : ℕ)
    (hf : ∀ record ∈ records, ∀ n, f (record.render, n) = .ok record ↔ record.Readable reader.readFloat 127) :
    ((records.map Json.render).zipIdx start).mapM f = .ok records ↔
      ∀ record ∈ records, record.Readable reader.readFloat 127 := by
  induction records generalizing start with
  | nil => exact iff_of_true rfl (by simp)
  | cons record rest ih =>
    obtain ⟨hrecord, hrest⟩ := List.forall_mem_cons.mp hf
    rw [List.map_cons, List.zipIdx_cons, List.mapM_cons, List.forall_mem_cons, ← ih (start + 1) hrest,
      ← hrecord start]
    simp only [bind_eq_ok]
    constructor
    · rintro ⟨first, hfirst, others, hothers, h⟩
      obtain ⟨rfl, rfl⟩ := List.cons.inj (Except.ok.inj h)
      exact ⟨hfirst, hothers⟩
    · rintro ⟨hfirst, hothers⟩
      exact ⟨record, hfirst, rest, hothers, rfl⟩

/-- A value is read from its own text where it is readable. -/
theorem fromStr_eq_ok {value : Json} (h : IsValue value) :
    reader.fromStr value.render = .ok value ↔ value.Readable reader.readFloat 127 := by
  rw [← Json.reread_eq_self h.1, ← reader.fromStr_render value h.2]
  cases reader.fromStr value.render <;> simp [Except.toOption]

/-- **A data entry is read as it was written** where every record is readable. -/
theorem readRecords_ndjson (h : ∀ record ∈ records, IsValue record) (entry : String) :
    readRecords reader entry (ndjson records) = .ok records ↔
      ∀ record ∈ records, record.Readable reader.readFloat 127 := by
  have hrange (record : Json) (hmem : record ∈ records) := (h record hmem).2
  have hlines : ((lines (ndjson records)).zipIdx.filter fun line => trim line.1 ≠ "") =
      (records.map Json.render).zipIdx := by
    rw [lines_ndjson hrange, List.filter_eq_self]
    rintro ⟨line, n⟩ hmem
    obtain ⟨record, hrecord, rfl⟩ := List.mem_map.mp (List.fst_mem_of_mem_zipIdx hmem)
    simpa using trim_render (hrange record hrecord)
  rw [readRecords, hlines]
  refine mapM_lines_iff records 0 fun record hmem n => ?_
  rw [mapError_eq_ok, fromStr_eq_ok (h record hmem)]

end Lines

/-! ### Structures -/

section Structures

variable {readFloat : String → Option F64}

variable {entries : List (String × Json)}

/-- What is found after entries with different keys were inserted. -/
theorem lookup_insertAll_of_nodup {overrides : List (String × Json)}
    (h : (overrides.map Prod.fst).Nodup) (key : String) :
    lookup key (insertAll entries overrides) =
      (lookup key overrides).or (lookup key entries) := by
  induction overrides generalizing entries with
  | nil => simp [insertAll]
  | cons entry rest ih =>
    obtain ⟨k, v⟩ := entry
    obtain ⟨hk, hrest⟩ := List.nodup_cons.mp h
    have hstep : insertAll entries ((k, v) :: rest) =
        insertAll (insert k v entries) rest := rfl
    rw [hstep, ih hrest]
    by_cases heq : k = key
    · subst heq
      have hnone : lookup k rest = none := by
        cases hlookup : lookup k rest with
        | none => rfl
        | some w => exact absurd (List.mem_map_of_mem (mem_of_lookup hlookup)) hk
      simp [lookup, hnone, lookup_insert_self]
    · simp [lookup, heq, lookup_insert_of_ne (Ne.symm heq)]

theorem lookup_insertAll_nil (h : (entries.map Prod.fst).Nodup)
    (key : String) : lookup key (insertAll [] entries) = lookup key entries := by
  rw [lookup_insertAll_of_nodup h, lookup_nil, Option.or_none]

@[simp] theorem reread_null (n : ℕ) : Json.null.reread readFloat n = some .null := by cases n <;> rfl

@[simp] theorem reread_string (s : String) (n : ℕ) :
    (Json.string s).reread readFloat n = some (.string s) := by cases n <;> rfl

@[simp] theorem reread_posInt (m n : ℕ) :
    (Json.number (.posInt m)).reread readFloat n = some (.number (.posInt m)) := by cases n <;> rfl

@[simp] theorem reread_ofCount (m : UInt64) (n : ℕ) : (ofCount m).reread readFloat n = some (ofCount m) :=
  reread_posInt _ _

@[simp] theorem reread_ofOptional_string (s : Option String) (n : ℕ) :
    (ofOptional Json.string s).reread readFloat n = some (ofOptional .string s) := by
  cases s
  · exact reread_null n
  · exact reread_string _ n

/-- A structure is read again from what was printed of it. -/
def ReadsBack {α : Type} (readFloat : String → Option F64) (n : ℕ) (serialize : α → Json)
    (deserialize : Json → Except String α) (a : α) : Prop :=
  ∃ value, (serialize a).reread readFloat n = some value ∧ deserialize value = .ok a

/-- A list of structures. -/
theorem ReadsBack.items {α : Type} {n : ℕ} {serialize : α → Json} {deserialize : Json → Except String α}
    (h : ∀ a, ReadsBack readFloat n serialize deserialize a) (items : List α) :
    ∃ values, Json.rereadItems readFloat n (items.map serialize) = some values ∧
      values.mapM deserialize = .ok items := by
  induction items with
  | nil => exact ⟨[], rfl, rfl⟩
  | cons a items ih =>
    obtain ⟨value, hvalue, hread⟩ := h a
    obtain ⟨values, hvalues, hreads⟩ := ih
    refine ⟨value :: values, ?_, ?_⟩
    · rw [List.map_cons, Json.rereadItems, hvalue, hvalues]
      rfl
    · rw [List.mapM_cons, hread, hreads]
      rfl

theorem countKey_ofCount {key : String} {m : UInt64}
    (h : lookup key entries = some (ofCount m)) : countKey entries key = .ok m := by
  rw [countKey, h, ofCount]
  simp only [unsigned]
  rw [if_pos m.toNat_lt]
  simp [Except.map]

theorem optionalString_ofOptional {key : String} {s : Option String}
    (h : lookup key entries = some (ofOptional .string s)) :
    optionalString entries key = .ok s := by
  rw [optionalString, optionalKey, h]
  cases s <;> rfl

theorem stringKey_string {key s : String}
    (h : lookup key entries = some (.string s)) : CreateField.stringKey entries key = .ok s := by
  rw [CreateField.stringKey, h]

theorem arrayKey_array {key : String} {items : List Json}
    (h : lookup key entries = some (.array items)) : arrayKey entries key = .ok items := by
  rw [arrayKey, h]

theorem ManifestCollection.readsBack (n : ℕ) (collection : ManifestCollection) :
    ReadsBack readFloat (n + 1) ManifestCollection.toJson ManifestCollection.deserialize collection := by
  refine ⟨_, by simp [ManifestCollection.toJson, Json.reread, Json.rereadEntries]; rfl, ?_⟩
  have hkeys := @lookup_insertAll_nil [("name", .string collection.name),
    ("type", ofOptional .string collection.collectionType), ("records", ofCount collection.records)]
    (show ["name", "type", "records"].Nodup by decide)
  rw [ManifestCollection.deserialize, structEntries]
  simp only [bind, Except.bind, stringKey_string (hkeys "name"), optionalString_ofOptional (hkeys "type"),
    countKey_ofCount (hkeys "records")]
  rfl

theorem ManifestFiles.readsBack (n : ℕ) (files : ManifestFiles) :
    ReadsBack readFloat (n + 1) ManifestFiles.toJson ManifestFiles.deserialize files := by
  refine ⟨_, by simp [ManifestFiles.toJson, Json.reread, Json.rereadEntries]; rfl, ?_⟩
  have hkeys := @lookup_insertAll_nil [("total", ofCount files.total),
    ("bytes", ofCount files.bytes), ("missing", ofCount files.missing)]
    (show ["total", "bytes", "missing"].Nodup by decide)
  rw [ManifestFiles.deserialize, structEntries]
  simp only [bind, Except.bind, countKey_ofCount (hkeys "total"), countKey_ofCount (hkeys "bytes"),
    countKey_ofCount (hkeys "missing")]
  rfl

theorem ManifestTotals.readsBack (n : ℕ) (totals : ManifestTotals) :
    ReadsBack readFloat (n + 1) ManifestTotals.toJson ManifestTotals.deserialize totals := by
  refine ⟨_, by simp [ManifestTotals.toJson, Json.reread, Json.rereadEntries]; rfl, ?_⟩
  have hkeys := @lookup_insertAll_nil [("collections", ofCount totals.collections),
    ("records", ofCount totals.records), ("files", ofCount totals.files)]
    (show ["collections", "records", "files"].Nodup by decide)
  rw [ManifestTotals.deserialize, structEntries]
  simp only [bind, Except.bind, countKey_ofCount (hkeys "collections"),
    countKey_ofCount (hkeys "records"), countKey_ofCount (hkeys "files")]
  rfl

/-- A structure that may be absent. -/
theorem ReadsBack.optional {α : Type} {n : ℕ} {serialize : α → Json}
    {deserialize : Json → Except String α} (h : ∀ a, ReadsBack readFloat n serialize deserialize a)
    (hnull : ∀ a, ¬ deserialize .null = .ok a) (a : Option α) :
    ∃ value, (ofOptional serialize a).reread readFloat n = some value ∧
      ∀ entries key, lookup key entries = some value →
        optionalStruct entries key deserialize = .ok a := by
  cases a with
  | none =>
    refine ⟨.null, reread_null n, fun entries key hkey => ?_⟩
    rw [optionalStruct, optionalKey, hkey]
    rfl
  | some a =>
    obtain ⟨value, hvalue, hread⟩ := h a
    refine ⟨value, hvalue, fun entries key hkey => ?_⟩
    have hsome : value.isNull = false := by
      cases value with
      | null => exact absurd hread (hnull a)
      | _ => rfl
    rw [optionalStruct, optionalKey, hkey, Option.filter_some, hsome]
    simp [hread, Except.map]

/-- **The manifest is read as it was written.** -/
theorem Manifest.readsBack (n : ℕ) (manifest : Manifest) :
    ReadsBack readFloat (n + 3) Manifest.toJson Manifest.deserialize manifest := by
  obtain ⟨format, formatVersion, lazypockVersion, createdAt, collections, files, totals⟩ := manifest
  have hfilesNull : ManifestFiles.deserialize .null =
    .error "invalid type: unit value, expected struct ManifestFiles" := by decide
  have htotalsNull : ManifestTotals.deserialize .null =
    .error "invalid type: unit value, expected struct ManifestTotals" := by decide
  obtain ⟨items, hitems, hcollections⟩ :=
    ReadsBack.items (@ManifestCollection.readsBack readFloat n) collections
  obtain ⟨files', hfiles, hfilesKey⟩ :=
    ReadsBack.optional (@ManifestFiles.readsBack readFloat (n + 1)) (by simp [hfilesNull]) files
  obtain ⟨totals', htotals, htotalsKey⟩ :=
    ReadsBack.optional (@ManifestTotals.readsBack readFloat (n + 1)) (by simp [htotalsNull]) totals
  refine ⟨_, by simp [Manifest.toJson, Json.reread, Json.rereadEntries, hitems, hfiles, htotals]; rfl, ?_⟩
  have hkeys := @lookup_insertAll_nil [("format", .string format),
    ("format_version", .number (.posInt formatVersion.toNat)),
    ("lazypock_version", ofOptional .string lazypockVersion), ("created_at", ofOptional .string createdAt),
    ("collections", .array items), ("files", files'), ("totals", totals')]
    (show ["format", "format_version", "lazypock_version", "created_at", "collections", "files",
      "totals"].Nodup by decide)
  have hversion := (hkeys "format_version").trans (c := some (.number (.posInt formatVersion.toNat))) rfl
  have hbound : unsigned "u32" (2 ^ 32) (Json.number (.posInt formatVersion.toNat)) =
    .ok formatVersion.toNat := if_pos formatVersion.toNat_lt
  rw [Manifest.deserialize, structEntries]
  simp only [bind, Except.bind, stringKey_string (hkeys "format"), hversion, hbound,
    optionalString_ofOptional (hkeys "lazypock_version"), optionalString_ofOptional (hkeys "created_at"),
    arrayKey_array (hkeys "collections"), hcollections, hfilesKey _ _ (hkeys "files"), htotalsKey _ _ (hkeys "totals")]
  rw [UInt32.ofNat_toNat]
  rfl

end Structures

/-! ### The definitions -/

section Definitions

variable {readFloat : String → Option F64} {collection : ArchiveCollection} {n : ℕ}
  {options : List (String × Json)}

/-- What is read of a printed collection. -/
theorem reread_serialize (hoptions : collection.options = some (.object options))
    (hrecords : collection.records = []) {value : Json} :
    collection.serialize.reread readFloat (n + 2) = some value ↔
      ∃ schema rules options', (Json.array collection.schema).reread readFloat (n + 1) =
          some (.array schema) ∧
        (collection.rules.getD .null).reread readFloat (n + 1) = some rules ∧
        (Json.object options).reread readFloat (n + 1) = some (.object options') ∧
        value = .object (insertAll [] [("name", .string collection.name),
          ("type", ofOptional .string collection.collectionType), ("schema", .array schema),
          ("rules", rules), ("options", .object options'), ("records", .array [])]) := by
  rw [ArchiveCollection.serialize, hoptions, hrecords]
  simp only [Json.reread, Json.rereadEntries, Json.rereadItems, Option.getD_some,
    reread_ofOptional_string, Option.bind_eq_bind, Option.bind_some, Option.map_some]
  cases Json.rereadItems readFloat n collection.schema <;>
    cases (collection.rules.getD .null).reread readFloat (n + 1) <;>
      cases Json.rereadEntries readFloat n options <;> simp [eq_comm]

theorem readable_serialize (hoptions : collection.options = some (.object options))
    (hrecords : collection.records = []) :
    collection.serialize.Readable readFloat (n + 2) ↔
      (Json.array collection.schema).Readable readFloat (n + 1) ∧
        (collection.rules.getD .null).Readable readFloat (n + 1) ∧
          (Json.object options).Readable readFloat (n + 1) := by
  have htype : (ofOptional Json.string collection.collectionType).Readable readFloat (n + 1) := by
    cases collection.collectionType <;> trivial
  rw [ArchiveCollection.serialize, hoptions, hrecords]
  simp [Json.Readable, Json.ReadableEntries, Json.ReadableItems, htype]

/-- What the entries of a printed collection are read as. -/
theorem deserialize_serialized (name : String) (collectionType : Option String) (schema : List Json)
    (rules : Json) (options : List (String × Json)) :
    ArchiveCollection.deserialize (.object (insertAll [] [("name", .string name),
      ("type", ofOptional .string collectionType), ("schema", .array schema), ("rules", rules),
      ("options", .object options), ("records", .array [])])) = .ok ⟨name, collectionType, schema,
        (some rules).filter fun value => !value.isNull, some (.object options), []⟩ := by
  have hkeys := @lookup_insertAll_nil [("name", .string name),
    ("type", ofOptional .string collectionType), ("schema", .array schema), ("rules", rules),
    ("options", .object options), ("records", .array [])]
    (show ["name", "type", "schema", "rules", "options", "records"].Nodup by decide)
  exact deserialize_of_lookup (hkeys "name") (hkeys "type") (hkeys "schema") (hkeys "rules")
    (hkeys "options") (hkeys "records") (hkeys "fields") (hkeys "viewQuery") (hkeys "viewBuilder")

/-- Rules that are read as they were, up to `null`. -/
theorem rules_eq {rules : Option Json} {read : Json}
    (hread : (rules.getD .null).reread readFloat n = some read)
    (h : (some read).filter (fun value => !value.isNull) = rules.filter fun value => !value.isNull) :
    (rules.getD .null).reread readFloat n = some (rules.getD .null) := by
  cases rules with
  | none => exact reread_null n
  | some rules =>
    cases hnull : rules.isNull with
    | true =>
      obtain rfl : rules = .null := by cases rules <;> simp_all [Json.isNull]
      exact reread_null n
    | false =>
      rw [Option.filter_some (a := rules), hnull] at h
      obtain rfl : read = rules := by simpa using (Option.filter_eq_some_iff.mp h).1
      exact hread

/-- **A collection is read as it was** where everything in it is readable. -/
theorem serialize_readsBack_iff (hvalues : collection.Values)
    (hoptions : collection.options = some (.object options)) (hrecords : collection.records = []) :
    (∃ value, collection.serialize.reread readFloat (n + 2) = some value ∧
      ArchiveCollection.deserialize value = .ok collection.asRead) ↔
        collection.serialize.Readable readFloat (n + 2) := by
  have hschema : (Json.array collection.schema).ordered = true :=
    Json.ordered_array.mpr fun field hmem => (hvalues.schema field hmem).1
  have hrules : (collection.rules.getD .null).ordered = true := by
    cases hrules : collection.rules with
    | none => rfl
    | some rules => exact (hvalues.rules rules hrules).1
  have hobject : (Json.object options).ordered = true := (hvalues.options _ hoptions).1
  rw [readable_serialize hoptions hrecords, ← Json.reread_eq_self hschema, ← Json.reread_eq_self hrules,
    ← Json.reread_eq_self hobject]
  simp only [reread_serialize hoptions hrecords]
  constructor
  · rintro ⟨value, ⟨schema, rules, options', hschema', hrules', hobject', rfl⟩, hread⟩
    rw [deserialize_serialized] at hread
    have hsame := Except.ok.inj hread
    simp only [ArchiveCollection.asRead, ArchiveCollection.mk.injEq, hoptions, Option.some.injEq] at hsame
    obtain ⟨-, -, rfl, hfilter, hsameOptions, -⟩ := hsame
    exact ⟨hschema', rules_eq hrules' hfilter, hsameOptions ▸ hobject'⟩
  · rintro ⟨hschema', hrules', hobject'⟩
    refine ⟨_, ⟨_, _, _, hschema', hrules', hobject', rfl⟩, ?_⟩
    rw [deserialize_serialized, asRead_rules, ← hoptions, ← hrecords]
    rfl

/-- The collections, one after the other. -/
theorem serialize_items_iff {collections : List ArchiveCollection}
    (h : ∀ collection ∈ collections, collection.Values ∧ (∃ options,
      collection.options = some (.object options)) ∧ collection.records = []) :
    (∃ values, Json.rereadItems readFloat (n + 2) (collections.map ArchiveCollection.serialize) =
        some values ∧ values.mapM ArchiveCollection.deserialize =
          .ok (collections.map ArchiveCollection.asRead)) ↔
      Json.ReadableItems readFloat (n + 2) (collections.map ArchiveCollection.serialize) := by
  induction collections with
  | nil => exact iff_of_true ⟨[], rfl, rfl⟩ trivial
  | cons collection rest ih =>
    obtain ⟨⟨hvalues, ⟨options, hoptions⟩, hrecords⟩, hrest⟩ := List.forall_mem_cons.mp h
    rw [List.map_cons, List.map_cons, Json.ReadableItems, ← ih hrest,
      ← serialize_readsBack_iff hvalues hoptions hrecords]
    constructor
    · rintro ⟨values, hvalues', hread⟩
      obtain ⟨value, hvalue, hvalues'⟩ := Option.bind_eq_some_iff.mp hvalues'
      obtain ⟨others, hothers, hvalues'⟩ := Option.bind_eq_some_iff.mp hvalues'
      obtain rfl := Option.some.inj hvalues'
      rw [List.mapM_cons] at hread
      obtain ⟨first, hfirst, hread⟩ := bind_eq_ok.mp hread
      obtain ⟨reads, hreads, hread⟩ := bind_eq_ok.mp hread
      obtain ⟨rfl, rfl⟩ := List.cons.inj (Except.ok.inj hread)
      exact ⟨⟨value, hvalue, hfirst⟩, others, hothers, hreads⟩
    · rintro ⟨⟨value, hvalue, hfirst⟩, others, hothers, hreads⟩
      refine ⟨value :: others, ?_, ?_⟩
      · rw [Json.rereadItems, hvalue, hothers]
        rfl
      · rw [List.mapM_cons, hfirst, hreads]
        rfl

end Definitions

/-! ### The round trip -/

/-- The archives that are read again: the manifest is one that this server understands, and the
definitions and the records nest no deeper than the reader goes and have floats that are read back. -/
structure StoredArchive.Restorable (reader : JsonReader) (stored : StoredArchive) : Prop where
  format : stored.manifest.format = archiveFormat
  version : stored.manifest.formatVersion ≤ archiveFormatVersion
  schema : (schemaJson stored.archive.collections).Readable reader.readFloat 127
  data : ∀ entry ∈ stored.archive.data, ∀ record ∈ entry.2, record.Readable reader.readFloat 127

section RoundTrip

variable {zip : ZipLayer} {reader : JsonReader} {file : zip.File} {stored : StoredArchive}

/-- What is read from a printed value. -/
theorem fromStr_bind_eq_ok {α : Type} {value : Json} (h : value.inRange = true)
    {f : Json → Except String α} {a : α} : (reader.fromStr value.render >>= f) = .ok a ↔
      ∃ read, value.reread reader.readFloat 127 = some read ∧ f read = .ok a := by
  rw [bind_eq_ok, ← reader.fromStr_render value h]
  refine exists_congr fun read => and_congr_left fun _ => ?_
  cases reader.fromStr value.render <;> simp [Except.toOption]

theorem inRange_ofOptional {α : Type} {f : α → Json} (h : ∀ a, (f a).inRange = true) (value : Option α) :
    (ofOptional f value).inRange = true := by
  cases value with
  | none => rfl
  | some a => exact h a

theorem inRange_ofCount (n : UInt64) : (ofCount n).inRange = true :=
  decide_eq_true n.toNat_lt

theorem Manifest.inRange_toJson (manifest : Manifest) : manifest.toJson.inRange = true := by
  have hstring (s : Option String) : (ofOptional Json.string s).inRange = true :=
    inRange_ofOptional (fun _ => rfl) s
  have hcollections : (Json.array (manifest.collections.map ManifestCollection.toJson)).inRange = true := by
    rw [Json.inRange_array]
    intro v hv
    obtain ⟨collection, -, rfl⟩ := List.mem_map.mp hv
    simp [ManifestCollection.toJson, Json.inRange, Json.inRangeEntries, hstring, inRange_ofCount]
  have hfiles : (ofOptional ManifestFiles.toJson manifest.files).inRange = true :=
    inRange_ofOptional (fun files => by
      simp [ManifestFiles.toJson, Json.inRange, Json.inRangeEntries, inRange_ofCount]) _
  have htotals : (ofOptional ManifestTotals.toJson manifest.totals).inRange = true :=
    inRange_ofOptional (fun totals => by
      simp [ManifestTotals.toJson, Json.inRange, Json.inRangeEntries, inRange_ofCount]) _
  have hversion : (Json.number (.posInt manifest.formatVersion.toNat)).inRange = true :=
    decide_eq_true (manifest.formatVersion.toNat_lt.trans (by decide))
  have hformat : (Json.string manifest.format).inRange = true := rfl
  rw [Manifest.toJson, Json.inRange_object]
  simp [hformat, hstring, hcollections, hfiles, htotals, hversion]

theorem ArchiveCollection.inRange_serialize {collection : ArchiveCollection} (h : collection.Values)
    (hrecords : collection.records = []) : collection.serialize.inRange = true := by
  have hname : (Json.string collection.name).inRange = true := rfl
  have htype : (ofOptional Json.string collection.collectionType).inRange = true :=
    inRange_ofOptional (fun _ => rfl) _
  have hschema : (Json.array collection.schema).inRange = true :=
    Json.inRange_array.mpr fun field hmem => (h.schema field hmem).2
  have hgetD (value : Option Json) (hvalue : ∀ v ∈ value, IsValue v) : (value.getD .null).inRange = true := by
    cases value with
    | none => rfl
    | some v => exact (hvalue v rfl).2
  have hnone : (Json.array []).inRange = true := rfl
  rw [ArchiveCollection.serialize, Json.inRange_object, hrecords]
  simp [hname, htype, hschema, hgetD _ h.rules, hgetD _ h.options, hnone]

theorem inRange_schemaJson (hcanonical : stored.archive.Canonical) (hvalues : stored.archive.Values) :
    (schemaJson stored.archive.collections).inRange = true := by
  have hcollections : (Json.array
      (stored.archive.collections.map ArchiveCollection.serialize)).inRange = true := by
    rw [Json.inRange_array]
    intro v hv
    obtain ⟨collection, hmem, rfl⟩ := List.mem_map.mp hv
    exact ArchiveCollection.inRange_serialize (hvalues.collections collection hmem)
      (hcanonical.records collection hmem)
  rw [schemaJson, Json.inRange_object]
  simpa using hcollections

/-- **The definitions are read as they were** where they are readable. -/
theorem schema_iff (hcanonical : stored.archive.Canonical) (hvalues : stored.archive.Values) :
    (reader.fromStr (schemaJson stored.archive.collections).render >>= deserializeSchema) =
        .ok (stored.archive.collections.map ArchiveCollection.asRead) ↔
      (schemaJson stored.archive.collections).Readable reader.readFloat 127 := by
  have hitems := @serialize_items_iff reader.readFloat 123 _ fun collection hmem =>
    ⟨hvalues.collections collection hmem, hcanonical.options collection hmem,
      hcanonical.records collection hmem⟩
  have hreadable : (schemaJson stored.archive.collections).Readable reader.readFloat 127 ↔
      Json.ReadableItems reader.readFloat 125
        (stored.archive.collections.map ArchiveCollection.serialize) := by
    simp [schemaJson, Json.Readable, Json.ReadableEntries]
  have hreread : (schemaJson stored.archive.collections).reread reader.readFloat 127 =
      (Json.rereadItems reader.readFloat 125
        (stored.archive.collections.map ArchiveCollection.serialize)).map fun values =>
          .object [("collections", .array values)] := by
    simp only [schemaJson, Json.reread, Json.rereadEntries]
    cases Json.rereadItems reader.readFloat 125
      (stored.archive.collections.map ArchiveCollection.serialize) <;> rfl
  rw [fromStr_bind_eq_ok (inRange_schemaJson hcanonical hvalues), hreadable, ← hitems, hreread]
  constructor
  · rintro ⟨read, hread, hdeserialize⟩
    obtain ⟨values, hvalues', rfl⟩ := Option.map_eq_some_iff.mp hread
    exact ⟨values, hvalues', hdeserialize⟩
  · rintro ⟨values, hvalues', hdeserialize⟩
    exact ⟨.object [("collections", .array values)], by rw [hvalues']; rfl, hdeserialize⟩

theorem head?_dataEntry (name : String) : (dataEntry name).toList.head? = some 'd' := by
  simp [dataEntry]

theorem dataEntry_inj {a b : String} (h : dataEntry a = dataEntry b) : a = b := by
  have hlist := congrArg String.toList h
  simp only [dataEntry, String.toList_append, List.append_assoc, List.append_cancel_left_eq,
    List.append_cancel_right_eq] at hlist
  exact String.toList_inj.mp hlist

/-- The names of the entries differ. -/
theorem nodup_entries (h : (stored.archive.data.map Prod.fst).Nodup) :
    (stored.entries.map Prod.fst).Nodup := by
  have hdata : ((stored.archive.data.map Prod.fst).map dataEntry).Nodup :=
    h.map fun _ _ => dataEntry_inj
  have hother (entry : String) (hhead : entry.toList.head? ≠ some 'd') :
      entry ∉ (stored.archive.data.map Prod.fst).map dataEntry := by
    intro hmem
    obtain ⟨name, -, rfl⟩ := List.mem_map.mp hmem
    exact hhead (head?_dataEntry name)
  have hkeys : stored.entries.map Prod.fst =
      manifestEntry :: schemaEntry :: ((stored.archive.data.map Prod.fst).map dataEntry ++ [filesEntry]) := by
    simp [StoredArchive.entries]
  have hmanifest := hother manifestEntry (by decide)
  have hschema := hother schemaEntry (by decide)
  have hfiles := hother filesEntry (by decide)
  have hne : manifestEntry ≠ schemaEntry ∧ manifestEntry ≠ filesEntry ∧ schemaEntry ≠ filesEntry := by
    decide
  rw [hkeys]
  refine List.nodup_cons.mpr ⟨?_, List.nodup_cons.mpr ⟨?_, ?_⟩⟩
  · simpa [hne] using hmanifest
  · simpa [hne] using hschema
  · refine List.nodup_append.mpr ⟨hdata, List.nodup_singleton _, fun a ha b hb => ?_⟩
    rw [List.mem_singleton] at hb
    exact fun heq => hfiles (hb ▸ heq ▸ ha)

/-- What is found under different names. -/
theorem lookup_of_mem {α : Type} {entries : List (String × α)} (h : (entries.map Prod.fst).Nodup)
    {key : String} {value : α} (hmem : (key, value) ∈ entries) : lookup key entries = some value := by
  induction entries with
  | nil => cases hmem
  | cons entry rest ih =>
    obtain ⟨k, v⟩ := entry
    obtain ⟨hk, hrest⟩ := List.nodup_cons.mp h
    rcases List.mem_cons.mp hmem with heq | hmem
    · obtain ⟨rfl, rfl⟩ := Prod.mk.inj heq
      exact if_pos rfl
    · have hne : k ≠ key := by
        rintro rfl
        exact hk (List.mem_map.mpr ⟨_, hmem, rfl⟩)
      rw [lookup, if_neg hne]
      exact ih hrest hmem

/-- Every name is looked up, and gives its own entry. -/
theorem mapM_fst_eq_ok {α : Type} {data : List (String × α)} {f : String → Result (String × α)} :
    (data.map Prod.fst).mapM f = .ok data ↔ ∀ entry ∈ data, f entry.1 = .ok entry := by
  induction data with
  | nil => exact iff_of_true rfl (by simp)
  | cons entry rest ih =>
    rw [List.map_cons, List.mapM_cons, List.forall_mem_cons, ← ih]
    simp only [bind_eq_ok]
    constructor
    · rintro ⟨first, hfirst, others, hothers, h⟩
      obtain ⟨rfl, rfl⟩ := List.cons.inj (Except.ok.inj h)
      exact ⟨hfirst, hothers⟩
    · rintro ⟨hfirst, hothers⟩
      exact ⟨entry, hfirst, rest, hothers, rfl⟩

/-- **An archive is read as it was written** exactly where it is restorable. -/
theorem read_write_iff (hcanonical : stored.archive.Canonical) (hvalues : stored.archive.Values) :
    (∃ manifest, (write zip stored >>= read zip reader) = .ok ⟨manifest,
        stored.archive.collections.map ArchiveCollection.asRead, stored.archive.data⟩) ↔
      stored.Restorable reader := by
  have hnodup := nodup_entries (hcanonical.data ▸ hcanonical.names)
  obtain ⟨file, hwrite, htexts⟩ := zip.readText_write stored.entries hnodup
  have htext {key text : String} (hmem : (key, text) ∈ stored.entries) :
      zip.readText file key = .ok (some text) := by rw [htexts, lookup_of_mem hnodup hmem]
  have hjson {α : Type} {key : String} {value : Json} {deserialize : Json → Except String α} {a : α}
      (hmem : (key, value.render) ∈ stored.entries) : readJson zip reader file key deserialize = .ok a ↔
        (reader.fromStr value.render >>= deserialize) = .ok a := by
    have hsome : (okOr (.invalid ("the archive has no " ++ key)) (some value.render) : Result String) =
        .ok value.render := rfl
    rw [readJson, htext hmem]
    simp only [bind, Except.bind, hsome]
    exact mapError_eq_ok
  have hmanifest : readJson zip reader file manifestEntry Manifest.deserialize = .ok stored.manifest :=
    (hjson List.mem_cons_self).mpr
      ((fromStr_bind_eq_ok stored.manifest.inRange_toJson).mpr (stored.manifest.readsBack 124))
  have hschema : readJson zip reader file schemaEntry deserializeSchema =
      .ok (stored.archive.collections.map ArchiveCollection.asRead) ↔
        (schemaJson stored.archive.collections).Readable reader.readFloat 127 :=
    (hjson (List.mem_cons_of_mem _ List.mem_cons_self)).trans (schema_iff hcanonical hvalues)
  have hdata : ((stored.archive.collections.map ArchiveCollection.asRead).mapM fun collection =>
      readData zip reader file collection.name) = .ok stored.archive.data ↔
        ∀ entry ∈ stored.archive.data, ∀ record ∈ entry.2, record.Readable reader.readFloat 127 := by
    have hnames : ((stored.archive.collections.map ArchiveCollection.asRead).mapM fun collection =>
        readData zip reader file collection.name) =
          (stored.archive.data.map Prod.fst).mapM (readData zip reader file) := by
      rw [hcanonical.data, List.mapM_map, List.mapM_map]
      rfl
    rw [hnames, mapM_fst_eq_ok]
    refine forall₂_congr fun entry hmem => ?_
    have hentry : (dataEntry entry.1, ndjson entry.2) ∈ stored.entries :=
      List.mem_cons_of_mem _ (List.mem_cons_of_mem _ (List.mem_append_left _
        (List.mem_map.mpr ⟨entry, hmem, rfl⟩)))
    rw [← readRecords_ndjson (hvalues.data entry hmem) (dataEntry entry.1), readData, htext hentry]
    cases hrecords : readRecords reader (dataEntry entry.1) (ndjson entry.2) with
    | error e => simp [hrecords, bind, Except.bind]
    | ok records => simp [hrecords, bind, Except.bind, pure, Except.pure, Prod.ext_iff]
  constructor
  · rintro ⟨manifest, hread⟩
    obtain ⟨file', hfile, hread⟩ := bind_eq_ok.mp hread
    obtain rfl := Except.ok.inj (hwrite.symm.trans hfile)
    obtain ⟨manifest', hmanifest', hread⟩ := bind_eq_ok.mp hread
    obtain ⟨_, hformat, hread⟩ := bind_eq_ok.mp hread
    obtain ⟨_, hversion, hread⟩ := bind_eq_ok.mp hread
    obtain ⟨collections, hcollections, hread⟩ := bind_eq_ok.mp hread
    obtain ⟨data, hreadData, hread⟩ := bind_eq_ok.mp hread
    obtain rfl := Except.ok.inj (hmanifest.symm.trans hmanifest')
    obtain ⟨rfl, rfl⟩ := Archive.mk.inj (StoredArchive.mk.inj (Except.ok.inj hread)).2
    exact ⟨by simpa using failIf_eq_ok.mp hformat, UInt32.not_lt.mp (failIf_eq_ok.mp hversion),
      hschema.mp hcollections, hdata.mp hreadData⟩
  · rintro ⟨hformat, hversion, hreadable, hrecords⟩
    refine ⟨stored.manifest, bind_eq_ok.mpr ⟨file, hwrite, ?_⟩⟩
    refine bind_eq_ok.mpr ⟨_, hmanifest, bind_eq_ok.mpr ⟨(), failIf_eq_ok.mpr (by simpa using hformat),
      bind_eq_ok.mpr ⟨(), failIf_eq_ok.mpr (UInt32.not_lt.mpr hversion),
        bind_eq_ok.mpr ⟨_, hschema.mpr hreadable, bind_eq_ok.mpr ⟨_, hdata.mpr hrecords, rfl⟩⟩⟩⟩⟩

/-- **The documents round-trip.** The single document always does; the zip file does exactly where the
archive is restorable. -/
theorem documents_round_trip_iff (zip : ZipLayer) (reader : JsonReader) (stored : StoredArchive)
    (hcanonical : stored.archive.Canonical) (hvalues : stored.archive.Values) :
    (archiveFromPayload (toPayload stored.archive) =
        .ok ⟨stored.archive.collections.map ArchiveCollection.asRead, stored.archive.data⟩ ∧
      ∃ manifest, (write zip stored >>= read zip reader) = .ok ⟨manifest,
        stored.archive.collections.map ArchiveCollection.asRead, stored.archive.data⟩) ↔
      stored.Restorable reader := by
  rw [read_write_iff hcanonical hvalues]
  exact and_iff_right (archiveFromPayload_toPayload hcanonical)

end RoundTrip

/-! ### Examples -/

/-- A zip layer that keeps the texts. -/
def keptTexts : ZipLayer where
  File := List (String × String)
  write := .ok
  readText entries name := .ok (lookup name entries)
  readText_write entries _ := ⟨entries, rfl, fun _ => rfl⟩

/-- A reader that reads the plain decimals. -/
def decimalReader : JsonReader := .ofFloats fun text => F64.parse text.toList

/-- An archive of one collection with one record. -/
def onePost (record : Json) : StoredArchive where
  manifest := ⟨archiveFormat, archiveFormatVersion, some "0.1.0", none, [⟨"posts", some "base", 1⟩],
    some ⟨0, 0, 0⟩, some ⟨1, 1, 0⟩⟩
  archive := ⟨[⟨"posts", some "base", [.object [("name", .string "body"), ("type", .string "text")]],
    some .null, some (.object []), []⟩], [("posts", [record])]⟩

theorem canonical_onePost (record : Json) : (onePost record).archive.Canonical where
  names := List.nodup_singleton _
  data := rfl
  options := by simp [onePost]
  records := by simp [onePost]

theorem values_onePost {record : Json} (h : IsValue record) : (onePost record).archive.Values where
  collections := by
    simp only [onePost, List.mem_singleton, forall_eq]
    exact ⟨by decide, by decide, by decide⟩
  data := by simpa [onePost] using h

/-- A record whose text has a line break. -/
def twoLines : Json := .object [("body", .string "first\nsecond\t\"quoted\""), ("id", .string "p1")]

theorem onePost_round_trips : archiveFromPayload (toPayload (onePost twoLines).archive) =
      .ok ⟨(onePost twoLines).archive.collections.map ArchiveCollection.asRead, [("posts", [twoLines])]⟩ ∧
    ∃ manifest, (write keptTexts (onePost twoLines) >>= read keptTexts decimalReader) = .ok ⟨manifest,
      (onePost twoLines).archive.collections.map ArchiveCollection.asRead, [("posts", [twoLines])]⟩ :=
  (documents_round_trip_iff keptTexts decimalReader (onePost twoLines) (canonical_onePost _)
    (values_onePost (by decide))).mpr {
      format := rfl
      version := by decide
      schema := by simp [onePost, schemaJson, ArchiveCollection.serialize, ofOptional, Json.Readable,
        Json.ReadableEntries, Json.ReadableItems]
      data := by simp [onePost, twoLines, Json.Readable, Json.ReadableEntries] }

/-- Arrays within arrays. -/
def nested : ℕ → Json
  | 0 => .null
  | n + 1 => .array [nested n]

theorem isValue_nested (n : ℕ) : IsValue (nested n) := by
  induction n with
  | zero => decide
  | succ n ih =>
    exact ⟨Json.ordered_array.mpr (by simpa using ih.1), Json.inRange_array.mpr (by simpa using ih.2)⟩

theorem not_readable_nested {readFloat : String → Option F64} (n : ℕ) :
    ¬ (nested (n + 1)).Readable readFloat n := by
  induction n with
  | zero => exact not_false
  | succ n ih =>
    rw [nested, Json.Readable, Json.ReadableItems]
    exact fun h => ih h.1

/-- A record of 128 levels. -/
def deepRecord : Json := .object [("body", nested 127), ("id", .string "p1")]

/-- A record of 128 levels is written, and the archive is refused. -/
theorem deep_record_is_refused :
    ¬ ∀ (zip : ZipLayer) (reader : JsonReader) (stored : StoredArchive), stored.archive.Canonical →
      stored.archive.Values → archiveFromPayload (toPayload stored.archive) =
          .ok ⟨stored.archive.collections.map ArchiveCollection.asRead, stored.archive.data⟩ ∧
        ∃ manifest, (write zip stored >>= read zip reader) = .ok ⟨manifest,
          stored.archive.collections.map ArchiveCollection.asRead, stored.archive.data⟩ := by
  intro hall
  have hvalue : IsValue deepRecord := by
    obtain ⟨hordered, hrange⟩ := isValue_nested 127
    have hkeys : "body" < "id" := by decide
    exact ⟨Json.ordered_object.mpr
      ⟨List.pairwise_pair.mpr hkeys, by simpa [Json.ordered] using hordered⟩,
      Json.inRange_object.mpr (by simpa [Json.inRange] using hrange)⟩
  have hvalues := values_onePost hvalue
  have hcanonical := canonical_onePost deepRecord
  obtain ⟨-, hread⟩ := hall keptTexts decimalReader (onePost deepRecord) hcanonical hvalues
  have hreadable := ((read_write_iff hcanonical hvalues).mp hread).data _ List.mem_cons_self _
    List.mem_cons_self
  exact not_readable_nested 126 hreadable.1

end LazyPock.Backup
