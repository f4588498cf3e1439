import LazyPock.Files.Keys
import Mathlib.Data.List.TakeWhile

/-!
# The orphan sweeper

`crates/files/src/sweep.rs`: the sweeper lists the stored objects, guesses from the segments of each
key what owns it, and queues an object for deletion when its owner is gone. What a listing contains
is a parameter, so everything here holds for every content of the store.

The sweeper is meant to spare every file that a row of `_files` names and whose record exists. Two
layouts are misread: an upload without a record looks like a file of a collection called `library`,
and a file of a collection called `thumbs` behind a prefix of two segments looks like a thumbnail.
`Files.sweep_spares_iff` says that these are all.

## Main definitions

* `Files.classify`, `Files.sweep`.
* `Files.Upload.Misread`: the uploads that the sweeper takes for something else.

## Main results

* `Files.mem_counted_iff`: what a sweep counts and queues.
* `Files.verdict_of_upload`: how the sweeper judges an upload.
* `Files.sweep_spares_iff`, `Files.sweep_queues_pending_upload`.
-/

namespace LazyPock.Files

open Text

/-! ### Owners -/

inductive OutputFormat where
  | png
  | jpeg
  | webp
  | avif
deriving DecidableEq

/-- Parse a stored format name. -/
def OutputFormat.parse (name : String) : Result OutputFormat :=
  if name = "png" then .ok .png
  else if name = "jpeg" ∨ name = "jpg" then .ok .jpeg
  else if name = "webp" then .ok .webp
  else if name = "avif" then .ok .avif
  else .error (.config ("unknown thumbnail format " ++ debug name ++
    "; expected png, jpeg, webp or avif"))

/-- What owns a stored object, judged from its key alone. -/
inductive ObjectOwner where
  /-- A source file belonging to a record. -/
  | source (collection record : String)
  /-- A generated thumbnail of a source file. -/
  | thumbnail (collection record source preset : String)
  /-- Not a key the sweeper can attribute, so it is left alone. -/
  | unrecognised
deriving DecidableEq

/-- `IN_FLIGHT_SUFFIX` -/
def inFlightSuffix : String := ".part"

/-- A write that has not been renamed into place yet. -/
def isInFlight (key : String) : Bool :=
  endsWith inFlightSuffix key || (splitOn '/' key).any (endsWith inFlightSuffix)

/-- The owner of a thumbnail, from its file name and the name of its variant. -/
def thumbnailOwner (collection record filename suffix : String) : ObjectOwner :=
  match rsplitOnce '_' suffix with
  | none => .unrecognised
  | some (preset, format) =>
    if isOk (OutputFormat.parse format) = false ∨ preset = "" then .unrecognised
    else .thumbnail collection record (collection ++ "/" ++ record ++ "/" ++ filename) preset

/-- Judge an object from the segments of its key. -/
def segmentsOwner : List String → ObjectOwner
  | [collection, record, _] => .source collection record
  | [collection, record, thumbs, filename, suffix] =>
    if thumbs = "thumbs" then thumbnailOwner collection record filename suffix else .unrecognised
  | _ => .unrecognised

/-- Judge an object from its key. -/
def classify (key : String) : ObjectOwner :=
  if isInFlight key then .unrecognised else segmentsOwner (splitOn '/' key)

/-! ### Sweeping -/

/-- What the sweeper reads from the database, and the paths that rows of `_files` name. -/
structure Db where
  /-- The collections of `_collections`, with the ids of their records. -/
  tables : List (String × List String)
  /-- The names of `_image_presets`. -/
  presets : List String
  /-- `storage_path` of `_files`. -/
  storagePaths : List String

namespace Db

/-- The names of `_collections`. -/
def collections (db : Db) : List String := db.tables.map Prod.fst

/-- `select 1 from "collection" where id = record`. -/
def hasRecord (db : Db) (collection record : String) : Bool :=
  db.tables.any fun table => table.1 = collection ∧ record ∈ table.2

end Db

structure SweepOptions where
  /-- Report what would happen without queueing anything. -/
  dryRun : Bool
  /-- Most objects to examine. -/
  limit : ℕ
  /-- Only list this key prefix. -/
  keyPrefix : String

structure SweepReport where
  scanned : ℕ
  orphans : ℕ
  enqueued : ℕ
  unrecognised : ℕ
  dryRun : Bool
  /-- Up to `sampleSize` of the orphan keys. -/
  sample : List String
deriving DecidableEq

/-- `SAMPLE` -/
def sampleSize : ℕ := 50

/-- The report so far, the answers about records so far, and what the sweep added to the outbox. -/
structure Sweep where
  report : SweepReport
  recordExists : List ((String × String) × Bool)
  queued : List String
  /-- The keys that the number of orphans counts. -/
  counted : List String

/-- Whether a record row still exists, caching the answer. -/
def recordIsPresent (db : Db) (cache : List ((String × String) × Bool))
    (collection record : String) : Result (Bool × List ((String × String) × Bool)) :=
  match cache.lookup (collection, record) with
  | some existing => .ok (existing, cache)
  | none => do
    validateIdentifier "collection name" collection
    let present := db.hasRecord collection record
    return (present, ((collection, record), present) :: cache)

/-- Whether a key is an orphan, where it can be attributed. -/
def orphaned (db : Db) (present : List String) (cache : List ((String × String) × Bool))
    (key : String) : Result (Option Bool × List ((String × String) × Bool)) :=
  match classify key with
  | .unrecognised => .ok (none, cache)
  | .source collection record =>
    if collection ∉ db.collections then .ok (some true, cache)
    else do
      let (exist, cache) ← recordIsPresent db cache collection record
      return (some !exist, cache)
  | .thumbnail collection record source preset =>
    if preset ∉ db.presets ∨ source ∉ present ∨ collection ∉ db.collections then
      .ok (some true, cache)
    else do
      let (exist, cache) ← recordIsPresent db cache collection record
      return (some !exist, cache)

/-- Count an orphan, and queue it unless this is a dry run. -/
def Sweep.orphan (sweep : Sweep) (options : SweepOptions) (key : String) : Sweep :=
  let report := { sweep.report with
    orphans := sweep.report.orphans + 1
    sample := if sweep.report.sample.length < sampleSize then sweep.report.sample ++ [key]
      else sweep.report.sample }
  let counted := sweep.counted ++ [key]
  if options.dryRun then { sweep with report, counted }
  else { sweep with
    report := { report with enqueued := report.enqueued + 1 }
    queued := sweep.queued ++ [key]
    counted }

/-- The loop over the listed keys. What it has queued stays queued when it fails. -/
@[grind =]
def scan (db : Db) (options : SweepOptions) (present : List String) :
    List String → Sweep → Sweep × Result Unit
  | [], sweep => (sweep, .ok ())
  | key :: keys, sweep =>
    if options.limit ≤ sweep.report.scanned then (sweep, .ok ())
    else
      let sweep := { sweep with report.scanned := sweep.report.scanned + 1 }
      match orphaned db present sweep.recordExists key with
      | .error e => (sweep, .error e)
      | .ok (none, _) =>
        scan db options present keys
          { sweep with report.unrecognised := sweep.report.unrecognised + 1 }
      | .ok (some false, cache) =>
        scan db options present keys { sweep with recordExists := cache }
      | .ok (some true, cache) =>
        scan db options present keys ({ sweep with recordExists := cache }.orphan options key)

/-- Find unreferenced objects and, unless this is a dry run, queue them. The listing is what the
store has under the prefix. -/
def sweep (db : Db) (options : SweepOptions) (listing : List String) : Sweep × Result Unit :=
  scan db options listing listing ⟨⟨0, 0, 0, 0, options.dryRun, []⟩, [], [], []⟩

/-! ### What a sweep counts -/

/-- The judgement about an object whose record is still to be looked for. -/
def judge (db : Db) (gone : Prop) [Decidable gone] (collection record : String) :
    Result (Option Bool) :=
  if gone then .ok (some true)
  else do
    validateIdentifier "collection name" collection
    return some !db.hasRecord collection record

/-- The judgement about a key, without the cache. -/
@[grind =]
def verdict (db : Db) (present : List String) (key : String) : Result (Option Bool) :=
  match classify key with
  | .unrecognised => .ok none
  | .source collection record => judge db (collection ∉ db.collections) collection record
  | .thumbnail collection record source preset =>
    judge db (preset ∉ db.presets ∨ source ∉ present ∨ collection ∉ db.collections) collection
      record

/-- The keys a sweep gets to: up to its limit, and to the first collection whose name is refused. -/
def reached (db : Db) (options : SweepOptions) (listing : List String) : List String :=
  (listing.take options.limit).takeWhile fun key => isOk (verdict db listing key)

/-- A cache that holds true answers. -/
def CacheSound (db : Db) (cache : List ((String × String) × Bool)) : Prop :=
  ∀ collection record present, cache.lookup (collection, record) = some present →
    validateIdentifier "collection name" collection = .ok () ∧
      present = db.hasRecord collection record

/-- Two fallible computations with the same value, the second with a sound cache besides. -/
def SameAnswer {α : Type} (db : Db) (plain : Result α)
    (cached : Result (α × List ((String × String) × Bool))) : Prop :=
  (∃ e, plain = .error e ∧ cached = .error e) ∨
    ∃ a cache, plain = .ok a ∧ cached = .ok (a, cache) ∧ CacheSound db cache

section Cache

variable {db : Db} {cache : List ((String × String) × Bool)}

theorem recordIsPresent_sameAnswer (hcache : CacheSound db cache) (collection record : String) :
    SameAnswer db
      (do
        validateIdentifier "collection name" collection
        return db.hasRecord collection record)
      (recordIsPresent db cache collection record) := by
  unfold recordIsPresent
  cases hlookup : cache.lookup (collection, record) with
  | some existing =>
    obtain ⟨hvalid, rfl⟩ := hcache collection record existing hlookup
    exact .inr ⟨_, cache, by rw [hvalid]; rfl, rfl, hcache⟩
  | none =>
    cases hvalid : validateIdentifier "collection name" collection with
    | error e => exact .inl ⟨e, rfl, rfl⟩
    | ok u =>
      refine .inr ⟨_, _, rfl, rfl, fun other otherRecord present hfound => ?_⟩
      rw [List.lookup_cons] at hfound
      split at hfound
      · rename_i heq
        obtain ⟨rfl, rfl⟩ : other = collection ∧ otherRecord = record := by simpa using heq
        exact ⟨hvalid, (Option.some.inj hfound).symm⟩
      · exact hcache other otherRecord present hfound

/-- The cache does not change the judgement. -/
theorem orphaned_sameAnswer (hcache : CacheSound db cache) (present : List String)
    (key : String) :
    SameAnswer db (verdict db present key) (orphaned db present cache key) := by
  have hjudge (gone : Prop) [Decidable gone] (collection record : String) :
      SameAnswer db (judge db gone collection record)
        (if gone then .ok (some true, cache)
        else do
          let (exist, cache) ← recordIsPresent db cache collection record
          return (some !exist, cache)) := by
    unfold judge
    split_ifs
    · exact .inr ⟨_, cache, rfl, rfl, hcache⟩
    · rcases recordIsPresent_sameAnswer hcache collection record with
        ⟨e, hplain, hcached⟩ | ⟨exist, cache', hplain, hcached, hsound⟩
      · rw [hcached]
        cases hvalid : validateIdentifier "collection name" collection with
        | error e' =>
          rw [hvalid] at hplain
          exact .inl ⟨e, congrArg Except.error (Except.error.inj hplain), rfl⟩
        | ok u =>
          rw [hvalid] at hplain
          cases hplain
      · rw [hcached]
        obtain ⟨u, hvalid, hexist⟩ := bind_eq_ok.mp hplain
        obtain rfl := Except.ok.inj hexist
        exact .inr ⟨_, cache', by rw [hvalid]; rfl, rfl, hsound⟩
  unfold verdict orphaned
  split
  · exact .inr ⟨_, cache, rfl, rfl, hcache⟩
  · exact hjudge _ _ _
  · exact hjudge _ _ _

end Cache

/-- What the numbers of a report count. -/
structure Sweep.Consistent (sweep : Sweep) (options : SweepOptions) : Prop where
  orphans : sweep.report.orphans = sweep.counted.length
  sample : sweep.report.sample = sweep.counted.take sampleSize
  enqueued : sweep.report.enqueued = sweep.queued.length
  queued : sweep.queued = if options.dryRun then [] else sweep.counted

theorem Sweep.Consistent.orphan {sweep : Sweep} {options : SweepOptions}
    (h : sweep.Consistent options) (key : String) :
    (sweep.orphan options key).Consistent options := by
  have hsample : (if sweep.report.sample.length < sampleSize then sweep.report.sample ++ [key]
      else sweep.report.sample) = (sweep.counted ++ [key]).take sampleSize := by
    rw [h.sample, List.length_take, List.take_append]
    split_ifs with hlt
    · rw [List.take_of_length_le (by simp; omega : [key].length ≤ sampleSize - sweep.counted.length)]
    · rw [show sampleSize - sweep.counted.length = 0 by omega]
      simp
  unfold Sweep.orphan
  by_cases hdry : options.dryRun = true
  · rw [if_pos hdry]
    refine ⟨?_, hsample, h.enqueued, ?_⟩
    · simp [h.orphans]
    · simpa [hdry] using h.queued
  · rw [if_neg hdry]
    refine ⟨?_, hsample, ?_, ?_⟩
    · simp [h.orphans]
    · simp [h.enqueued]
    · simpa [hdry] using h.queued

@[simp] theorem Sweep.counted_orphan (sweep : Sweep) (options : SweepOptions) (key : String) :
    (sweep.orphan options key).counted = sweep.counted ++ [key] := by
  unfold Sweep.orphan
  split_ifs <;> rfl

@[simp] theorem Sweep.scanned_orphan (sweep : Sweep) (options : SweepOptions) (key : String) :
    (sweep.orphan options key).report.scanned = sweep.report.scanned := by
  unfold Sweep.orphan
  split_ifs <;> rfl

@[simp] theorem Sweep.recordExists_orphan (sweep : Sweep) (options : SweepOptions) (key : String) :
    (sweep.orphan options key).recordExists = sweep.recordExists := by
  unfold Sweep.orphan
  split_ifs <;> rfl

/-- The loop counts the orphans among the keys it gets to. -/
theorem scan_spec (db : Db) (options : SweepOptions) (present keys : List String) {sweep : Sweep}
    (hconsistent : sweep.Consistent options) (hcache : CacheSound db sweep.recordExists) :
    (scan db options present keys sweep).1.Consistent options ∧
      (scan db options present keys sweep).1.counted = sweep.counted ++
        ((keys.take (options.limit - sweep.report.scanned)).takeWhile
          (fun key => isOk (verdict db present key))).filter
            (fun key => verdict db present key = .ok (some true)) := by
  induction keys generalizing sweep with
  | nil => exact ⟨hconsistent, by simp [scan]⟩
  | cons key keys ih =>
    rw [scan]
    by_cases hlimit : options.limit ≤ sweep.report.scanned
    · rw [if_pos hlimit, Nat.sub_eq_zero_of_le hlimit]
      exact ⟨hconsistent, by simp⟩
    rw [if_neg hlimit]
    have htake : options.limit - sweep.report.scanned =
        options.limit - (sweep.report.scanned + 1) + 1 := by omega
    rw [htake, List.take_succ_cons, List.takeWhile_cons]
    rcases orphaned_sameAnswer hcache present key with
      ⟨e, hplain, hcached⟩ | ⟨answer, cache, hplain, hcached, hsound⟩
    · simp only [hcached, hplain, isOk_error, Bool.false_eq_true, if_false, List.filter_nil,
        List.append_nil]
      exact ⟨⟨hconsistent.orphans, hconsistent.sample, hconsistent.enqueued, hconsistent.queued⟩,
        trivial⟩
    · simp only [hcached, hplain, isOk_ok, if_true]
      -- What the rest of the loop starts from.
      rcases answer with _ | _ | _
      · have hnext : { sweep with
            report.scanned := sweep.report.scanned + 1
            report.unrecognised := sweep.report.unrecognised + 1 : Sweep }.Consistent options :=
          ⟨hconsistent.orphans, hconsistent.sample, hconsistent.enqueued, hconsistent.queued⟩
        obtain ⟨hrest, hcounted⟩ := ih hnext hcache
        refine ⟨hrest, hcounted.trans ?_⟩
        rw [List.filter_cons_of_neg (by simp [hplain])]
      · have hnext : { sweep with
            report.scanned := sweep.report.scanned + 1
            recordExists := cache : Sweep }.Consistent options :=
          ⟨hconsistent.orphans, hconsistent.sample, hconsistent.enqueued, hconsistent.queued⟩
        obtain ⟨hrest, hcounted⟩ := ih hnext hsound
        refine ⟨hrest, hcounted.trans ?_⟩
        rw [List.filter_cons_of_neg (by simp [hplain])]
      · have hnext : { sweep with
            report.scanned := sweep.report.scanned + 1
            recordExists := cache : Sweep }.Consistent options :=
          ⟨hconsistent.orphans, hconsistent.sample, hconsistent.enqueued, hconsistent.queued⟩
        obtain ⟨hrest, hcounted⟩ := ih (hnext.orphan key) (by simpa using hsound)
        refine ⟨hrest, hcounted.trans ?_⟩
        rw [List.filter_cons_of_pos (by simp [hplain])]
        simp

/-- The state a sweep starts in. -/
theorem consistent_start (options : SweepOptions) :
    (⟨⟨0, 0, 0, 0, options.dryRun, []⟩, [], [], []⟩ : Sweep).Consistent options :=
  ⟨rfl, rfl, rfl, by simp⟩

theorem sweep_consistent (db : Db) (options : SweepOptions) (listing : List String) :
    (sweep db options listing).1.Consistent options :=
  (scan_spec db options listing listing (consistent_start options)
    (fun _ _ _ h => by simp at h)).1

/-- **What a sweep counts**: the orphans among the keys it gets to. -/
theorem mem_counted_iff {db : Db} {options : SweepOptions} {listing : List String} {key : String} :
    key ∈ (sweep db options listing).1.counted ↔
      key ∈ reached db options listing ∧ verdict db listing key = .ok (some true) := by
  have hcounted := (scan_spec db options listing listing (consistent_start options)
    (fun _ _ _ h => by simp at h)).2
  rw [sweep, hcounted]
  simp [reached]

/-! ### How uploads are judged -/

/-- The record of an upload exists, where it has one. -/
def Upload.RecordExists (db : Db) : Upload → Prop
  | .record collection recordId _ _ => db.hasRecord collection (trim recordId) = true
  | .pending _ _ => True

/-- An upload whose key is taken for that of something that is gone. -/
def Upload.Misread (db : Db) (listing : List String) (keyPrefix : String) : Upload → Prop
  -- The key of an upload without a record has the three segments of a file of the collection
  -- `library`.
  | .pending _ random => keyPrefix = "" ∧ db.hasRecord "library" random = false
  -- Behind a prefix of two segments the key of a file has five, like that of a thumbnail.
  | .record collection recordId filename random => ∃ first second preset format,
      prefixSegments keyPrefix = [first, second] ∧ collection = "thumbs" ∧
      rsplitOnce '_' (random ++ "_" ++ safeFilename filename) = some (preset, format) ∧
      isOk (OutputFormat.parse format) = true ∧
      (preset ∉ db.presets ∨ first ++ "/" ++ second ++ "/" ++ trim recordId ∉ listing ∨
        db.hasRecord first second = false)

section Verdict

variable {db : Db} {listing : List String} {keyPrefix key : String}

theorem mem_collections_of_hasRecord {collection record : String}
    (h : db.hasRecord collection record = true) : collection ∈ db.collections := by
  obtain ⟨table, hmem, htable⟩ := List.any_eq_true.mp h
  obtain ⟨rfl, -⟩ := of_decide_eq_true htable
  exact List.mem_map_of_mem hmem

theorem judge_eq_true_iff {gone : Prop} [Decidable gone] {collection record : String}
    (hok : isOk (judge db gone collection record) = true) :
    judge db gone collection record = .ok (some true) ↔
      gone ∨ db.hasRecord collection record = false := by
  unfold judge at hok ⊢
  split_ifs at hok ⊢ with hgone
  · exact iff_of_true rfl (.inl hgone)
  · obtain ⟨u, hvalid, -⟩ := isOk_bind.mp hok
    rw [hvalid]
    cases hrecord : db.hasRecord collection record with
    | false => exact iff_of_true rfl (.inr rfl)
    | true => exact iff_of_false (by simp [bind, Except.bind, pure, Except.pure]) (by simpa using hgone)

theorem prefixSegments_eq_nil : prefixSegments keyPrefix = [] ↔ keyPrefix = "" := by
  unfold prefixSegments
  split_ifs with h
  · exact iff_of_true rfl h
  · exact iff_of_false (by simp [splitOn, splitChars_ne_nil]) h

theorem classify_of_inFlight (h : isInFlight key = true) : classify key = .unrecognised := if_pos h

/-- A variant's name starts with the random part of a key, which is not empty. -/
theorem preset_ne_empty {random name preset format : String} (hrandom : isValidId random = true)
    (h : rsplitOnce '_' (random ++ "_" ++ name) = some (preset, format)) : preset ≠ "" := by
  rintro rfl
  have hlist := rsplitOnce_eq_some h
  cases hrandomList : random.toList with
  | nil =>
    have hlen := byteLen_of_isValidId hrandom
    simp [byteLen, hrandomList, idLen] at hlen
  | cons c cs =>
    have hc : c = '_' := by
      simp only [String.toList_append, hrandomList] at hlist
      exact (List.cons.inj hlist).1
    have hsafe := isAsciiAlphanumeric_of_isValidId hrandom (c := c) (by simp [hrandomList])
    rw [hc] at hsafe
    exact absurd hsafe (by decide)

theorem segmentsOwner_of_long {segments : List String} (h : 6 ≤ segments.length) :
    segmentsOwner segments = .unrecognised := by
  unfold segmentsOwner
  split <;> first | rfl | simp at h

theorem verdict_ne_of_unrecognised (howner : classify key = .unrecognised) :
    verdict db listing key ≠ .ok (some true) := by
  rw [verdict, howner]
  simp

/-- The judgement about a file of a record. -/
theorem verdict_source_iff {collection record : String}
    (howner : classify key = .source collection record)
    (hok : isOk (verdict db listing key) = true) :
    verdict db listing key = .ok (some true) ↔ db.hasRecord collection record = false := by
  rw [verdict, howner] at hok ⊢
  rw [judge_eq_true_iff hok]
  refine ⟨fun h => h.elim (fun hgone => ?_) id, .inr⟩
  exact Bool.eq_false_iff.mpr fun hrecord => hgone (mem_collections_of_hasRecord hrecord)

/-- The judgement about a thumbnail. -/
theorem verdict_thumbnail_iff {collection record source preset : String}
    (howner : classify key = .thumbnail collection record source preset)
    (hok : isOk (verdict db listing key) = true) :
    verdict db listing key = .ok (some true) ↔
      preset ∉ db.presets ∨ source ∉ listing ∨ db.hasRecord collection record = false := by
  rw [verdict, howner] at hok ⊢
  rw [judge_eq_true_iff hok, or_assoc, or_assoc]
  refine or_congr_right (or_congr_right ⟨fun h => h.elim (fun hgone => ?_) id, .inr⟩)
  exact Bool.eq_false_iff.mpr fun hrecord => hgone (mem_collections_of_hasRecord hrecord)

/-- The judgement about a key with the segments of a thumbnail. -/
theorem verdict_thumbnailOwner_iff {collection record filename suffix : String}
    (howner : classify key = thumbnailOwner collection record filename suffix)
    (hpreset : ∀ preset format, rsplitOnce '_' suffix = some (preset, format) → preset ≠ "")
    (hok : isOk (verdict db listing key) = true) :
    verdict db listing key = .ok (some true) ↔ ∃ preset format,
      rsplitOnce '_' suffix = some (preset, format) ∧
        isOk (OutputFormat.parse format) = true ∧
        (preset ∉ db.presets ∨ collection ++ "/" ++ record ++ "/" ++ filename ∉ listing ∨
          db.hasRecord collection record = false) := by
  rw [thumbnailOwner] at howner
  cases hsplit : rsplitOnce '_' suffix with
  | none =>
    rw [hsplit] at howner
    exact iff_of_false (verdict_ne_of_unrecognised howner) (by simp)
  | some variant =>
    obtain ⟨preset, format⟩ := variant
    simp only [hsplit, hpreset preset format hsplit, or_false] at howner
    by_cases hformat : isOk (OutputFormat.parse format) = true
    · rw [if_neg (by simp [hformat])] at howner
      rw [verdict_thumbnail_iff howner hok]
      constructor
      · exact fun hgone => ⟨preset, format, rfl, hformat, hgone⟩
      · rintro ⟨_, _, hfound, -, hgone⟩
        obtain ⟨rfl, rfl⟩ := Prod.mk.inj (Option.some.inj hfound)
        exact hgone
    · rw [if_pos (by simpa using hformat)] at howner
      refine iff_of_false (verdict_ne_of_unrecognised howner) ?_
      rintro ⟨_, _, hfound, hparse, -⟩
      obtain ⟨rfl, rfl⟩ := Prod.mk.inj (Option.some.inj hfound)
      exact hformat hparse

/-- **How the sweeper judges an upload** whose record, if it has one, exists: as an orphan exactly
when its key is misread. -/
theorem verdict_of_upload {upload : Upload} (hkey : upload.key keyPrefix = .ok key)
    (hrandom : isValidId upload.random = true) (hexists : upload.RecordExists db)
    (hok : isOk (verdict db listing key) = true) :
    verdict db listing key = .ok (some true) ↔
      isInFlight key = false ∧ upload.Misread db listing keyPrefix := by
  by_cases hflight : isInFlight key = true
  · refine iff_of_false (verdict_ne_of_unrecognised (classify_of_inFlight hflight)) ?_
    simp [hflight]
  rw [Bool.not_eq_true] at hflight
  have howner : classify key = segmentsOwner (prefixSegments keyPrefix ++ upload.segments) := by
    rw [classify, if_neg (by simp [hflight]), splitOn_key hkey hrandom]
  rw [eq_true hflight, true_and]
  cases upload with
  | pending filename random =>
    by_cases hempty : keyPrefix = ""
    · rw [prefixSegments_eq_nil.mpr hempty] at howner
      rw [verdict_source_iff howner hok]
      exact ⟨fun hrecord => ⟨hempty, hrecord⟩, fun hmisread => hmisread.2⟩
    · -- The key has at least four segments, and the third of five is `library`.
      refine iff_of_false (verdict_ne_of_unrecognised (howner.trans ?_)) fun h => hempty h.1
      rcases hinitial : prefixSegments keyPrefix with _ | ⟨first, _ | ⟨second, _ | ⟨third, rest⟩⟩⟩
      · exact absurd (prefixSegments_eq_nil.mp hinitial) hempty
      · rfl
      · rfl
      · exact segmentsOwner_of_long (by simp [Upload.segments])
  | record collection recordId filename random =>
    rcases hinitial : prefixSegments keyPrefix with _ | ⟨first, _ | ⟨second, _ | ⟨third, rest⟩⟩⟩
    · rw [hinitial] at howner
      rw [verdict_source_iff howner hok]
      refine iff_of_false (by simp [show db.hasRecord collection (trim recordId) = true from hexists]) ?_
      rintro ⟨_, _, _, _, hsegments, -⟩
      rw [hinitial] at hsegments
      cases hsegments
    · rw [hinitial] at howner
      refine iff_of_false (verdict_ne_of_unrecognised howner) ?_
      rintro ⟨_, _, _, _, hsegments, -⟩
      rw [hinitial] at hsegments
      cases hsegments
    · rw [hinitial] at howner
      replace howner : classify key = if collection = "thumbs" then
          thumbnailOwner first second (trim recordId) (random ++ "_" ++ safeFilename filename)
        else .unrecognised := howner
      by_cases hthumbs : collection = "thumbs"
      swap
      · rw [if_neg hthumbs] at howner
        refine iff_of_false (verdict_ne_of_unrecognised howner) ?_
        rintro ⟨_, _, _, _, -, hcollection, -⟩
        exact hthumbs hcollection
      rw [if_pos hthumbs] at howner
      rw [verdict_thumbnailOwner_iff howner (fun _ _ => preset_ne_empty hrandom) hok]
      constructor
      · rintro ⟨preset, format, hsplit, hformat, hgone⟩
        exact ⟨first, second, preset, format, hinitial, hthumbs, hsplit, hformat, hgone⟩
      · rintro ⟨a, b, preset, format, hsegments, -, hsplit, hformat, hgone⟩
        obtain ⟨rfl, rfl⟩ : first = a ∧ second = b := by simpa [hinitial] using hsegments
        exact ⟨preset, format, hsplit, hformat, hgone⟩
    · rw [hinitial] at howner
      refine iff_of_false (verdict_ne_of_unrecognised (howner.trans
        (segmentsOwner_of_long (by simp [Upload.segments])))) ?_
      rintro ⟨_, _, _, _, hsegments, -⟩
      rw [hinitial] at hsegments
      cases hsegments

end Verdict

/-! ### What a sweep spares -/

/-- A row of `_files` names the key of an upload whose record, if it has one, exists. -/
def Db.Holds (db : Db) (keyPrefix : String) (upload : Upload) (key : String) : Prop :=
  key ∈ db.storagePaths ∧ upload.key keyPrefix = .ok key ∧ isValidId upload.random = true ∧
    upload.RecordExists db

/-- A sweep counts no such key as an orphan and queues none. -/
def Spares (db : Db) (options : SweepOptions) (listing : List String) : Prop :=
  ∀ upload key, db.Holds options.keyPrefix upload key →
    key ∉ (sweep db options listing).1.counted ∧ key ∉ (sweep db options listing).1.queued

/-- **A sweep spares the files in use exactly when it gets to none that is misread.** -/
theorem sweep_spares_iff (db : Db) (options : SweepOptions) (listing : List String) :
    Spares db options listing ↔
      ∀ upload key, db.Holds options.keyPrefix upload key → key ∈ reached db options listing →
        isInFlight key = false → ¬ upload.Misread db listing options.keyPrefix := by
  have hqueued : ∀ key, key ∈ (sweep db options listing).1.queued →
      key ∈ (sweep db options listing).1.counted := by
    intro key hkey
    rw [(sweep_consistent db options listing).queued] at hkey
    split_ifs at hkey
    · cases hkey
    · exact hkey
  have hjudged : ∀ upload key, db.Holds options.keyPrefix upload key →
      (key ∈ (sweep db options listing).1.counted ↔ key ∈ reached db options listing ∧
        isInFlight key = false ∧ upload.Misread db listing options.keyPrefix) := by
    rintro upload key ⟨-, hkey, hrandom, hexists⟩
    rw [mem_counted_iff]
    refine and_congr_right fun hreached => verdict_of_upload hkey hrandom hexists ?_
    exact List.mem_takeWhile_imp (p := fun key => isOk (verdict db listing key)) hreached
  constructor
  · intro hspares upload key hholds hreached hflight hmisread
    exact (hspares upload key hholds).1
      ((hjudged upload key hholds).mpr ⟨hreached, hflight, hmisread⟩)
  · intro hnone upload key hholds
    have hspared : key ∉ (sweep db options listing).1.counted := by
      intro hcounted
      obtain ⟨hreached, hflight, hmisread⟩ := (hjudged upload key hholds).mp hcounted
      exact hnone upload key hholds hreached hflight hmisread
    exact ⟨hspared, fun hkey => hspared (hqueued key hkey)⟩

/-- **An upload to the library is queued for deletion.** -/
theorem sweep_queues_pending_upload :
    ¬ ∀ (db : Db) (options : SweepOptions) (listing : List String),
      (∀ path ∈ db.storagePaths, ∃ upload : Upload, isValidId upload.random = true ∧
        upload.key options.keyPrefix = .ok path) → Spares db options listing := by
  intro hall
  let upload : Upload := .pending "photo.png" "Abc123Abc123Abc"
  have hkey : upload.key "" = .ok "library/Abc123Abc123Abc/photo.png" := by decide
  have hspares := hall ⟨[], [], ["library/Abc123Abc123Abc/photo.png"]⟩ ⟨false, 10000, ""⟩
    ["library/Abc123Abc123Abc/photo.png"] (by
      intro path hpath
      rw [List.mem_singleton.mp hpath]
      exact ⟨upload, by decide, hkey⟩)
  refine (hspares upload "library/Abc123Abc123Abc/photo.png" ?_).2 (by decide)
  exact ⟨List.mem_singleton_self _, hkey, by decide, trivial⟩

end LazyPock.Files
