import LazyPock.Files.Sweep
import Mathlib.Data.List.Sort

/-!
# Deployments that share a bucket

Several deployments may store their files in one bucket, each behind a key prefix of its own, and a
sweep lists the prefix of its deployment: `list` of `crates/files/src/storage.rs` and
`crates/files/src/s3.rs`, `normalize_prefix` of `crates/files/src/config.rs`. The local backend lists
the directory of the prefix. S3 knows no directories: it lists every key that starts with the given
string, and the prefix is given without a slash behind it, so a sweep of `app` goes through the
objects of `app2`, `Files.isolated_iff`.

## Main definitions

* `Files.normalizePrefix`, `Files.list`, `Files.sweepStore`.
* `Files.Under`: a key in the directory of a prefix.
* `Files.WrittenBy`: the keys a deployment writes.

## Main results

* `Files.under_of_writtenBy`, `Files.under_of_list_local`.
* `Files.isolated_iff`, `Files.sweep_examines_neighbour`.
-/

namespace LazyPock.Files

open Text List

/-! ### Prefixes -/

/-- `trim_matches('/')` -/
def trimSlashes (s : String) : String :=
  String.ofList (((s.toList.dropWhile (· = '/')).reverse.dropWhile (· = '/')).reverse)

/-- The check of one segment of a prefix. -/
def checkSegment (raw segment : String) : Result Unit := do
  failIf (segment = "" ∨ segment = "." ∨ segment = "..")
    (.config ("LAZYPOCK_FILES_PREFIX must be a plain path prefix, got " ++ debug raw))
  failIf (¬ segment.toList.all fun c => isAsciiAlphanumeric c || c = '-' || c = '_' || c = '.')
    (.config ("LAZYPOCK_FILES_PREFIX may only contain letters, digits, `-`, `_`, `.` and `/`, got " ++
      debug raw))

/-- Normalize and check a key prefix. -/
def normalizePrefix (raw : String) : Result String := do
  let trimmed := trimSlashes (trim raw)
  if trimmed = "" then return ""
  else do
    (splitOn '/' trimmed).forM (checkSegment raw)
    return join "/" (splitOn '/' trimmed)

/-- A prefix a deployment can be configured with: `validate` wants it normalized. -/
def AcceptedPrefix (keyPrefix : String) : Prop := normalizePrefix keyPrefix = .ok keyPrefix

instance (keyPrefix : String) : Decidable (AcceptedPrefix keyPrefix) :=
  inferInstanceAs (Decidable (_ = _))

/-- The key lies in the directory of the prefix. -/
def Under (keyPrefix key : String) : Prop := startsWith (keyPrefix ++ "/") key = true

instance (keyPrefix key : String) : Decidable (Under keyPrefix key) :=
  inferInstanceAs (Decidable (_ = _))

/-- One prefix, as a path, leads on to another one; the empty path leads everywhere. -/
def IsPathPrefix (p q : String) : Prop := p = "" ∨ p = q ∨ Under p q

instance (p q : String) : Decidable (IsPathPrefix p q) := inferInstanceAs (Decidable (_ ∨ _))

/-! ### Keys -/

/-- The directory of a key and its file name. -/
def directory (key : String) : String × String := (rsplitOnce '/' key).getD ("", key)

/-- The key of a file besides another one. -/
def sibling (key name : String) : String :=
  if (directory key).1 = "" then name else (directory key).1 ++ "/" ++ name

/-- Where a generated thumbnail is cached. -/
def thumbnailKey (source preset format : String) : String :=
  sibling source ("thumbs/" ++ (directory source).2 ++ "/" ++ preset ++ "_" ++ format)

/-- `with_extension("part")`: what the local backend writes before it renames it into place. -/
def temporaryKey (key : String) : String :=
  sibling key (match rsplitOnce '.' (directory key).2 with
    | some (stem, _) => (if stem = "" then (directory key).2 else stem) ++ ".part"
    | none => (directory key).2 ++ ".part")

/-- The keys a deployment writes: sources, their thumbnails, and writes that are under way. -/
inductive WrittenBy (keyPrefix : String) : String → Prop
  | source {upload : Upload} {key : String} (hrandom : isValidId upload.random = true)
      (hkey : upload.key keyPrefix = .ok key) : WrittenBy keyPrefix key
  | thumbnail {source : String} (preset format : String) (h : WrittenBy keyPrefix source) :
      WrittenBy keyPrefix (thumbnailKey source preset format)
  | temporary {key : String} (h : WrittenBy keyPrefix key) : WrittenBy keyPrefix (temporaryKey key)

/-! ### Listing and sweeping -/

/-- The adapters of the storage. -/
inductive Backend where
  | localStorage
  | s3Storage
deriving DecidableEq

/-- `path_for`: a key that names a path below the root. -/
def checkPath (key : String) : Result Unit := do
  failIf (key = "") (.invalid "a storage key cannot be empty")
  failIf ((splitOn '/' key).any fun segment =>
      segment = "" ∨ segment = "." ∨ segment = ".." ∨ '\\' ∈ segment.toList ∨
        Char.ofNat 0 ∈ segment.toList)
    (.invalid ("refusing an unsafe storage key " ++ debug key))

/-- `replace('\\', "/")` -/
def forwardSlashes (key : String) : String :=
  String.ofList (key.toList.map fun c => if c = '\\' then '/' else c)

/-- Every key under a prefix, sorted; the store is given by its keys. The local backend reads the
directory of the prefix, which fails where a file stands in its path. -/
def list (backend : Backend) (keyPrefix : String) (store : List String) : Result (List String) :=
  match backend with
  | .s3Storage => .ok ((store.filter (startsWith keyPrefix)).insertionSort (· ≤ ·))
  | .localStorage => do
    if keyPrefix = "" then return (store.map forwardSlashes).insertionSort (· ≤ ·)
    else do
      checkPath keyPrefix
      failIf (store.any fun key => key = keyPrefix ∨ Under key keyPrefix)
        (.internal ("cannot read " ++ keyPrefix))
      return ((store.filter (Under keyPrefix ·)).map forwardSlashes).insertionSort (· ≤ ·)

/-- A sweep of a store. Nothing has been examined when the listing fails. -/
@[grind =]
def sweepStore (backend : Backend) (db : Db) (options : SweepOptions) (store : List String) :
    List String × Sweep × Result Unit :=
  match list backend options.keyPrefix store with
  | .ok listing =>
    let (swept, result) := sweep db options listing
    (listing.take swept.report.scanned, swept, result)
  | .error e => ([], ⟨⟨0, 0, 0, 0, options.dryRun, []⟩, [], [], []⟩, .error e)

/-- A sweep examines, reports or queues the key. -/
def Touches (backend : Backend) (db : Db) (options : SweepOptions) (store : List String)
    (key : String) : Prop :=
  key ∈ (sweepStore backend db options store).1 ∨
    key ∈ (sweepStore backend db options store).2.1.report.sample ∨
    key ∈ (sweepStore backend db options store).2.1.queued

/-! ### What lies under a prefix -/

section Under

variable {p q key : String}

theorem under_iff : Under p key ↔ p.toList ++ ['/'] <+: key.toList := by
  rw [Under, startsWith_iff, String.toList_append]
  rfl

/-- Two directories that hold one key lie on one path. -/
theorem isPathPrefix_of_under (hp : Under p key) (hq : Under q key) :
    IsPathPrefix p q ∨ IsPathPrefix q p := by
  have hle {p q : String} (h : p.toList ++ ['/'] <+: q.toList ++ ['/']) : IsPathPrefix p q := by
    rcases prefix_concat_iff.mp h with heq | hpre
    · exact .inr (.inl (String.toList_inj.mp (append_cancel_right heq)))
    · exact .inr (.inr (under_iff.mpr hpre))
  rcases prefix_or_prefix_of_prefix (under_iff.mp hp) (under_iff.mp hq) with hpre | hpre
  · exact .inl (hle hpre)
  · exact .inr (hle hpre)

/-- What stands besides a key lies under the same prefix. -/
theorem under_sibling (hq : q ≠ "") (h : Under q key) (name : String) :
    Under q (sibling key name) := by
  have hpre := under_iff.mp h
  have hslash : '/' ∈ key.toList := hpre.subset (by simp)
  obtain ⟨parent, file, hsplit⟩ := exists_rsplitOnce hslash
  have hkey : key.toList = (parent.toList ++ ['/']) ++ file.toList := by
    simpa using rsplitOnce_eq_some hsplit
  -- The slash behind the prefix is not one of the file name.
  have hparent : q.toList ++ ['/'] <+: parent.toList ++ ['/'] := by
    rw [hkey] at hpre
    rcases prefix_or_prefix_of_prefix hpre (prefix_append _ file.toList) with
      hshort | ⟨rest, hrest⟩
    · exact hshort
    rw [← hrest, prefix_append_right_inj] at hpre
    rcases eq_nil_or_concat rest with rfl | ⟨initial, last, rfl⟩
    · exact (hrest.symm.trans (append_nil _)) ▸ prefix_rfl
    · rw [concat_eq_append, ← append_assoc] at hrest
      obtain ⟨-, hlast⟩ := append_inj' hrest rfl
      obtain rfl := singleton_inj.mp hlast
      exact absurd (hpre.subset (by simp)) (notMem_of_rsplitOnce hsplit)
  have hnonempty : parent ≠ "" := by
    rintro rfl
    have hlen := hparent.length_le
    simp only [String.toList_empty, length_append, length_nil] at hlen
    exact hq (String.toList_eq_nil_iff.mp (length_eq_zero_iff.mp (by omega)))
  have hdirectory : directory key = (parent, file) := by rw [directory, hsplit]; rfl
  rw [sibling, hdirectory, if_neg hnonempty, under_iff, String.toList_append, String.toList_append]
  exact hparent.trans (prefix_append _ _)

theorem under_scopedKey (hq : q ≠ "") (key : String) : Under q (scopedKey q key) := by
  rw [scopedKey, if_neg hq, under_iff, String.toList_append, String.toList_append]
  exact prefix_append _ _

/-- **What a deployment writes lies under its prefix.** -/
theorem under_of_writtenBy (hq : q ≠ "") (h : WrittenBy q key) : Under q key := by
  induction h with
  | @source upload key hrandom hkey =>
    cases upload with
    | record collection recordId filename random =>
      obtain ⟨_, -, hkey⟩ := bind_eq_ok.mp hkey
      obtain ⟨_, -, hkey⟩ := bind_eq_ok.mp hkey
      obtain rfl := Except.ok.inj hkey
      exact under_scopedKey hq _
    | pending filename random =>
      obtain rfl := Except.ok.inj hkey
      exact under_scopedKey hq _
  | thumbnail preset format _ ih => exact under_sibling hq ih _
  | temporary _ ih => exact under_sibling hq ih _

/-- Every other character of a key is in one of its segments. -/
theorem exists_segment {c : Char} (hc : c ≠ '/') (h : c ∈ key.toList) :
    ∃ segment ∈ splitOn '/' key, c ∈ segment.toList := by
  have hpiece (cs : List Char) (h : c ∈ cs) : ∃ piece ∈ splitChars '/' cs, c ∈ piece := by
    induction cs with
    | nil => cases h
    | cons d cs ih =>
      obtain ⟨first, rest, hsplit⟩ := exists_cons_of_ne_nil (splitChars_ne_nil '/' cs)
      rw [splitChars, hsplit]
      rw [hsplit] at ih
      split_ifs with hd
      · have hcs : c ∈ cs := (mem_cons.mp h).resolve_left fun heq => hc (heq.trans hd)
        obtain ⟨piece, hpiece, hmem⟩ := ih hcs
        exact ⟨piece, mem_cons_of_mem _ hpiece, hmem⟩
      · rcases mem_cons.mp h with rfl | hcs
        · exact ⟨c :: first, mem_cons_self, mem_cons_self⟩
        · obtain ⟨piece, hpiece, hmem⟩ := ih hcs
          rcases mem_cons.mp hpiece with rfl | hrest
          · exact ⟨d :: piece, mem_cons_self, mem_cons_of_mem _ hmem⟩
          · exact ⟨piece, mem_cons_of_mem _ hrest, hmem⟩
  obtain ⟨piece, hmem, hc⟩ := hpiece key.toList h
  exact ⟨String.ofList piece, mem_map_of_mem hmem, by rwa [String.toList_ofList]⟩

theorem under_forwardSlashes (hp : '\\' ∉ p.toList) (h : Under p key) :
    Under p (forwardSlashes key) := by
  obtain ⟨rest, hrest⟩ := under_iff.mp h
  have hfixed : ∀ c ∈ p.toList ++ ['/'], (if c = '\\' then '/' else c) = id c := by
    intro c hc
    rw [if_neg fun hback => ?_]
    · rfl
    · rw [hback] at hc
      exact (mem_append.mp hc).elim hp (by decide)
  rw [under_iff, forwardSlashes, String.toList_ofList, ← hrest, map_append,
    map_congr_left hfixed, map_id]
  exact prefix_append _ _

end Under

/-! ### What a sweep touches -/

section Sweeps

variable {backend : Backend} {db : Db} {options : SweepOptions} {store listing : List String}
  {p q key : String}

/-- **The local backend lists what lies under a prefix.** -/
theorem under_of_list_local (hp : p ≠ "") (hlist : list .localStorage p store = .ok listing)
    (hkey : key ∈ listing) : Under p key := by
  rw [list, if_neg hp] at hlist
  obtain ⟨_, hpath, hlist⟩ := bind_eq_ok.mp hlist
  obtain ⟨_, -, hlist⟩ := bind_eq_ok.mp hlist
  obtain rfl := Except.ok.inj hlist
  obtain ⟨stored, hstored, rfl⟩ := mem_map.mp ((mem_insertionSort _).mp hkey)
  refine under_forwardSlashes (fun hback => ?_) (of_decide_eq_true (mem_filter.mp hstored).2)
  obtain ⟨_, -, hsegments⟩ := bind_eq_ok.mp hpath
  obtain ⟨segment, hsegment, hmem⟩ := exists_segment (by decide) hback
  refine failIf_eq_ok.mp hsegments (any_eq_true.mpr ⟨segment, hsegment, ?_⟩)
  exact decide_eq_true (.inr (.inr (.inr (.inl hmem))))

/-- A sweep touches listed keys only. -/
theorem mem_of_touches (hlist : list backend options.keyPrefix store = .ok listing)
    (h : Touches backend db options store key) : key ∈ listing := by
  have hconsistent := sweep_consistent db options listing
  have hcounted (key : String) (h : key ∈ (sweep db options listing).1.counted) : key ∈ listing :=
    mem_of_mem_take ((takeWhile_sublist _).subset (mem_counted_iff.mp h).1)
  rw [Touches, sweepStore, hlist] at h
  rcases h with hexamined | hreported | hqueued
  · exact mem_of_mem_take hexamined
  · rw [hconsistent.sample] at hreported
    exact hcounted key (mem_of_mem_take hreported)
  · rw [hconsistent.queued] at hqueued
    split_ifs at hqueued
    · cases hqueued
    · exact hcounted key hqueued

/-- A loop that meets no refused name and no limit examines all keys. -/
theorem scanned_scan {present keys : List String} {sweep : Sweep}
    (hcache : CacheSound db sweep.recordExists)
    (hok : ∀ key ∈ keys, isOk (verdict db present key) = true)
    (hlimit : sweep.report.scanned + keys.length ≤ options.limit) :
    (scan db options present keys sweep).1.report.scanned = sweep.report.scanned + keys.length := by
  induction keys generalizing sweep with
  | nil => rfl
  | cons key keys ih =>
    obtain ⟨hhead, hrest⟩ := forall_mem_cons.mp hok
    rw [length_cons] at hlimit ⊢
    rw [scan, if_neg (by omega)]
    rcases orphaned_sameAnswer hcache present key with
      ⟨e, hplain, -⟩ | ⟨answer, cache, -, hcached, hsound⟩
    · rw [hplain] at hhead
      cases hhead
    simp only [hcached]
    -- The rest of the loop starts with one more key examined.
    have hnext {next : Sweep} (hscanned : next.report.scanned = sweep.report.scanned + 1)
        (hcache : CacheSound db next.recordExists) :
        (scan db options present keys next).1.report.scanned =
          sweep.report.scanned + (keys.length + 1) := by
      rw [ih hcache hrest (by omega), hscanned]
      omega
    rcases answer with _ | _ | _
    · exact hnext rfl hcache
    · exact hnext rfl hsound
    · exact hnext (Sweep.scanned_orphan _ _ _) (by rwa [Sweep.recordExists_orphan])

/-- Every sweep of one deployment stays away from the keys of the other one. -/
def Isolated (backend : Backend) (store : List String) (p q : String) : Prop :=
  ∀ db options, options.keyPrefix = p → ∀ key, Touches backend db options store key →
    Under p key ∧ ¬ WrittenBy q key

/-- On S3 some sweep examines every key that starts with the prefix. -/
theorem exists_touches (hkey : key ∈ store) (hstart : startsWith p key = true) :
    ∃ db options, options.keyPrefix = p ∧ Touches .s3Storage db options store key := by
  let db : Db := ⟨[], [], []⟩
  let options : SweepOptions := ⟨true, store.length, p⟩
  refine ⟨db, options, rfl, .inl ?_⟩
  let listing := (store.filter (startsWith p)).insertionSort (· ≤ ·)
  have hlist : list .s3Storage options.keyPrefix store = .ok listing := rfl
  have hlen : listing.length ≤ store.length := by
    rw [length_insertionSort]
    exact length_filter_le _ _
  have hok (key : String) : isOk (verdict db listing key) = true := by
    unfold verdict
    split
    · rfl
    · rw [judge, if_pos (by simp [db, Db.collections])]
      rfl
    · rw [judge, if_pos (by simp [db, Db.collections])]
      rfl
  have hscanned : (sweep db options listing).1.report.scanned = listing.length := by
    refine (scanned_scan (fun _ _ _ h => by simp at h) (fun key _ => hok key) ?_).trans ?_
    · simpa [options] using hlen
    · exact Nat.zero_add _
  rw [sweepStore, hlist]
  simp only [hscanned, take_length]
  exact (mem_insertionSort _).mpr (mem_filter.mpr ⟨hkey, hstart⟩)

/-- **Deployments that share a bucket stay apart exactly on the local backend**, and on S3 as long as
no key continues the last segment of the prefix. -/
theorem isolated_iff (backend : Backend) (store : List String) (hpq : ¬ IsPathPrefix p q)
    (hqp : ¬ IsPathPrefix q p) :
    Isolated backend store p q ↔
      backend = .localStorage ∨ ∀ key ∈ store, startsWith p key = true → Under p key := by
  constructor
  · intro h
    cases backend with
    | localStorage => exact .inl rfl
    | s3Storage =>
      refine .inr fun key hkey hstart => ?_
      obtain ⟨db, options, haccepted, htouches⟩ := exists_touches hkey hstart
      exact (h db options haccepted key htouches).1
  · intro hbackend db options haccepted key htouches
    have hunder : Under p key := by
      cases hlist : list backend options.keyPrefix store with
      | error e =>
        rw [Touches, sweepStore, hlist] at htouches
        simp at htouches
      | ok listing =>
        have hkey := mem_of_touches hlist htouches
        rw [haccepted] at hlist
        cases backend with
        | localStorage => exact under_of_list_local (fun hempty => hpq (.inl hempty)) hlist hkey
        | s3Storage =>
          obtain rfl := Except.ok.inj hlist
          obtain ⟨hstored, hstart⟩ := mem_filter.mp ((mem_insertionSort _).mp hkey)
          exact hbackend.resolve_left (by decide) key hstored hstart
    refine ⟨hunder, fun hwritten => ?_⟩
    have hother := under_of_writtenBy (fun hempty => hqp (.inl hempty)) hwritten
    exact (isPathPrefix_of_under hunder hother).elim hpq hqp

/-- Where `app2` has files, `app` has it for a neighbour and not for a part of itself. -/
theorem isolated_iff_app : Isolated .s3Storage ["app2/posts/p1/photo.png"] "app" "web" ↔
    Backend.s3Storage = .localStorage ∨ ∀ key ∈ ["app2/posts/p1/photo.png"],
      startsWith "app" key = true → Under "app" key :=
  isolated_iff .s3Storage _ (by decide) (by decide)

/-- **On S3 a sweep of `app` goes through the files of `app2`.** -/
theorem sweep_examines_neighbour :
    ¬ ∀ (backend : Backend) (store : List String) (p q : String), AcceptedPrefix p →
      AcceptedPrefix q → ¬ IsPathPrefix p q → ¬ IsPathPrefix q p → Isolated backend store p q := by
  intro hall
  let key := "app2/posts/p1/Abc123Abc123Abc_photo.png"
  obtain ⟨db, options, haccepted, htouches⟩ :=
    exists_touches (p := "app") (mem_singleton_self key) (by decide)
  have hisolated := hall .s3Storage [key] "app" "app2" (by decide) (by decide)
    (by decide) (by decide)
  have hupload : (Upload.record "posts" "p1" "photo.png" "Abc123Abc123Abc").key "app2" = .ok key := by
    decide
  exact (hisolated db options haccepted key htouches).2 (.source (by decide) hupload)

end Sweeps

end LazyPock.Files
