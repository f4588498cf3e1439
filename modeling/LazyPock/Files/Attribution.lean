import LazyPock.Files.Presets

/-!
# Whose file a key is

The sweeper reads the owner of an object back from its key (`classify`, `crates/files/src/sweep.rs`).
Keys are written by `storage_key` (`crates/files/src/keys.rs`) and, for the thumbnails of a source, by
`ImagePreset::thumbnail_key` (`crates/files/src/presets.rs`). The reader counts the segments of a key
from its start, and takes every segment that ends in `.part` for a write under way.

A file of a record is attributed to its record exactly when its key has no prefix, its record id is
not trimmed and does not end in `.part`, and the cut of its name after 80 characters does not fall
behind a `.part` within it.

## Main definitions

* `Files.ImagePreset.validate`: the presets that can be stored.
* `Files.ReadBack`: a key and its thumbnails are attributed to the record they were written
  for.
* `Files.CutAtPart`: the names whose cut leaves a `.part` at the end.

## Main results

* `Files.classify_key`, `Files.classify_thumbnailKey`: how the keys are read.
* `Files.readBack_iff`.
-/

namespace LazyPock.Files

open Text List

/-! ### Presets that can be stored -/

namespace ImagePreset

/-- `MAX_NAME_LENGTH` -/
def maxNameLength : ℕ := 40

def isNameChar (c : Char) : Bool := isAsciiAlphanumeric c || c = '-' || c = '_'

/-- What `validate` asks of a name. -/
def validateName (name : String) : Result Unit := do
  failIf (name = "" ∨ maxNameLength < byteLen name)
    (.invalid ("a preset name must be 1 to " ++ toString maxNameLength ++ " characters"))
  failIf (name.toList.all isNameChar = false)
    (.invalid ("the preset name " ++ debug name ++ " may only contain letters, digits, `-` and `_`"))

/-- What `validate` asks of one side of the box. -/
def validateSide (axis : String) : Option ℕ → Result Unit
  | none => .ok ()
  | some value =>
    failIf (value = 0 ∨ maxDimension < value)
      (.invalid ("the preset " ++ axis ++ " must be between 1 and " ++ toString maxDimension ++
        ", got " ++ toString value))

/-- Check a preset before it is written. -/
def validate (preset : ImagePreset) : Result Unit := do
  validateName preset.name
  failIf (preset.width = none ∧ preset.height = none)
    (.invalid "a preset must give a width, a height, or both")
  validateSide "width" preset.width
  validateSide "height" preset.height
  failIf (¬ (1 ≤ preset.quality ∧ preset.quality ≤ 100))
    (.invalid ("the preset quality must be between 1 and 100, got " ++ toString preset.quality))
  failIf (preset.format = .avif)
    (.unsupported "AVIF thumbnails are not implemented; use webp, jpeg or png")

theorem validateName_eq_ok {name : String} (h : validateName name = .ok ()) :
    name ≠ "" ∧ ∀ c ∈ name.toList, isNameChar c = true := by
  obtain ⟨_, hlength, hchars⟩ := bind_eq_ok.mp h
  have hall := Bool.not_eq_false _ ▸ failIf_eq_ok.mp hchars
  exact ⟨fun hempty => failIf_eq_ok.mp hlength (.inl hempty), all_eq_true.mp hall⟩

/-- A preset that is stored has a name as `validate` asks, and can be served. -/
theorem valid_of_validate {preset : ImagePreset} (h : preset.validate = .ok ()) :
    validateName preset.name = .ok () ∧ preset.Valid := by
  have hside {axis : String} {value : Option ℕ} (h : validateSide axis value = .ok ()) :
      ∀ n ∈ value, 0 < n ∧ n ≤ maxDimension := by
    rintro n rfl
    have hbounds := failIf_eq_ok.mp h
    omega
  obtain ⟨_, hname, h⟩ := bind_eq_ok.mp h
  obtain ⟨_, hsides, h⟩ := bind_eq_ok.mp h
  obtain ⟨_, hwidth, h⟩ := bind_eq_ok.mp h
  obtain ⟨_, hheight, h⟩ := bind_eq_ok.mp h
  obtain ⟨_, hquality, -⟩ := bind_eq_ok.mp h
  have hquality := not_not.mp (failIf_eq_ok.mp hquality)
  exact ⟨hname, ⟨not_and_or.mp (failIf_eq_ok.mp hsides), hside hwidth, hside hheight,
    by omega⟩⟩

end ImagePreset

/-! ### Suffixes -/

/-- A suffix without the separator lies behind the last one. -/
theorem suffix_append_cons_iff {sep : Char} {suffix before after : List Char}
    (hsep : sep ∉ suffix) : suffix <:+ before ++ sep :: after ↔ suffix <:+ after := by
  constructor
  · intro h
    rcases suffix_or_suffix_of_suffix h (suffix_append before (sep :: after)) with h | h
    · rcases suffix_cons_iff.mp h with rfl | h
      · exact absurd mem_cons_self hsep
      · exact h
    · exact absurd (h.subset mem_cons_self) hsep
  · exact fun h => (h.trans (suffix_cons sep after)).trans (suffix_append before _)

/-- A suffix without the separator is one of the last piece. -/
theorem exists_mem_splitChars_of_suffix {sep : Char} {suffix : List Char} (hsep : sep ∉ suffix)
    {cs : List Char} (h : suffix <:+ cs) : ∃ piece ∈ splitChars sep cs, suffix <:+ piece := by
  induction cs with
  | nil => exact ⟨[], by simp [splitChars], h⟩
  | cons c cs ih =>
    rcases suffix_cons_iff.mp h with rfl | h
    · exact ⟨_, by rw [splitChars_of_notMem hsep]; exact mem_singleton_self _, suffix_rfl⟩
    · obtain ⟨piece, hpiece, hsuffix⟩ := ih h
      rw [splitChars]
      split_ifs
      · exact ⟨piece, mem_cons_of_mem _ hpiece, hsuffix⟩
      · cases hsplit : splitChars sep cs with
        | nil => exact absurd (hsplit ▸ hpiece) not_mem_nil
        | cons first rest =>
          rw [hsplit, mem_cons] at hpiece
          rcases hpiece with rfl | hpiece
          · exact ⟨c :: piece, mem_cons_self, hsuffix.trans (suffix_cons c piece)⟩
          · exact ⟨piece, mem_cons_of_mem _ hpiece, hsuffix⟩

/-- A key is in flight when one of its segments is. -/
theorem isInFlight_iff {key : String} :
    isInFlight key = true ↔ (splitOn '/' key).any (endsWith inFlightSuffix) = true := by
  rw [isInFlight, Bool.or_eq_true, or_iff_right_iff_imp]
  intro h
  have hsep : '/' ∉ inFlightSuffix.toList := by decide
  obtain ⟨piece, hpiece, hsuffix⟩ :=
    exists_mem_splitChars_of_suffix hsep (isSuffixOf_iff_suffix.mp h)
  refine any_eq_true.mpr ⟨String.ofList piece, mem_map_of_mem hpiece, ?_⟩
  rw [endsWith, String.toList_ofList]
  exact isSuffixOf_iff_suffix.mpr hsuffix

theorem rsplitOnce_append {sep : Char} {before after : String} (h : sep ∉ after.toList) :
    rsplitOnce sep (before ++ String.singleton sep ++ after) = some (before, after) := by
  have hlist : (before ++ String.singleton sep ++ after).toList.reverse =
      after.toList.reverse ++ sep :: before.toList.reverse := by simp
  rw [rsplitOnce, hlist, splitOnceChars_append (by simpa using h)]
  simp

/-! ### Names -/

/-- A file name as `safe_filename` has it before the cut. -/
def fullName (original : String) : String :=
  let (stem, extension) := stemAndExtension (lastPart original)
  let name := withExtension (clean (String.ofList (stem.toList.dropWhile (· = '.')))) extension
  if name = "" then "file" else name

theorem safeFilename_eq (original : String) :
    safeFilename original = String.ofList ((fullName original).toList.take maxFilename) := rfl

/-- The cut of a name falls right behind a `.part` within it. -/
def CutAtPart (original : String) : Prop :=
  ∃ start rest, (fullName original).toList = start ++ inFlightSuffix.toList ++ rest ∧
    start.length + inFlightSuffix.toList.length = maxFilename ∧ rest ≠ []

theorem suffix_of_suffix_clean {suffix : List Char} (hunderscore : '_' ∉ suffix) {value : String}
    (h : suffix <:+ (clean value).toList) : suffix <:+ value.toList := by
  rw [clean, String.toList_ofList, suffix_map_iff] at h
  obtain ⟨tail, htail, rfl⟩ := h
  have hsame : tail.map (fun c => if isKeySafe c then c else '_') = tail := by
    refine (map_congr_left fun c hc => ?_).trans (map_id tail)
    by_cases hsafe : isKeySafe c = true
    · exact if_pos hsafe
    · refine absurd (mem_map.mpr ⟨c, hc, ?_⟩) hunderscore
      exact if_neg hsafe
  rwa [hsame]

theorem lastPart_suffix (original : String) : (lastPart original).toList <:+ original.toList := by
  rw [lastPart, String.toList_ofList, ← reverse_prefix, reverse_reverse]
  exact takeWhile_prefix _

theorem clean_append_dot (stem extension : String) :
    clean stem ++ "." ++ clean extension = clean (stem ++ "." ++ extension) := by
  rw [← String.toList_inj]
  simp [clean, isKeySafe]

/-- A name is the cleaned end of what it was made of. -/
theorem fullName_cases (original : String) : fullName original = "file" ∨
    ∃ value, value.toList <:+ original.toList ∧ fullName original = clean value := by
  have hdots (stem : String) :
      (String.ofList (stem.toList.dropWhile (· = '.'))).toList <:+ stem.toList := by
    rw [String.toList_ofList]
    exact dropWhile_suffix _
  have hcases : ∀ stem extension, stemAndExtension (lastPart original) = (stem, extension) →
      lastPart original = (extension.map fun extension => stem ++ "." ++ extension).getD stem := by
    intro stem extension h
    unfold stemAndExtension at h
    split at h
    · next first last hsplit =>
      split_ifs at h
      · obtain ⟨rfl, rfl⟩ := Prod.mk.inj h
        rw [← String.toList_inj]
        simpa using rsplitOnce_eq_some hsplit
      · obtain ⟨rfl, rfl⟩ := Prod.mk.inj h
        rfl
    · obtain ⟨rfl, rfl⟩ := Prod.mk.inj h
      rfl
  rcases hpair : stemAndExtension (lastPart original) with ⟨stem, extension⟩
  have hpart := hcases stem extension hpair
  simp only [fullName, hpair]
  split_ifs with hempty
  · exact .inl rfl
  · refine .inr ?_
    cases extension with
    | none =>
      have hstem : stem = lastPart original := hpart.symm
      exact ⟨_, (hdots stem).trans (hstem ▸ lastPart_suffix original), rfl⟩
    | some extension =>
      rw [withExtension] at hempty ⊢
      split_ifs at hempty ⊢ with hname
      · have hwhole : lastPart original = stem ++ "." ++ extension := hpart
        refine ⟨_, ?_, clean_append_dot _ extension⟩
        refine List.IsSuffix.trans ?_ (lastPart_suffix original)
        rw [hwhole, String.toList_append, String.toList_append, String.toList_append,
          String.toList_append, append_assoc, append_assoc]
        obtain ⟨dots, hstem⟩ := hdots stem
        exact ⟨dots, by rw [← append_assoc, hstem]⟩
      · exact absurd (not_not.mp hname) hempty

/-- **Names that look like a write under way.** Where the file itself does not end in `.part`, its
name in a key does so when the cut leaves it there. -/
theorem endsWith_safeFilename_iff {original : String}
    (hpart : endsWith inFlightSuffix original = false) :
    endsWith inFlightSuffix (safeFilename original) = true ↔ CutAtPart original := by
  rw [safeFilename_eq, endsWith, String.toList_ofList, isSuffixOf_iff_suffix]
  have hfull : ¬ inFlightSuffix.toList <:+ (fullName original).toList := by
    intro h
    rcases fullName_cases original with hfile | ⟨value, hvalue, hclean⟩
    · rw [hfile] at h
      exact absurd h (by decide)
    · rw [hclean] at h
      have horiginal := (suffix_of_suffix_clean (by decide) h).trans hvalue
      rw [endsWith, isSuffixOf_iff_suffix.mpr horiginal] at hpart
      cases hpart
  constructor
  · rintro ⟨start, hstart⟩
    have hlong : maxFilename < (fullName original).toList.length := by
      by_contra hshort
      rw [take_of_length_le (by omega)] at hstart
      exact hfull ⟨start, hstart⟩
    refine ⟨start, (fullName original).toList.drop maxFilename, ?_, ?_, ?_⟩
    · rw [hstart, take_append_drop]
    · rw [← length_append, hstart, length_take]
      omega
    · intro hnil
      have hle := drop_eq_nil_iff.mp hnil
      omega
  · rintro ⟨start, rest, hname, hlength, -⟩
    refine ⟨start, ?_⟩
    rw [hname, take_append_of_le_length (by rw [length_append]; omega),
      take_of_length_le (by rw [length_append]; omega)]

/-! ### How keys are read -/

/-- What the sweeper can attribute to a record. -/
theorem segmentsOwner_eq_source {segments : List String} {collection record : String} :
    segmentsOwner segments = .source collection record ↔
      ∃ filename, segments = [collection, record, filename] := by
  constructor
  · intro h
    unfold segmentsOwner at h
    split at h
    · next filename =>
      obtain ⟨rfl, rfl⟩ := ObjectOwner.source.inj h
      exact ⟨filename, rfl⟩
    · next collection' record' thumbs filename suffix =>
      unfold thumbnailOwner at h
      split_ifs at h
      split at h
      · cases h
      · split_ifs at h
    · cases h
  · rintro ⟨filename, rfl⟩
    rfl

section Keys

variable {keyPrefix collection recordId filename random key : String}

/-- The name of a file in its key. -/
def storedName (filename random : String) : String := random ++ "_" ++ safeFilename filename

theorem splitOn_storageKey (hkey : storageKey keyPrefix collection recordId filename random = .ok key)
    (hrandom : isValidId random = true) :
    splitOn '/' key = prefixSegments keyPrefix ++
      [collection, trim recordId, storedName filename random] :=
  @splitOn_key keyPrefix key (.record collection recordId filename random) hkey hrandom

theorem storageKey_eq_ok (hkey : storageKey keyPrefix collection recordId filename random = .ok key) :
    validateIdentifier "collection name" collection = .ok () ∧ '/' ∉ (trim recordId).toList ∧
      key = scopedKey keyPrefix
        (collection ++ "/" ++ trim recordId ++ "/" ++ storedName filename random) := by
  obtain ⟨_, hcollection, hkey⟩ := bind_eq_ok.mp hkey
  obtain ⟨_, hid, hkey⟩ := bind_eq_ok.mp hkey
  obtain ⟨-, hid, -⟩ := not_or.mp (failIf_eq_ok.mp hid) |>.imp_right not_or.mp
  obtain rfl := Except.ok.inj hkey
  exact ⟨hcollection, hid, by simp [storedName, String.append_assoc]⟩

/-- A name of a collection is no write under way. -/
theorem endsWith_of_validateIdentifier {kind name : String}
    (h : validateIdentifier kind name = .ok ()) : endsWith inFlightSuffix name = false := by
  have hdot : '.' ∉ name.toList := fun hmem =>
    absurd ((validateIdentifier_chars h).2 '.' hmem) (by decide)
  rw [Bool.eq_false_iff]
  intro hends
  exact hdot ((isSuffixOf_iff_suffix.mp hends).subset (by decide))

/-- The random part of a name does not matter to its end. -/
theorem endsWith_storedName :
    endsWith inFlightSuffix (storedName filename random) =
      endsWith inFlightSuffix (safeFilename filename) := by
  have hlist : (storedName filename random).toList =
      random.toList ++ '_' :: (safeFilename filename).toList := by simp [storedName]
  rw [Bool.eq_iff_iff, endsWith, endsWith, isSuffixOf_iff_suffix, isSuffixOf_iff_suffix,
    hlist, suffix_append_cons_iff (by decide)]

/-- **How the key of a file is read.** -/
theorem classify_key {record : String}
    (hkey : storageKey keyPrefix collection recordId filename random = .ok key)
    (hrandom : isValidId random = true) :
    classify key = .source collection record ↔
      keyPrefix = "" ∧ record = trim recordId ∧ endsWith inFlightSuffix record = false ∧
        endsWith inFlightSuffix (safeFilename filename) = false := by
  have hsegments := splitOn_storageKey hkey hrandom
  have hcollection := endsWith_of_validateIdentifier (storageKey_eq_ok hkey).1
  rw [classify]
  constructor
  · intro h
    split_ifs at h with hflight
    obtain ⟨name, howner⟩ := segmentsOwner_eq_source.mp h
    rw [hsegments] at howner
    -- three segments are those of the file alone
    have hempty : prefixSegments keyPrefix = [] := by
      have hlength := congrArg List.length howner
      rw [length_append] at hlength
      exact length_eq_zero_iff.mp (Nat.add_eq_right.mp hlength)
    rw [hempty, nil_append] at howner
    obtain ⟨-, hrecord, -⟩ : collection = collection ∧ trim recordId = record ∧
        storedName filename random = name := by simpa using howner
    rw [isInFlight_iff, hsegments, hempty, nil_append] at hflight
    simp only [any_cons, any_nil, Bool.or_false, Bool.not_eq_true, Bool.or_eq_false_iff,
      endsWith_storedName] at hflight
    exact ⟨prefixSegments_eq_nil.mp hempty, hrecord.symm, hrecord ▸ hflight.2.1, hflight.2.2⟩
  · rintro ⟨hempty, rfl, hid, hname⟩
    rw [prefixSegments_eq_nil.mpr hempty, nil_append] at hsegments
    have hflight : ¬ isInFlight key = true := by
      rw [isInFlight_iff, hsegments]
      simp [hcollection, hid, hname, endsWith_storedName]
    rw [if_neg hflight, hsegments]
    rfl

/-- No output format is split by the last underscore, and each is read back. -/
theorem asStr_spec (format : OutputFormat) :
    '_' ∉ format.asStr.toList ∧ '/' ∉ format.asStr.toList ∧
      isOk (OutputFormat.parse format.asStr) = true ∧
      endsWith inFlightSuffix ("_" ++ format.asStr) = false := by
  cases format <;> decide

/-- **How the key of a thumbnail is read.** -/
theorem classify_thumbnailKey
    (hkey : storageKey keyPrefix collection recordId filename random = .ok key)
    (hrandom : isValidId random = true) (hsource : classify key = .source collection recordId)
    {preset : ImagePreset} (hname : ImagePreset.validateName preset.name = .ok ()) :
    classify (preset.thumbnailKey key) = .thumbnail collection recordId key preset.name := by
  obtain ⟨hempty, hid, hidPart, hfile⟩ := (classify_key hkey hrandom).mp hsource
  obtain ⟨hcollection, hslash, hlayout⟩ := storageKey_eq_ok hkey
  obtain ⟨hnonempty, hchars⟩ := ImagePreset.validateName_eq_ok hname
  obtain ⟨hunderscore, hformatSlash, hparse, hformatPart⟩ := asStr_spec preset.format
  have hfileSlash : '/' ∉ (storedName filename random).toList := by
    simpa [storedName] using
      ⟨notMem_of_isValidId hrandom, not_mem_safeFilename (by decide) filename⟩
  have hvariantSlash : '/' ∉ (preset.name ++ "_" ++ preset.format.asStr).toList := by
    have hnameSlash : '/' ∉ preset.name.toList := fun hmem => absurd (hchars _ hmem) (by decide)
    simpa using ⟨hnameSlash, hformatSlash⟩
  rw [hempty, scopedKey, if_pos rfl, ← hid] at hlayout
  rw [← hid] at hslash
  have hdirectory : directory key =
      (collection ++ "/" ++ recordId, storedName filename random) := by
    rw [directory, hlayout]
    exact congrArg (Option.getD · _) (rsplitOnce_append hfileSlash)
  have hparent : collection ++ "/" ++ recordId ≠ "" := by simp
  have hthumbnail : preset.thumbnailKey key = collection ++ "/" ++ (recordId ++ "/" ++ ("thumbs" ++
      "/" ++ (storedName filename random ++ "/" ++ (preset.name ++ "_" ++ preset.format.asStr)))) := by
    rw [ImagePreset.thumbnailKey, thumbnailKey, sibling, hdirectory, if_neg hparent]
    simp [String.append_assoc]
  have hthumbs : splitOn '/' "thumbs" = ["thumbs"] := by decide
  have hsegments : splitOn '/' (preset.thumbnailKey key) = [collection, recordId, "thumbs",
      storedName filename random, preset.name ++ "_" ++ preset.format.asStr] := by
    rw [hthumbnail, splitOn_append, splitOn_append, splitOn_append, splitOn_append,
      splitOn_of_notMem (notMem_of_validateIdentifier hcollection), splitOn_of_notMem hslash, hthumbs,
      splitOn_of_notMem hfileSlash, splitOn_of_notMem hvariantSlash]
    rfl
  have hvariantPart :
      endsWith inFlightSuffix (preset.name ++ "_" ++ preset.format.asStr) = false := by
    rw [Bool.eq_false_iff] at hformatPart ⊢
    intro hends
    have hlist : (preset.name ++ "_" ++ preset.format.asStr).toList =
        preset.name.toList ++ '_' :: preset.format.asStr.toList := by simp
    rw [endsWith, isSuffixOf_iff_suffix, hlist, suffix_append_cons_iff (by decide)] at hends
    refine hformatPart (isSuffixOf_iff_suffix.mpr ?_)
    exact hends.trans (by simp)
  have hflight : ¬ isInFlight (preset.thumbnailKey key) = true := by
    rw [isInFlight_iff, hsegments]
    have hthumbsPart : endsWith inFlightSuffix "thumbs" = false := by decide
    simp [endsWith_of_validateIdentifier hcollection, hidPart, hthumbsPart, endsWith_storedName,
      hfile, hvariantPart]
  have hsplit : rsplitOnce '_' (preset.name ++ "_" ++ preset.format.asStr) =
      some (preset.name, preset.format.asStr) := rsplitOnce_append hunderscore
  rw [classify, if_neg hflight, hsegments]
  simp only [segmentsOwner, if_true, thumbnailOwner, hsplit, hparse, hnonempty, Bool.true_eq_false,
    or_self, if_false, hlayout]

/-! ### Reading back what was written -/

/-- **A key that is read back.** The file is attributed to the record it was stored for, and each of
its thumbnails to that record, that key and its preset. -/
def ReadBack (collection recordId key : String) : Prop :=
  classify key = .source collection recordId ∧
    ∀ preset : ImagePreset, ImagePreset.validateName preset.name = .ok () →
      classify (preset.thumbnailKey key) = .thumbnail collection recordId key preset.name

/-- **Which keys are read back.** For a file that does not end in `.part`: those without a prefix, of
a record id that is stored as it is and does not end in `.part`, and of a name that is not cut right
behind a `.part`. -/
theorem readBack_iff
    (hkey : storageKey keyPrefix collection recordId filename random = .ok key)
    (hrandom : isValidId random = true) (hpart : endsWith inFlightSuffix filename = false) :
    ReadBack collection recordId key ↔
      keyPrefix = "" ∧ trim recordId = recordId ∧ endsWith inFlightSuffix recordId = false ∧
        ¬ CutAtPart filename := by
  have hread : ReadBack collection recordId key ↔ classify key = .source collection recordId :=
    and_iff_left_of_imp fun hsource _ hname => classify_thumbnailKey hkey hrandom hsource hname
  rw [hread, classify_key hkey hrandom, ← endsWith_safeFilename_iff hpart, Bool.not_eq_true,
    eq_comm (a := recordId)]

end Keys

theorem readBack_iff_photo :
    ReadBack "posts" "p1" "posts/p1/Abc123Abc123Abc_photo.png" ↔
      "" = "" ∧ trim "p1" = "p1" ∧ endsWith inFlightSuffix "p1" = false ∧
        ¬ CutAtPart "photo.png" :=
  have hkey : storageKey "" "posts" "p1" "photo.png" "Abc123Abc123Abc" =
      .ok "posts/p1/Abc123Abc123Abc_photo.png" := by decide
  readBack_iff hkey (by decide) (by decide)

/-- A deployment with the prefix `acme`: none of its files is attributed to a record. -/
theorem readBack_acme :
    storageKey "acme" "posts" "p1" "photo.png" "Abc123Abc123Abc" =
        .ok "acme/posts/p1/Abc123Abc123Abc_photo.png" ∧
      classify "acme/posts/p1/Abc123Abc123Abc_photo.png" = .unrecognised := by
  decide

end LazyPock.Files
