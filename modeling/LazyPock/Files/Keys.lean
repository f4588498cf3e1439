import LazyPock.Schema.Types

/-!
# Object keys

The key layout of `crates/files/src/keys.rs`: a file of a record is stored under
`collection/record/random_name`, an upload that has no record yet under `library/random/name`, and
both behind the prefix of the deployment. The parts are cut back out of a key at its separators, so
what matters about the parts is that none of them contains one.

## Main definitions

* `Files.safeFilename`, `Files.storageKey`, `Files.pendingKey`.
* `Files.Upload`: the two kinds of uploads, with their keys.

## Main results

* `Files.splitOn_key`: the segments of an upload's key.
-/

namespace LazyPock.Files

open Text

/-- `MAX_FILENAME` -/
def maxFilename : ℕ := 80

/-- The characters a key may contain between separators. -/
def isKeySafe (c : Char) : Bool := isAsciiAlphanumeric c || c = '.' || c = '_' || c = '-'

/-- The closure `clean` of `safe_filename`. -/
def clean (value : String) : String :=
  String.ofList (value.toList.map fun c => if isKeySafe c then c else '_')

/-- What stands behind the last separator of a path. -/
def lastPart (original : String) : String :=
  String.ofList ((original.toList.reverse.takeWhile fun c => c ≠ '/' ∧ c ≠ '\\').reverse)

/-- The stem and the extension of a file name. A stem of dots only is no name, and a long extension
none. -/
def stemAndExtension (original : String) : String × Option String :=
  match rsplitOnce '.' original with
  | some (stem, extension) =>
    if stem ≠ "" ∧ ¬ stem.toList.all (· = '.') ∧ extension ≠ "" ∧ byteLen extension ≤ 10 then
      (stem, some extension)
    else (original, none)
  | none => (original, none)

/-- A cleaned stem with its extension. -/
def withExtension (name : String) : Option String → String
  | some extension => if name ≠ "" then name ++ "." ++ clean extension else name
  | none => name

/-- A file name that is safe inside a key. Everything in it is ASCII when it is cut, so a byte is a
character. -/
def safeFilename (original : String) : String :=
  let (stem, extension) := stemAndExtension (lastPart original)
  let name := clean (String.ofList (stem.toList.dropWhile (· = '.')))
  let name := withExtension name extension
  let name := if name = "" then "file" else name
  String.ofList (name.toList.take maxFilename)

/-- Put a key under the deployment's namespace. -/
def scopedKey (keyPrefix key : String) : String :=
  if keyPrefix = "" then key else keyPrefix ++ "/" ++ key

/-- The object key of a new upload; `random` is its `new_id`. -/
def storageKey (keyPrefix collection recordId filename random : String) : Result String := do
  validateIdentifier "collection name" collection
  let recordId := trim recordId
  failIf (recordId = "" ∨ '/' ∈ recordId.toList ∨ '\\' ∈ recordId.toList ∨ recordId = "." ∨
      recordId = "..")
    (.invalid "a record id cannot contain a path separator")
  return scopedKey keyPrefix (collection ++ "/" ++ recordId ++ "/" ++ random ++ "_" ++
    safeFilename filename)

/-- The object key of an upload that has no record yet. -/
def pendingKey (keyPrefix filename random : String) : String :=
  scopedKey keyPrefix ("library/" ++ random ++ "/" ++ safeFilename filename)

/-- An upload: for a record, or for none yet. -/
inductive Upload where
  | record (collection recordId filename random : String)
  | pending (filename random : String)
deriving DecidableEq

/-- The key an upload is stored under. -/
def Upload.key (keyPrefix : String) : Upload → Result String
  | .record collection recordId filename random =>
    storageKey keyPrefix collection recordId filename random
  | .pending filename random => .ok (pendingKey keyPrefix filename random)

/-- The random part of a key. -/
def Upload.random : Upload → String
  | .record _ _ _ random | .pending _ random => random

/-! ### The segments of a key -/

theorem not_mem_clean {c : Char} (hc : isKeySafe c = false) (value : String) :
    c ∉ (clean value).toList := by
  intro hmem
  simp only [clean, String.toList_ofList, List.mem_map] at hmem
  obtain ⟨d, -, hd⟩ := hmem
  split_ifs at hd with hsafe
  · rw [hd, hc] at hsafe
    cases hsafe
  · rw [← hd] at hc
    exact absurd hc (by decide)

theorem not_mem_withExtension {c : Char} (hc : isKeySafe c = false) (value : String)
    (extension : Option String) : c ∉ (withExtension (clean value) extension).toList := by
  have hdot : c ≠ '.' := by
    rintro rfl
    exact absurd hc (by decide)
  cases extension with
  | none => exact not_mem_clean hc _
  | some extension =>
    rw [withExtension]
    split_ifs with hempty
    · simpa using ⟨not_mem_clean hc _, hdot, not_mem_clean hc _⟩
    · exact not_mem_clean hc _

/-- A file name in a key has only safe characters. -/
theorem not_mem_safeFilename {c : Char} (hc : isKeySafe c = false) (original : String) :
    c ∉ (safeFilename original).toList := by
  have hfile : c ∉ "file".toList := by
    intro hmem
    have hsafe : "file".toList.all isKeySafe = true := by decide
    rw [List.all_eq_true.mp hsafe c hmem] at hc
    cases hc
  intro hmem
  simp only [safeFilename, String.toList_ofList] at hmem
  have hname := List.mem_of_mem_take hmem
  split_ifs at hname with hempty
  · exact hfile hname
  · exact not_mem_withExtension hc _ _ hname

theorem splitOn_append (a b : String) :
    splitOn '/' (a ++ "/" ++ b) = splitOn '/' a ++ splitOn '/' b := by
  have hlist : (a ++ "/" ++ b).toList = a.toList ++ '/' :: b.toList := by simp
  rw [splitOn, splitOn, splitOn, hlist, splitChars_append_cons, List.map_append]

theorem splitOn_of_notMem {a : String} (h : '/' ∉ a.toList) : splitOn '/' a = [a] := by
  rw [splitOn, splitChars_of_notMem h]
  simp

/-- The segments a prefix adds to a key. -/
def prefixSegments (keyPrefix : String) : List String :=
  if keyPrefix = "" then [] else splitOn '/' keyPrefix

theorem splitOn_scopedKey (keyPrefix key : String) :
    splitOn '/' (scopedKey keyPrefix key) = prefixSegments keyPrefix ++ splitOn '/' key := by
  unfold scopedKey prefixSegments
  split_ifs with h
  · rfl
  · exact splitOn_append _ _

/-- The segments of an upload's key behind those of the prefix. -/
def Upload.segments : Upload → List String
  | .record collection recordId filename random =>
    [collection, trim recordId, random ++ "_" ++ safeFilename filename]
  | .pending filename random => ["library", random, safeFilename filename]

theorem notMem_of_validateIdentifier {kind name : String}
    (h : validateIdentifier kind name = .ok ()) : '/' ∉ name.toList :=
  fun hmem => absurd ((validateIdentifier_chars h).2 '/' hmem) (by decide)

theorem notMem_of_isValidId {id : String} (h : isValidId id = true) : '/' ∉ id.toList :=
  fun hmem => absurd (isAsciiAlphanumeric_of_isValidId h hmem) (by decide)

/-- **The segments of a key are those of the prefix and those of the upload.** -/
theorem splitOn_key {keyPrefix key : String} {upload : Upload} (hkey : upload.key keyPrefix = .ok key)
    (hrandom : isValidId upload.random = true) :
    splitOn '/' key = prefixSegments keyPrefix ++ upload.segments := by
  cases upload with
  | record collection recordId filename random =>
    have hslash : '/' ∉ random.toList := notMem_of_isValidId hrandom
    obtain ⟨_, hcollection, hkey⟩ := bind_eq_ok.mp hkey
    obtain ⟨_, hid, hkey⟩ := bind_eq_ok.mp hkey
    obtain ⟨-, hid, -⟩ := not_or.mp (failIf_eq_ok.mp hid) |>.imp_right not_or.mp
    obtain rfl := Except.ok.inj hkey
    have hname : '/' ∉ (random ++ "_" ++ safeFilename filename).toList := by
      simpa using ⟨hslash, not_mem_safeFilename (by decide) filename⟩
    have hlayout : collection ++ "/" ++ trim recordId ++ "/" ++ random ++ "_" ++
        safeFilename filename =
        collection ++ "/" ++ (trim recordId ++ "/" ++ (random ++ "_" ++ safeFilename filename)) := by
      simp [String.append_assoc]
    rw [splitOn_scopedKey, hlayout, splitOn_append, splitOn_append,
      splitOn_of_notMem (notMem_of_validateIdentifier hcollection), splitOn_of_notMem hid,
      splitOn_of_notMem hname]
    rfl
  | pending filename random =>
    have hslash : '/' ∉ random.toList := notMem_of_isValidId hrandom
    obtain rfl := Except.ok.inj hkey
    have hlayout : "library/" ++ random ++ "/" ++ safeFilename filename =
        "library" ++ "/" ++ (random ++ "/" ++ safeFilename filename) := by
      simp [← String.toList_inj]
    have hlibrary : splitOn '/' "library" = ["library"] := by decide
    rw [pendingKey, splitOn_scopedKey, hlayout, splitOn_append, splitOn_append, hlibrary,
      splitOn_of_notMem hslash,
      splitOn_of_notMem (not_mem_safeFilename (by decide) filename)]
    rfl

end LazyPock.Files
