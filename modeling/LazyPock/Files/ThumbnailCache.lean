import LazyPock.Files.Attribution
import LazyPock.Files.Validation
import LazyPock.Files.Variants

/-!
# Cached thumbnails

`variant_bytes` of `crates/api/src/files.rs`: a thumbnail is kept under its source, the name of its
preset and its format, and what is kept is served from then on. The box, the mode and the quality are no
part of the key. A stored preset can be given others (`crates/files/src/presets.rs`), and it can be
named like a size, which needs no preset at all, so what is served depends on who asked first.

A request is one step here; what happens to the row of its file is in `Variants`. Resizing is a
parameter, the codecs or the image service. Content types are left out.

## Main definitions

* `Files.createPreset`, `Files.updatePreset`, `Files.deletePreset`.
* `ThumbnailCache.variantBytes`, `ThumbnailCache.step`.
* `ThumbnailCache.State.Current`: what is served is what the presets say now.
* `ThumbnailCache.Careful`: the steps after which a key has one meaning.

## Main results

* `ThumbnailCache.thumbnailKey_inj`: what a key is made of can be read back.
* `ThumbnailCache.sound_step_iff`, `ThumbnailCache.current_of_run`.
* `ThumbnailCache.updated_preset_is_stale`.
-/

namespace LazyPock.Files

open Text

/-! ### The table of presets -/

/-- The name stored in `_image_presets.fit`. -/
def ResizeMode.asStr : ResizeMode → String
  | .cover => "cover"
  | .contain => "contain"
  | .fill => "fill"
  | .inside => "inside"
  | .outside => "outside"

/-- What is stored of a preset. -/
def ImagePreset.row (preset : ImagePreset) : PresetRow :=
  ⟨preset.name, preset.width.map Int.ofNat, preset.height.map Int.ofNat, preset.mode.asStr,
    preset.format.asStr, preset.quality⟩

/-- `create`: insert a preset. -/
def createPreset (presets : List PresetRow) (preset : ImagePreset) : Result (List PresetRow) := do
  preset.validate
  failIf (presets.any (·.name = preset.name) = true)
    (.conflict ("an image preset named " ++ debug preset.name ++ " already exists"))
  return preset.row :: presets

/-- `update`: whether the preset existed, and the table after it. The name stays. -/
def updatePreset (presets : List PresetRow) (name : String) (preset : ImagePreset) :
    Result (Bool × List PresetRow) := do
  preset.validate
  return (presets.any (·.name = name), presets.map fun row =>
    if row.name = name then { preset.row with name := row.name } else row)

/-- `delete` -/
def deletePreset (presets : List PresetRow) (name : String) : Bool × List PresetRow :=
  (presets.any (·.name = name), presets.filter (·.name ≠ name))

/-- The presets seeded by migration `0005_image_presets.sql`. -/
def defaultPresets : List PresetRow :=
  [⟨"thumb", some 200, some 200, "cover", "webp", 80⟩, ⟨"sm", some 320, some 320, "inside", "webp", 80⟩,
    ⟨"md", some 768, some 768, "inside", "webp", 80⟩, ⟨"lg", some 1600, some 1600, "inside", "webp", 80⟩]

end LazyPock.Files

namespace LazyPock.ThumbnailCache

open Text Machine Files
open Variants (namedPreset variantPreset)

/-! ### Requests for a variant -/

/-- What a thumbnail is made with: a preset without its name. -/
structure Specification where
  width : Option ℕ
  height : Option ℕ
  mode : ResizeMode
  format : OutputFormat
  quality : ℕ
deriving DecidableEq

def specification (preset : ImagePreset) : Specification :=
  ⟨preset.width, preset.height, preset.mode, preset.format, preset.quality⟩

/-- `thumbnail::resize`, of bytes that are of a format. -/
abbrev Resizer : Type := Bytes → ImageFormat → Specification → Result Bytes

/-- A source is resized. -/
def resized (resize : Resizer) (source : Bytes) (spec : Specification) : Result Bytes := do
  let format ← okOr (.invalid "this file is not an image that can be resized") (sniff source)
  resize source format spec

/-- The bytes of one variant, and the storage after the request. -/
@[grind =]
def variantBytes (resize : Resizer) (objects : List (String × Bytes)) (key : String)
    (preset : ImagePreset) : Result (Bytes × List (String × Bytes)) :=
  match objects.lookup (preset.thumbnailKey key) with
  | some cached => .ok (cached, objects)
  | none => do
    let source ← okOr (.notFound "no such file") (objects.lookup key)
    let bytes ← resized resize source (specification preset)
    return (bytes, (preset.thumbnailKey key, bytes) :: objects)

/-- How a variant is asked for. -/
inductive Wanted where
  /-- `?thumb=` behind a key. -/
  | size (specification : String)
  /-- `?preset=` and `/thumbs/` behind a key, and `variants` of an upload. -/
  | named (name : String)
  /-- `?thumb=`, `?preset=`, `/thumbs/` and `/scale/` behind an id. -/
  | either (specification : String)

def Wanted.resolve (presets : List PresetRow) : Wanted → Result ImagePreset
  | .size specification => ImagePreset.parseSize specification
  | .named name => namedPreset presets name
  | .either specification => variantPreset presets specification

/-! ### The system -/

/-- A key that an upload was given; its random part was drawn for it. -/
structure Source (keyPrefix : String) where
  key : String
  upload : Upload
  key_eq : upload.key keyPrefix = .ok key
  drawn : isValidId upload.random = true

/-- The presets, the storage, and which thumbnails were made: the key of each source, with the preset.
The code keeps no such record. -/
structure State where
  presets : List PresetRow
  objects : List (String × Bytes)
  made : List (String × ImagePreset)

/-- A new server. -/
def State.initial : State := ⟨defaultPresets, [], []⟩

/-- What can happen. -/
inductive Event (keyPrefix : String) where
  | create (preset : ImagePreset)
  /-- The preset has the name of the path. -/
  | update (preset : ImagePreset)
  | delete (name : String)
  | upload (source : Source keyPrefix) (body : Bytes)
  | request (source : Source keyPrefix) (wanted : Wanted)

variable {keyPrefix : String} (resize : Resizer)

/-- One step. A request that is refused changes nothing; an object is never written twice. -/
@[grind =]
def step (state : State) : Event keyPrefix → Option State
  | .create preset => match createPreset state.presets preset with
    | .ok presets => some { state with presets }
    | .error _ => some state
  | .update preset => match updatePreset state.presets preset.name preset with
    | .ok (_, presets) => some { state with presets }
    | .error _ => some state
  | .delete name => some { state with presets := (deletePreset state.presets name).2 }
  | .upload source body =>
    if (state.objects.lookup source.key).isSome then none
    else some { state with objects := (source.key, body) :: state.objects }
  | .request source wanted => match wanted.resolve state.presets with
    | .error _ => some state
    | .ok preset => match variantBytes resize state.objects source.key preset with
      | .error _ => some state
      | .ok (_, objects) => some { state with
          objects
          made := if (state.objects.lookup (preset.thumbnailKey source.key)).isSome then state.made
            else (source.key, preset) :: state.made }

/-- The steps as a relation. -/
def Step (state : State) (event : Event keyPrefix) (next : State) : Prop :=
  step resize state event = some next

/-- **What is served is what was asked for**: a request that succeeds returns the source resized with
what the preset, or the size, is in this state. -/
def State.Current (keyPrefix : String) (state : State) : Prop :=
  ∀ (source : Source keyPrefix) (wanted : Wanted) (preset : ImagePreset) (bytes : Bytes)
    (objects : List (String × Bytes)), wanted.resolve state.presets = .ok preset →
    variantBytes resize state.objects source.key preset = .ok (bytes, objects) →
      ∃ body, state.objects.lookup source.key = some body ∧
        resized resize body (specification preset) = .ok bytes

/-- A thumbnail under another meaning of the same name and format. -/
def Clash (a b : ImagePreset) : Prop := a.name = b.name ∧ a.format = b.format ∧ a ≠ b

/-- The presets and sizes that can be asked for. -/
def Available (presets : List PresetRow) (preset : ImagePreset) : Prop :=
  ∃ wanted : Wanted, wanted.resolve presets = .ok preset

/-- The steps after which every key has one meaning. -/
def Careful (state : State) : Event keyPrefix → Prop
  -- No thumbnail was made with another preset of that name and format.
  | .create preset => preset.validate = .ok () → (∀ row ∈ state.presets, row.name ≠ preset.name) →
    ∀ made ∈ state.made, ¬ Clash made.2 preset
  | .update preset => preset.validate = .ok () → (∃ row ∈ state.presets, row.name = preset.name) →
    ∀ made ∈ state.made, ¬ Clash made.2 preset
  -- Nothing else that can be asked for has that name and format.
  | .request source wanted => ∀ preset body bytes, wanted.resolve state.presets = .ok preset →
    state.objects.lookup (preset.thumbnailKey source.key) = none →
      state.objects.lookup source.key = some body →
        resized resize body (specification preset) = .ok bytes →
          ∀ other, Available state.presets other → ¬ Clash preset other
  | .delete _ | .upload .. => True

/-! ### The keys of thumbnails -/

section Keys

variable {keyPrefix : String} {source source' : Source keyPrefix} {preset preset' : ImagePreset}

/-- A source lies in a directory, two levels below those of the prefix. -/
theorem Source.exists_directory (source : Source keyPrefix) :
    ∃ parent name, directory source.key = (parent, name) ∧ parent ≠ "" ∧ '/' ∉ name.toList ∧
      source.key = parent ++ "/" ++ name ∧
      (splitOn '/' parent).length = (prefixSegments keyPrefix).length + 2 := by
  have hlength : (splitOn '/' source.key).length = (prefixSegments keyPrefix).length + 3 := by
    rw [splitOn_key source.key_eq source.drawn, List.length_append]
    cases source.upload <;> rfl
  have hslash : '/' ∈ source.key.toList := by
    by_contra hslash
    rw [splitOn_of_notMem hslash, List.length_singleton] at hlength
    omega
  obtain ⟨parent, name, hsplit⟩ := exists_rsplitOnce hslash
  have hname := notMem_of_rsplitOnce hsplit
  have hkey : source.key = parent ++ "/" ++ name := by
    rw [← String.toList_inj, rsplitOnce_eq_some hsplit]
    simp
  have hparent : (splitOn '/' parent).length = (prefixSegments keyPrefix).length + 2 := by
    rw [hkey, splitOn_append, splitOn_of_notMem hname, List.length_append, List.length_singleton]
      at hlength
    omega
  refine ⟨parent, name, by rw [directory, hsplit]; rfl, ?_, hname, hkey, hparent⟩
  rintro rfl
  have hempty : (splitOn '/' "").length = 1 := by decide
  omega

/-- The last segment of the key of a thumbnail. -/
def fileName (preset : ImagePreset) : String := preset.name ++ "_" ++ preset.format.asStr

theorem notMem_fileName (h : '/' ∉ preset.name.toList) : '/' ∉ (fileName preset).toList := by
  simpa [fileName] using ⟨h, (asStr_spec preset.format).2.1⟩

theorem thumbnailKey_eq {parent name : String} (hdirectory : directory source.key = (parent, name))
    (hparent : parent ≠ "") : preset.thumbnailKey source.key =
      parent ++ "/" ++ "thumbs" ++ "/" ++ name ++ "/" ++ fileName preset := by
  rw [ImagePreset.thumbnailKey, thumbnailKey, sibling, hdirectory, if_neg hparent]
  simp [fileName, ← String.toList_inj]

/-- What is behind the last separator, and what is in front of it. -/
theorem eq_of_append_slash {a b c d : String} (hb : '/' ∉ b.toList) (hd : '/' ∉ d.toList)
    (h : a ++ "/" ++ b = c ++ "/" ++ d) : a = c ∧ b = d := by
  have hsplit := @rsplitOnce_append _ a _ hb
  have hsplit' := @rsplitOnce_append _ c _ hd
  rw [show String.singleton '/' = "/" from rfl] at hsplit hsplit'
  rw [h, hsplit'] at hsplit
  simpa [eq_comm] using hsplit

theorem asStr_inj {a b : OutputFormat} (h : a.asStr = b.asStr) : a = b := by
  cases a <;> cases b <;> first | rfl | exact absurd h (by decide)

/-- **What the key of a thumbnail is made of**: its source, and the name and the format of its preset. -/
theorem thumbnailKey_inj (hname : '/' ∉ preset.name.toList) (hname' : '/' ∉ preset'.name.toList)
    (h : preset.thumbnailKey source.key = preset'.thumbnailKey source'.key) :
    source.key = source'.key ∧ preset.name = preset'.name ∧ preset.format = preset'.format := by
  obtain ⟨parent, name, hdirectory, hparent, hslash, hkey, -⟩ := source.exists_directory
  obtain ⟨parent', name', hdirectory', hparent', hslash', hkey', -⟩ := source'.exists_directory
  rw [thumbnailKey_eq hdirectory hparent, thumbnailKey_eq hdirectory' hparent'] at h
  obtain ⟨hrest, hfile⟩ := eq_of_append_slash (notMem_fileName hname) (notMem_fileName hname') h
  obtain ⟨hdirectories, rfl⟩ := eq_of_append_slash hslash hslash' hrest
  obtain ⟨rfl, -⟩ := eq_of_append_slash (by decide) (by decide) hdirectories
  have hsplit := @rsplitOnce_append _ preset.name _ (asStr_spec preset.format).1
  have hsplit' := @rsplitOnce_append _ preset'.name _ (asStr_spec preset'.format).1
  rw [show String.singleton '_' = "_" from rfl] at hsplit hsplit'
  rw [fileName, fileName] at hfile
  rw [hfile, hsplit'] at hsplit
  obtain ⟨hsame, hformat⟩ : preset'.name = preset.name ∧ preset'.format.asStr = preset.format.asStr := by
    simpa using hsplit
  exact ⟨by rw [hkey, hkey'], hsame.symm, asStr_inj hformat.symm⟩

/-- No thumbnail lies where a source lies. -/
theorem thumbnailKey_ne (hname : '/' ∉ preset.name.toList) :
    preset.thumbnailKey source.key ≠ source'.key := by
  obtain ⟨parent, name, hdirectory, hparent, hslash, -, hlength⟩ := source.exists_directory
  intro h
  have hcount := congrArg (fun key => (splitOn '/' key).length) h
  have hthumbs : splitOn '/' "thumbs" = ["thumbs"] := by decide
  have hsource : (splitOn '/' source'.key).length = (prefixSegments keyPrefix).length + 3 := by
    rw [splitOn_key source'.key_eq source'.drawn, List.length_append]
    cases source'.upload <;> rfl
  rw [thumbnailKey_eq hdirectory hparent, splitOn_append, splitOn_append, splitOn_append,
    splitOn_of_notMem (notMem_fileName hname), splitOn_of_notMem hslash, hthumbs, hsource] at hcount
  simp only [List.length_append, List.length_singleton] at hcount
  omega

end Keys

/-! ### What can be asked for -/

section Available

variable {presets : List PresetRow} {preset : ImagePreset} {name spec : String}

theorem notMem_of_parseSide {axis value : String} {n : ℕ}
    (h : ImagePreset.parseSide axis value = .ok n) : '/' ∉ value.toList := by
  obtain ⟨number, hnumber, -⟩ := bind_eq_ok.mp h
  have hnumber := okOr_eq_ok.mp hnumber
  intro hmem
  have hmem := mem_trim (by decide) hmem
  unfold parseUInt at hnumber
  dsimp only at hnumber
  split_ifs at hnumber with hdigits
  have hall := List.all_eq_true.mp (not_not.mp (not_or.mp hdigits).2)
  split at hall
  · rename_i rest hrest
    rw [hrest] at hmem
    exact absurd (hall _ ((List.mem_cons.mp hmem).resolve_left (by decide))) (by decide)
  · exact absurd (hall _ hmem) (by decide)

/-- The name of a size is made of two numbers and an `x`. -/
theorem name_of_parseSize (h : ImagePreset.parseSize spec = .ok preset) :
    '/' ∉ preset.name.toList ∧ 'x' ∈ preset.name.toList := by
  obtain ⟨_, -, h⟩ := bind_eq_ok.mp h
  obtain ⟨⟨before, after⟩, hsplit, h⟩ := bind_eq_ok.mp h
  obtain ⟨width, hwidth, h⟩ := bind_eq_ok.mp h
  obtain ⟨height, hheight, h⟩ := bind_eq_ok.mp h
  obtain rfl := Except.ok.inj h
  have hsplit := okOr_eq_ok.mp hsplit
  unfold ImagePreset.splitSize at hsplit
  split at hsplit
  · cases hsplit
  rename_i c rest hrest
  obtain ⟨rfl, rfl⟩ : String.ofList (spec.toList.takeWhile fun c => c ≠ 'x' ∧ c ≠ 'X') = before ∧
      String.ofList rest = after := by simpa using hsplit
  have hlist : spec.toList = (spec.toList.takeWhile fun c => c ≠ 'x' ∧ c ≠ 'X') ++ c :: rest := by
    rw [← hrest, List.takeWhile_append_dropWhile]
  have hc : c = 'x' ∨ c = 'X' := by
    have hhead := List.head?_dropWhile_not (fun c => decide (c ≠ 'x' ∧ c ≠ 'X')) spec.toList
    rw [hrest] at hhead
    have hdrop : ¬(c ≠ 'x' ∧ c ≠ 'X') := by simpa using hhead
    exact or_iff_not_and_not.mpr hdrop
  have hbefore := notMem_of_parseSide hwidth
  have hafter := notMem_of_parseSide hheight
  rw [String.toList_ofList] at hbefore hafter
  have hlower : ∀ d : Char, d.toLower = '/' ↔ d = '/' := by
    intro d
    rw [← Char.toNat_inj, ← Char.toNat_inj, toNat_toLower, show '/'.toNat = 47 from rfl]
    split_ifs <;> omega
  simp only [toAsciiLowercase, String.toList_ofList, List.mem_map, hlower, exists_eq_right]
  rw [hlist]
  refine ⟨?_, c, List.mem_append_right _ List.mem_cons_self, by rcases hc with rfl | rfl <;> decide⟩
  intro hmem
  rcases List.mem_append.mp hmem with hmem | hmem
  · exact hbefore hmem
  · rcases List.mem_cons.mp hmem with rfl | hmem
    · revert hc
      decide
    · exact hafter hmem

theorem namedPreset_eq_ok (h : namedPreset presets name = .ok preset) :
    preset.name = name ∧ ∃ row ∈ presets, row.name = name := by
  obtain ⟨found, hfound, h⟩ := bind_eq_ok.mp h
  obtain rfl := okOr_eq_ok.mp h
  refine ⟨name_of_findPreset hfound, ?_⟩
  unfold findPreset at hfound
  split at hfound
  · rename_i row hrow
    exact ⟨row, List.mem_of_find?_eq_some hrow, by simpa using List.find?_some hrow⟩
  · cases hfound

/-- What can be asked for is a size, or stored. -/
theorem available_iff : Available presets preset ↔
    (∃ spec, ImagePreset.parseSize spec = .ok preset) ∨ namedPreset presets preset.name = .ok preset := by
  constructor
  · rintro ⟨wanted, hwanted⟩
    cases wanted with
    | size spec => exact .inl ⟨spec, hwanted⟩
    | named name => exact .inr ((namedPreset_eq_ok hwanted).1 ▸ hwanted)
    | either spec =>
      rw [Wanted.resolve, variantPreset] at hwanted
      split_ifs at hwanted
      · exact .inl ⟨spec, hwanted⟩
      · exact .inr ((namedPreset_eq_ok hwanted).1 ▸ hwanted)
  · rintro (⟨spec, hspec⟩ | hnamed)
    · exact ⟨.size spec, hspec⟩
    · exact ⟨.named preset.name, hnamed⟩

/-- The names that are stored are no paths. -/
def Named (presets : List PresetRow) : Prop := ∀ row ∈ presets, '/' ∉ row.name.toList

theorem Available.notMem_name (hnamed : Named presets) (h : Available presets preset) :
    '/' ∉ preset.name.toList := by
  rcases available_iff.mp h with ⟨spec, hspec⟩ | hstored
  · exact (name_of_parseSize hspec).1
  · obtain ⟨-, row, hrow, hname⟩ := namedPreset_eq_ok hstored
    exact hname ▸ hnamed row hrow

end Available

/-! ### Changes of the table -/

section Table

variable {presets next : List PresetRow} {preset found : ImagePreset} {row : PresetRow} {name : String}

theorem dimension_map {name axis : String} {side : Option ℕ} (h : ∀ n ∈ side, 0 < n ∧ n ≤ maxDimension) :
    ImagePreset.dimension name axis (side.map Int.ofNat) = .ok side := by
  cases side with
  | none => rfl
  | some n =>
    have hn := h n rfl
    have hfits : 0 < Int.ofNat n ∧ Int.ofNat n ≤ maxDimension := by
      simp only [Int.ofNat_eq_natCast]
      omega
    exact if_pos hfits

theorem parse_asStr (mode : ResizeMode) : ResizeMode.parse mode.asStr = .ok mode := by
  cases mode <;> rfl

theorem parse_format_asStr (format : OutputFormat) : OutputFormat.parse format.asStr = .ok format := by
  cases format <;> rfl

/-- **A preset that is stored is read back.** -/
theorem fromRow_row (h : preset.validate = .ok ()) : ImagePreset.fromRow preset.row = .ok preset := by
  obtain ⟨-, hvalid⟩ := ImagePreset.valid_of_validate h
  have hsides : ¬(preset.width = none ∧ preset.height = none) := not_and_or.mpr hvalid.side
  have hquality : ¬¬(1 ≤ (preset.quality : Int) ∧ (preset.quality : Int) ≤ 100) := by
    have := hvalid.quality
    omega
  exact bind_eq_ok.mpr ⟨_, dimension_map hvalid.width, bind_eq_ok.mpr ⟨_, dimension_map hvalid.height,
    bind_eq_ok.mpr ⟨(), failIf_eq_ok.mpr hsides, bind_eq_ok.mpr ⟨(), failIf_eq_ok.mpr hquality,
      bind_eq_ok.mpr ⟨_, parse_asStr _, bind_eq_ok.mpr ⟨_, parse_format_asStr _, rfl⟩⟩⟩⟩⟩⟩

theorem notMem_of_validate (h : preset.validate = .ok ()) : '/' ∉ preset.name.toList := fun hmem =>
  absurd ((ImagePreset.validateName_eq_ok (ImagePreset.valid_of_validate h).1).2 _ hmem) (by decide)

theorem namedPreset_cons (row : PresetRow) (presets : List PresetRow) (name : String) :
    namedPreset (row :: presets) name =
      if row.name = name then ImagePreset.fromRow row else namedPreset presets name := by
  rw [namedPreset, namedPreset, findPreset, findPreset, List.find?_cons]
  by_cases hname : row.name = name
  · rw [if_pos hname, decide_eq_true hname]
    dsimp only
    cases ImagePreset.fromRow row <;> rfl
  · rw [if_neg hname, decide_eq_false hname]

theorem createPreset_eq_ok : createPreset presets preset = .ok next ↔
    preset.validate = .ok () ∧ (∀ row ∈ presets, row.name ≠ preset.name) ∧
      next = preset.row :: presets := by
  constructor
  · intro h
    obtain ⟨_, hvalid, h⟩ := bind_eq_ok.mp h
    obtain ⟨_, hfree, h⟩ := bind_eq_ok.mp h
    have hfree := failIf_eq_ok.mp hfree
    exact ⟨hvalid, fun row hrow hname => hfree (List.any_eq_true.mpr ⟨row, hrow, decide_eq_true hname⟩),
      (Except.ok.inj h).symm⟩
  · rintro ⟨hvalid, hfree, rfl⟩
    refine bind_eq_ok.mpr ⟨(), hvalid, bind_eq_ok.mpr ⟨(), failIf_eq_ok.mpr fun hany => ?_, rfl⟩⟩
    obtain ⟨row, hrow, hname⟩ := List.any_eq_true.mp hany
    exact hfree row hrow (of_decide_eq_true hname)

/-- What is available after a preset was created. -/
theorem available_create (h : createPreset presets preset = .ok next) :
    Available next found ↔ Available presets found ∨ found = preset := by
  obtain ⟨hvalid, hfree, rfl⟩ := createPreset_eq_ok.mp h
  rw [available_iff, available_iff, namedPreset_cons, fromRow_row hvalid, ImagePreset.row]
  constructor
  · rintro (hsize | hstored)
    · exact .inl (.inl hsize)
    · split_ifs at hstored with hname
      · exact .inr (Except.ok.inj hstored).symm
      · exact .inl (.inr hstored)
  · rintro ((hsize | hstored) | rfl)
    · exact .inl hsize
    · obtain ⟨-, row, hrow, hname⟩ := namedPreset_eq_ok hstored
      exact .inr (by rwa [if_neg fun heq => hfree row hrow (hname.trans heq.symm)])
    · exact .inr (if_pos rfl)

/-- What `update` writes. -/
def written (preset : ImagePreset) (row : PresetRow) : PresetRow :=
  if row.name = preset.name then { preset.row with name := row.name } else row

theorem updatePreset_eq_ok {existed : Bool} : updatePreset presets preset.name preset = .ok (existed, next) ↔
    preset.validate = .ok () ∧ existed = presets.any (·.name = preset.name) ∧
      next = presets.map (written preset) := by
  constructor
  · intro h
    obtain ⟨_, hvalid, h⟩ := bind_eq_ok.mp h
    obtain ⟨hexisted, hnext⟩ := Prod.mk.inj (Except.ok.inj h)
    exact ⟨hvalid, hexisted.symm, hnext.symm⟩
  · rintro ⟨hvalid, rfl, rfl⟩
    exact bind_eq_ok.mpr ⟨(), hvalid, rfl⟩

theorem name_written (preset : ImagePreset) (row : PresetRow) : (written preset row).name = row.name := by
  rw [written]
  split_ifs <;> rfl

theorem namedPreset_update (hvalid : preset.validate = .ok ()) :
    namedPreset (presets.map (written preset)) name =
      if name = preset.name ∧ ∃ row ∈ presets, row.name = preset.name then .ok preset
      else namedPreset presets name := by
  induction presets with
  | nil => simp
  | cons row presets ih =>
    rw [List.map_cons, namedPreset_cons, namedPreset_cons, name_written, ih]
    by_cases hname : row.name = name
    · subst hname
      by_cases hwritten : row.name = preset.name
      · have hrow : written preset row = preset.row := by
          rw [written, if_pos hwritten, hwritten]
          rfl
        rw [if_pos rfl, hrow, fromRow_row hvalid, if_pos ⟨hwritten, row, List.mem_cons_self, hwritten⟩]
      · rw [if_pos rfl, if_pos rfl, written, if_neg hwritten, if_neg fun h => hwritten h.1]
    · simp only [if_neg hname, List.mem_cons, exists_eq_or_imp]
      by_cases hupdated : name = preset.name
      · subst hupdated
        simp [hname]
      · simp [hupdated]

/-- What is available after a preset was updated, where it existed. -/
theorem available_update {existed : Bool}
    (h : updatePreset presets preset.name preset = .ok (existed, next)) (hfound : Available next found) :
    Available presets found ∨ found = preset ∧ ∃ row ∈ presets, row.name = preset.name := by
  obtain ⟨hvalid, -, rfl⟩ := updatePreset_eq_ok.mp h
  rw [available_iff, namedPreset_update hvalid] at hfound
  rcases hfound with hsize | hstored
  · exact .inl (available_iff.mpr (.inl hsize))
  · split_ifs at hstored with hupdated
    · exact .inr ⟨(Except.ok.inj hstored).symm, hupdated.2⟩
    · exact .inl (available_iff.mpr (.inr hstored))

theorem available_updated (hvalid : preset.validate = .ok ())
    (hrow : ∃ row ∈ presets, row.name = preset.name) :
    Available (presets.map (written preset)) preset :=
  available_iff.mpr (.inr (by rw [namedPreset_update hvalid, if_pos ⟨rfl, hrow⟩]))

/-- Nothing new is available after a preset was deleted. -/
theorem available_delete (hfound : Available (deletePreset presets name).2 found) :
    Available presets found := by
  refine available_iff.mpr ((available_iff.mp hfound).imp_right fun hstored => ?_)
  obtain ⟨-, row, hrow, hname⟩ := namedPreset_eq_ok hstored
  have hne : found.name ≠ name := by
    rw [← hname]
    simpa using (List.mem_filter.mp hrow).2
  rw [← hstored, namedPreset, namedPreset, findPreset, findPreset, deletePreset, List.find?_filter]
  congr 3
  ext row
  by_cases hrow : row.name = found.name <;> simp [hrow, hne]

end Table

/-! ### Runs -/

section Runs

variable {resize : Resizer} {state next : State} {event : Event keyPrefix} {source : Source keyPrefix}
  {preset : ImagePreset} {bytes : Bytes} {objects : List (String × Bytes)}

/-- What holds along careful runs. -/
structure State.Sound (resize : Resizer) (keyPrefix : String) (state : State) : Prop where
  named : Named state.presets
  /-- A thumbnail that was made is there, and its source too. -/
  made : ∀ made ∈ state.made, '/' ∉ made.2.name.toList ∧
    ∃ (source : Source keyPrefix) (body bytes : Bytes), source.key = made.1 ∧
      state.objects.lookup made.1 = some body ∧ resized resize body (specification made.2) = .ok bytes ∧
        state.objects.lookup (made.2.thumbnailKey made.1) = some bytes
  /-- An object is a source or was made. -/
  objects : ∀ key bytes, state.objects.lookup key = some bytes →
    (∃ source : Source keyPrefix, source.key = key) ∨
      ∃ made ∈ state.made, made.2.thumbnailKey made.1 = key
  /-- Nothing else can be asked for under a key that is taken. -/
  coherent : ∀ made ∈ state.made, ∀ preset, Available state.presets preset → ¬ Clash made.2 preset

theorem sound_initial (resize : Resizer) (keyPrefix : String) :
    State.initial.Sound resize keyPrefix where
  named := List.forall_mem_cons.mpr (by decide)
  made := by simp [State.initial]
  objects := by simp [State.initial]
  coherent := by simp [State.initial]

/-- **The right thumbnail is served** as long as every key has one meaning. -/
theorem State.Sound.current (h : state.Sound resize keyPrefix) : state.Current resize keyPrefix := by
  intro source wanted preset bytes objects hwanted hbytes
  have havailable : Available state.presets preset := ⟨wanted, hwanted⟩
  have hslash := havailable.notMem_name h.named
  unfold variantBytes at hbytes
  split at hbytes
  · rename_i cached hcached
    obtain ⟨rfl, rfl⟩ := Prod.mk.inj (Except.ok.inj hbytes)
    rcases h.objects _ _ hcached with ⟨other, hother⟩ | ⟨made, hmade, hkey⟩
    · exact absurd hother.symm (thumbnailKey_ne hslash)
    obtain ⟨hmadeSlash, origin, body, stored, horigin, hbody, hstored, hthumbnail⟩ := h.made made hmade
    rw [← horigin] at hkey hbody hthumbnail
    obtain ⟨hsource, hname, hformat⟩ := thumbnailKey_inj hmadeSlash hslash hkey
    have hsame : made.2 = preset := by
      by_contra hne
      exact h.coherent made hmade preset havailable ⟨hname, hformat, hne⟩
    rw [hkey, hcached] at hthumbnail
    obtain rfl := Option.some.inj hthumbnail
    exact ⟨body, hsource ▸ hbody, hsame ▸ hstored⟩
  · obtain ⟨body, hbody, hbytes⟩ := bind_eq_ok.mp hbytes
    obtain ⟨stored, hstored, hbytes⟩ := bind_eq_ok.mp hbytes
    obtain ⟨rfl, -⟩ := Prod.mk.inj (Except.ok.inj hbytes)
    exact ⟨body, okOr_eq_ok.mp hbody, hstored⟩

/-- What a change of the presets keeps. -/
theorem State.Sound.withPresets (h : state.Sound resize keyPrefix) {presets : List PresetRow}
    (hnamed : Named presets) :
    { state with presets }.Sound resize keyPrefix ↔
      ∀ made ∈ state.made, ∀ preset, Available presets preset → ¬ Clash made.2 preset :=
  ⟨fun hsound => hsound.coherent, fun hcoherent => ⟨hnamed, h.made, h.objects, hcoherent⟩⟩

/-- An object that was there is there under a new one. -/
theorem lookup_cons_of_lookup {key other : String} {body : Bytes} (hnew : objects.lookup key = none)
    (h : objects.lookup other = some body) : List.lookup other ((key, bytes) :: objects) = some body := by
  have hne : other ≠ key := by
    rintro rfl
    rw [hnew] at h
    cases h
  rw [List.lookup_cons, beq_false_of_ne hne, h]

/-- A change of the table of presets. -/
theorem sound_create_iff (h : state.Sound resize keyPrefix)
    (hstep : Step resize state (.create preset : Event keyPrefix) next) :
    next.Sound resize keyPrefix ↔ Careful resize state (.create preset : Event keyPrefix) := by
  simp only [Step, step] at hstep
  split at hstep
  · rename_i presets hcreate
    obtain rfl := Option.some.inj hstep
    obtain ⟨hvalid, hfree, hpresets⟩ := createPreset_eq_ok.mp hcreate
    have hnamed : Named presets := by
      rw [hpresets]
      exact List.forall_mem_cons.mpr ⟨notMem_of_validate hvalid, h.named⟩
    rw [h.withPresets hnamed]
    constructor
    · intro hcoherent _ _ made hmade
      exact hcoherent made hmade preset ((available_create hcreate).mpr (.inr rfl))
    · intro hcareful made hmade other hother
      rcases (available_create hcreate).mp hother with hother | rfl
      · exact h.coherent made hmade other hother
      · exact hcareful hvalid hfree made hmade
  · rename_i e hcreate
    obtain rfl := Option.some.inj hstep
    refine iff_of_true h fun hvalid hfree => ?_
    rw [createPreset_eq_ok.mpr ⟨hvalid, hfree, rfl⟩] at hcreate
    cases hcreate

theorem sound_update_iff (h : state.Sound resize keyPrefix)
    (hstep : Step resize state (.update preset : Event keyPrefix) next) :
    next.Sound resize keyPrefix ↔ Careful resize state (.update preset : Event keyPrefix) := by
  simp only [Step, step] at hstep
  split at hstep
  · rename_i existed presets hupdate
    obtain rfl := Option.some.inj hstep
    obtain ⟨hvalid, -, hpresets⟩ := updatePreset_eq_ok.mp hupdate
    have hnamed : Named presets := by
      rw [hpresets]
      intro row hrow
      obtain ⟨old, hold, rfl⟩ := List.mem_map.mp hrow
      exact name_written preset old ▸ h.named old hold
    rw [h.withPresets hnamed]
    constructor
    · intro hcoherent _ hrow made hmade
      exact hcoherent made hmade preset (hpresets ▸ available_updated hvalid hrow)
    · intro hcareful made hmade other hother
      rcases available_update hupdate hother with hother | ⟨rfl, hrow⟩
      · exact h.coherent made hmade other hother
      · exact hcareful hvalid hrow made hmade
  · rename_i e hupdate
    obtain rfl := Option.some.inj hstep
    refine iff_of_true h fun hvalid _ => ?_
    rw [updatePreset_eq_ok.mpr ⟨hvalid, rfl, rfl⟩] at hupdate
    cases hupdate

theorem sound_delete {name : String} (h : state.Sound resize keyPrefix)
    (hstep : Step resize state (.delete name : Event keyPrefix) next) : next.Sound resize keyPrefix := by
  obtain rfl := Option.some.inj hstep
  refine (h.withPresets fun row hrow => h.named row (List.mem_of_mem_filter hrow)).mpr ?_
  exact fun made hmade other hother => h.coherent made hmade other (available_delete hother)

theorem sound_upload {body : Bytes} (h : state.Sound resize keyPrefix)
    (hstep : Step resize state (.upload source body) next) : next.Sound resize keyPrefix := by
  simp only [Step, step] at hstep
  split_ifs at hstep with htaken
  obtain rfl := Option.some.inj hstep
  have hnew : state.objects.lookup source.key = none := Option.not_isSome_iff_eq_none.mp htaken
  refine ⟨h.named, fun made hmade => ?_, fun key bytes hkey => ?_, h.coherent⟩
  · obtain ⟨hslash, origin, body, bytes, horigin, hbody, hbytes, hthumbnail⟩ := h.made made hmade
    exact ⟨hslash, origin, body, bytes, horigin, lookup_cons_of_lookup hnew hbody, hbytes,
      lookup_cons_of_lookup hnew hthumbnail⟩
  · by_cases hsame : key = source.key
    · exact .inl ⟨source, hsame.symm⟩
    · rw [List.lookup_cons, beq_false_of_ne hsame] at hkey
      exact h.objects key bytes hkey

theorem sound_request_iff {wanted : Wanted} (h : state.Sound resize keyPrefix)
    (hstep : Step resize state (.request source wanted) next) :
    next.Sound resize keyPrefix ↔ Careful resize state (.request source wanted) := by
  simp only [Step, step] at hstep
  split at hstep
  · rename_i e hwanted
    obtain rfl := Option.some.inj hstep
    refine iff_of_true h fun preset body bytes hpreset => ?_
    rw [hpreset] at hwanted
    cases hwanted
  rename_i preset hwanted
  unfold variantBytes at hstep
  cases hcached : state.objects.lookup (preset.thumbnailKey source.key) with
  | some cached =>
    simp only [hcached, Option.isSome_some, if_true, Option.some.injEq] at hstep
    obtain rfl := hstep
    refine iff_of_true h fun other body bytes hother hnone => ?_
    obtain rfl := Except.ok.inj (hwanted.symm.trans hother)
    rw [hcached] at hnone
    cases hnone
  | none =>
    simp only [hcached, Option.isSome_none, Bool.false_eq_true, if_false] at hstep
    split at hstep
    · rename_i e hfails
      obtain rfl := Option.some.inj hstep
      refine iff_of_true h fun other body bytes hother _ hbody hbytes => ?_
      obtain rfl := Except.ok.inj (hwanted.symm.trans hother)
      rw [hbody, okOr_some] at hfails
      simp only [bind, Except.bind, hbytes] at hfails
      cases hfails
    · rename_i bytes objects hmade
      obtain rfl := Option.some.inj hstep
      obtain ⟨body, hbody, hmade⟩ := bind_eq_ok.mp hmade
      obtain ⟨stored, hstored, hmade⟩ := bind_eq_ok.mp hmade
      obtain ⟨rfl, rfl⟩ := Prod.mk.inj (Except.ok.inj hmade)
      have hbody := okOr_eq_ok.mp hbody
      have havailable : Available state.presets preset := ⟨wanted, hwanted⟩
      constructor
      · intro hsound other body' bytes' hother _ _ _
        obtain rfl := Except.ok.inj (hwanted.symm.trans hother)
        exact hsound.coherent _ List.mem_cons_self
      · intro hcareful
        refine ⟨h.named, List.forall_mem_cons.mpr ⟨⟨havailable.notMem_name h.named, source, body, stored, rfl,
          lookup_cons_of_lookup hcached hbody, hstored, by simp⟩, fun made hmade => ?_⟩,
          fun key bytes hkey => ?_, List.forall_mem_cons.mpr ⟨?_, h.coherent⟩⟩
        · obtain ⟨hslash, origin, body, bytes, horigin, hbody, hbytes, hthumbnail⟩ := h.made made hmade
          exact ⟨hslash, origin, body, bytes, horigin, lookup_cons_of_lookup hcached hbody, hbytes,
            lookup_cons_of_lookup hcached hthumbnail⟩
        · by_cases hsame : key = preset.thumbnailKey source.key
          · exact .inr ⟨_, List.mem_cons_self, hsame.symm⟩
          · rw [List.lookup_cons, beq_false_of_ne hsame] at hkey
            refine (h.objects key bytes hkey).imp_right ?_
            rintro ⟨made, hmade, heq⟩
            exact ⟨made, List.mem_cons_of_mem _ hmade, heq⟩
        · exact hcareful preset body stored hwanted hcached hbody hstored

/-- **A step keeps the thumbnails sound exactly when it is careful.** -/
theorem sound_step_iff (h : state.Sound resize keyPrefix) (hstep : Step resize state event next) :
    next.Sound resize keyPrefix ↔ Careful resize state event := by
  cases event with
  | create preset => exact sound_create_iff h hstep
  | update preset => exact sound_update_iff h hstep
  | delete name => exact iff_of_true (sound_delete h hstep) trivial
  | upload source body => exact iff_of_true (sound_upload h hstep) trivial
  | request source wanted => exact sound_request_iff h hstep

/-- **A cached thumbnail is the one that was asked for**, in every run in which no preset is given another
box, mode or quality under a name and a format that thumbnails were made with, and no thumbnail is made
while something else has its name and format. -/
theorem current_of_run {events : List (Event keyPrefix)}
    (hrun : Run (When (Careful resize) (Step resize)) State.initial events state) :
    state.Current resize keyPrefix := by
  refine State.Sound.current (Run.invariant ?_ hrun (sound_initial resize keyPrefix))
  exact fun state event next h hstep => (sound_step_iff h hstep.2).mpr hstep.1

/-! ### Steps that succeed -/

theorem step_create {presets : List PresetRow} (h : createPreset state.presets preset = .ok presets) :
    Step resize state (.create preset : Event keyPrefix) { state with presets } := by
  rw [Step, step, h]

theorem step_update {existed : Bool} {presets : List PresetRow}
    (h : updatePreset state.presets preset.name preset = .ok (existed, presets)) :
    Step resize state (.update preset : Event keyPrefix) { state with presets } := by
  rw [Step, step, h]

theorem step_upload {body : Bytes} (h : state.objects.lookup source.key = none) :
    Step resize state (.upload source body)
      { state with objects := (source.key, body) :: state.objects } := by
  rw [Step, step, h]
  rfl

/-- A thumbnail that is made. -/
theorem step_make {wanted : Wanted} {body : Bytes} (hwanted : wanted.resolve state.presets = .ok preset)
    (hnone : state.objects.lookup (preset.thumbnailKey source.key) = none)
    (hbody : state.objects.lookup source.key = some body)
    (hbytes : resized resize body (specification preset) = .ok bytes) :
    Step resize state (.request source wanted) { state with
      objects := (preset.thumbnailKey source.key, bytes) :: state.objects
      made := (source.key, preset) :: state.made } := by
  have hmade : variantBytes resize state.objects source.key preset =
      .ok (bytes, (preset.thumbnailKey source.key, bytes) :: state.objects) := by
    rw [variantBytes, hnone]
    exact bind_eq_ok.mpr ⟨body, okOr_eq_ok.mpr hbody, bind_eq_ok.mpr ⟨bytes, hbytes, rfl⟩⟩
  rw [Step, step, hwanted]
  dsimp only
  rw [hmade, hnone]
  rfl

end Runs

/-! ### A card -/

/-- A photograph of a record. -/
def photo : Source "" where
  key := "posts/p1/abcdefghij12345_photo.png"
  upload := .record "posts" "p1" "photo.png" "abcdefghij12345"
  key_eq := by decide
  drawn := by decide

def card (width : ℕ) : ImagePreset := ⟨"card", some width, none, .inside, .webp, 80⟩

/-- The signature of a PNG. -/
def pngBytes : Bytes := [0x89, 0x50, 0x4E, 0x47, 0x0D, 0x0A, 0x1A, 0x0A]

/-- A service that answers with the width it was asked for. -/
def widthService : Resizer := fun _ _ spec => .ok (spec.width.toList.map UInt8.ofNat)

/-- The state after the photograph was uploaded, the card created, and its thumbnail made. -/
def afterCard : State where
  presets := (card 100).row :: defaultPresets
  objects := [((card 100).thumbnailKey photo.key, [100]), (photo.key, pngBytes)]
  made := [(photo.key, card 100)]

theorem createPreset_card : createPreset defaultPresets (card 100) = .ok ((card 100).row :: defaultPresets) :=
  createPreset_eq_ok.mpr ⟨by decide, List.forall_mem_cons.mpr (by decide), rfl⟩

theorem namedPreset_card : namedPreset ((card 100).row :: defaultPresets) "card" = .ok (card 100) := by
  rw [namedPreset_cons, fromRow_row (by decide)]
  rfl

/-- Nothing else is called `card`. -/
theorem not_clash_card {other : ImagePreset}
    (hother : Available ((card 100).row :: defaultPresets) other) : ¬ Clash (card 100) other := by
  rintro ⟨hname, -, hne⟩
  rcases available_iff.mp hother with ⟨spec, hspec⟩ | hstored
  · have hx := (name_of_parseSize hspec).2
    rw [← hname] at hx
    exact absurd hx (by decide)
  · rw [← hname] at hstored
    exact hne (Except.ok.inj (namedPreset_card.symm.trans hstored))

/-- The photograph is uploaded, the card created and asked for. -/
theorem card_is_current : afterCard.Current widthService "" :=
  @current_of_run _ _ _ [.upload photo pngBytes, .create (card 100), .request photo (.named "card")]
    (.cons ⟨trivial, step_upload rfl⟩ (.cons ⟨by simp [Careful, State.initial],
        step_create createPreset_card⟩
      (.cons ⟨by
          intro preset body bytes hpreset _ _ _ other hother
          obtain rfl := Except.ok.inj (namedPreset_card.symm.trans hpreset)
          exact not_clash_card hother,
        step_make namedPreset_card rfl rfl rfl⟩ (.nil _))))

/-- The card is given another width after its thumbnail was made, and the old one is served. -/
theorem updated_preset_is_stale :
    ¬ ∀ (keyPrefix : String) (resize : Resizer) (events : List (Event keyPrefix)) (state : State),
      Run (Step resize) State.initial events state → state.Current resize keyPrefix := by
  intro hall
  have hvalid : (card 200).validate = .ok () := by decide
  have hrun : Run (Step widthService) State.initial
      [.upload photo pngBytes, .create (card 100), .request photo (.named "card"), .update (card 200)]
      { afterCard with presets := afterCard.presets.map (written (card 200)) } :=
    .cons (step_upload rfl) (.cons (step_create createPreset_card)
      (.cons (step_make namedPreset_card rfl rfl rfl)
        (.cons (step_update (updatePreset_eq_ok.mpr ⟨hvalid, rfl, rfl⟩)) (.nil _))))
  have hnamed : namedPreset (afterCard.presets.map (written (card 200))) "card" = .ok (card 200) := by
    rw [namedPreset_update hvalid]
    exact if_pos ⟨rfl, _, List.mem_cons_self, rfl⟩
  obtain ⟨body, hbody, hbytes⟩ := hall _ _ _ _ hrun photo (.named "card") (card 200) [100] _ hnamed rfl
  obtain rfl : pngBytes = body := Option.some.inj hbody
  have hresized : resized widthService pngBytes (specification (card 200)) = .ok [200] := rfl
  rw [hresized] at hbytes
  exact absurd (Except.ok.inj hbytes) (by decide)

end LazyPock.ThumbnailCache
