import LazyPock.Files.Buckets

/-!
# Image presets

`crates/files/src/presets.rs`: a preset is a box, a way to fit an image into it and the format of the
result. A request names a stored preset, or gives a box as `400x300`. The name and the format are in the
key of every thumbnail that is made by it.

## Main definitions

* `Files.ImagePreset`, `Files.ImagePreset.fromRow`, `Files.findPreset`.
* `Files.ImagePreset.parseSize`: the box of a request.

## Main results

* `Files.ImagePreset.valid_of_parseSize`: a box that is asked for can be served.
-/

namespace LazyPock.Files

open Text

/-- How the source is fitted to the box. -/
inductive ResizeMode where
  | cover
  | contain
  | fill
  | inside
  | outside
deriving DecidableEq

def ResizeMode.parse (name : String) : Result ResizeMode :=
  if name = "cover" then .ok .cover
  else if name = "contain" then .ok .contain
  else if name = "fill" then .ok .fill
  else if name = "inside" then .ok .inside
  else if name = "outside" then .ok .outside
  else .error (.config ("unknown fit mode " ++ debug name ++
    "; expected one of cover, contain, fill, inside, outside"))

/-- The name of a format, as a key has it. -/
def OutputFormat.asStr : OutputFormat → String
  | .png => "png"
  | .jpeg => "jpeg"
  | .webp => "webp"
  | .avif => "avif"

/-- A named size an image can be served at. -/
structure ImagePreset where
  name : String
  width : Option ℕ
  height : Option ℕ
  mode : ResizeMode
  format : OutputFormat
  quality : ℕ
deriving DecidableEq

/-- A row of `_image_presets`. -/
structure PresetRow where
  name : String
  width : Option Int
  height : Option Int
  fit : String
  format : String
  quality : Int

/-- The largest box a preset may ask for. -/
def maxDimension : ℕ := 8192

namespace ImagePreset

/-- One side of a stored box. -/
def dimension (name axis : String) : Option Int → Result (Option ℕ)
  | none => .ok none
  | some value =>
    if 0 < value ∧ value ≤ maxDimension then .ok (some value.toNat)
    else .error (.config ("image preset " ++ debug name ++ " asks for a " ++ axis ++ " of " ++
      toString value ++ ", outside 1..=" ++ toString maxDimension))

/-- Read a preset from its row. -/
def fromRow (row : PresetRow) : Result ImagePreset := do
  let width ← dimension row.name "width" row.width
  let height ← dimension row.name "height" row.height
  failIf (width = none ∧ height = none)
    (.config ("image preset " ++ debug row.name ++ " gives neither a width nor a height"))
  failIf (¬ (1 ≤ row.quality ∧ row.quality ≤ 100))
    (.config ("image preset " ++ debug row.name ++ " has quality " ++ toString row.quality ++
      ", outside 1-100"))
  let mode ← ResizeMode.parse row.fit
  let format ← OutputFormat.parse row.format
  return ⟨row.name, width, height, mode, format, row.quality.toNat⟩

/-- Where the thumbnail of a source is cached. -/
def thumbnailKey (preset : ImagePreset) (source : String) : String :=
  Files.thumbnailKey source preset.name preset.format.asStr

/-- One side of a box in a request. -/
def parseSide (axis value : String) : Result ℕ := do
  let number ← okOr (.invalid ("the thumbnail " ++ axis ++ " must be a whole number"))
    (parseUInt 32 (trim value))
  failIf (number = 0 ∨ maxDimension < number)
    (.invalid ("the thumbnail " ++ axis ++ " must be between 1 and " ++ toString maxDimension))
  return number

/-- The two sides of a box, cut at the first `x`, small or large. -/
def splitSize (specification : String) : Option (String × String) :=
  let before := specification.toList.takeWhile fun c => c ≠ 'x' ∧ c ≠ 'X'
  match specification.toList.dropWhile fun c => c ≠ 'x' ∧ c ≠ 'X' with
  | [] => none
  | _ :: after => some (String.ofList before, String.ofList after)

/-- Parse a `WxH` specification. -/
def parseSize (specification : String) : Result ImagePreset := do
  failIf (specification = "") (.invalid "expected a size like `400x300`, got an empty value")
  let (width, height) ← okOr
    (.invalid ("expected a size like `400x300`, got " ++ debug specification))
    (splitSize specification)
  let width ← parseSide "width" width
  let height ← parseSide "height" height
  -- What two numbers and an `x` are made of has no capital letters but the `X`.
  return ⟨toAsciiLowercase specification, some width, some height, .inside,
    .webp, 80⟩

end ImagePreset

/-- `find`: look one preset up by name. -/
def findPreset (presets : List PresetRow) (name : String) : Result (Option ImagePreset) :=
  match presets.find? fun row => row.name = name with
  | some row => (ImagePreset.fromRow row).map some
  | none => .ok none

/-! ### What a preset can be -/

namespace ImagePreset

/-- A preset that can be served: some side is given, and every number is in its bounds. -/
structure Valid (preset : ImagePreset) : Prop where
  side : preset.width ≠ none ∨ preset.height ≠ none
  width : ∀ width ∈ preset.width, 0 < width ∧ width ≤ maxDimension
  height : ∀ height ∈ preset.height, 0 < height ∧ height ≤ maxDimension
  quality : 0 < preset.quality ∧ preset.quality ≤ 100

theorem fromRow_eq_ok {row : PresetRow} {preset : ImagePreset} (h : fromRow row = .ok preset) :
    preset.name = row.name ∧ dimension row.name "width" row.width = .ok preset.width ∧
      dimension row.name "height" row.height = .ok preset.height ∧
      (preset.width ≠ none ∨ preset.height ≠ none) ∧
      0 < preset.quality ∧ preset.quality ≤ 100 := by
  obtain ⟨width, hwidth, h⟩ := bind_eq_ok.mp h
  obtain ⟨height, hheight, h⟩ := bind_eq_ok.mp h
  obtain ⟨_, hsides, h⟩ := bind_eq_ok.mp h
  obtain ⟨_, hquality, h⟩ := bind_eq_ok.mp h
  obtain ⟨mode, -, h⟩ := bind_eq_ok.mp h
  obtain ⟨format, -, h⟩ := bind_eq_ok.mp h
  obtain rfl := Except.ok.inj h
  have hbounds := not_not.mp (failIf_eq_ok.mp hquality)
  exact ⟨rfl, hwidth, hheight, not_and_or.mp (failIf_eq_ok.mp hsides), by dsimp only; omega,
    by dsimp only; omega⟩

theorem parseSide_spec {axis value : String} {n : ℕ} (h : parseSide axis value = .ok n) :
    0 < n ∧ n ≤ maxDimension := by
  obtain ⟨number, -, h⟩ := bind_eq_ok.mp h
  obtain ⟨_, hbounds, h⟩ := bind_eq_ok.mp h
  obtain rfl := Except.ok.inj h
  have := failIf_eq_ok.mp hbounds
  omega

theorem valid_of_parseSize {specification : String} {preset : ImagePreset}
    (h : parseSize specification = .ok preset) : preset.Valid := by
  obtain ⟨_, -, h⟩ := bind_eq_ok.mp h
  obtain ⟨sides, -, h⟩ := bind_eq_ok.mp h
  obtain ⟨width, hwidth, h⟩ := bind_eq_ok.mp h
  obtain ⟨height, hheight, h⟩ := bind_eq_ok.mp h
  obtain rfl := Except.ok.inj h
  refine ⟨.inl (by simp), ?_, ?_, by simp⟩
  · rintro n hn
    obtain rfl := Option.some.inj hn
    exact parseSide_spec hwidth
  · rintro n hn
    obtain rfl := Option.some.inj hn
    exact parseSide_spec hheight

end ImagePreset

/-- A preset is found under its own name. -/
theorem name_of_findPreset {presets : List PresetRow} {name : String} {preset : ImagePreset}
    (h : findPreset presets name = .ok (some preset)) : preset.name = name := by
  unfold findPreset at h
  split at h
  · rename_i row hrow
    obtain ⟨found, hfound, hpreset⟩ := map_eq_ok.mp h
    obtain rfl := Option.some.inj hpreset
    have hname := List.find?_some hrow
    rw [decide_eq_true_eq] at hname
    exact (ImagePreset.fromRow_eq_ok hfound).1.trans hname
  · cases Except.ok.inj h

example : (ImagePreset.parseSize "400X300").toOption.map ImagePreset.name = some "400x300" := by
  decide

end LazyPock.Files
