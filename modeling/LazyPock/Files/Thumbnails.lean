import LazyPock.Files.Attribution
import Mathlib.Algebra.Order.Floor.Semifield
import Mathlib.Data.Rat.Floor
import Mathlib.Tactic.FieldSimp
import Mathlib.Tactic.Positivity
import Mathlib.Tactic.Linarith

/-!
# The sizes of a thumbnail

`resolve_box` and `fit` of `crates/files/src/thumbnail.rs`, with rationals in place of `f64`. A side that
a preset leaves open is derived from the proportions of the source, after the given side was checked, and
a mode that enlarges scales the source to the box. The sizes are those of the images that are built: the
scaled one, and what is cut out of it.

## Main definitions

* `Files.resolveBox`, `Files.fit`.
* `Files.WellSized`: what a thumbnail must be.
* `Files.StaysSmall`: the sources and presets of which no side grows beyond the limit.

## Main results

* `Files.wellSized_iff`.
-/

namespace LazyPock.Files

/-! ### Boxes and modes -/

/-- `x.round() as u32`, for a number that is not negative. -/
def roundU32 (x : ℚ) : ℕ := min ⌊x + 1 / 2⌋₊ (2 ^ 32 - 1)

/-- `check` of `resolve_box`. -/
def checkSide (value : ℕ) (axis : String) : Result ℕ := do
  failIf (value = 0 ∨ maxDimension < value)
    (.invalid ("the thumbnail " ++ axis ++ " must be between 1 and " ++ toString maxDimension))
  .ok value

/-- The box to fit the source into, deriving a missing side from the source. -/
def resolveBox (sourceWidth sourceHeight : ℕ) (width height : Option ℕ) : Result (ℕ × ℕ) :=
  match width, height with
  | some width, some height => do
    let width ← checkSide width "width"
    let height ← checkSide height "height"
    .ok (width, height)
  | some width, none => do
    let width ← checkSide width "width"
    let ratio : ℚ := sourceHeight / sourceWidth
    .ok (width, max (roundU32 (width * ratio)) 1)
  | none, some height => do
    let height ← checkSide height "height"
    let ratio : ℚ := sourceWidth / sourceHeight
    .ok (max (roundU32 (height * ratio)) 1, height)
  | none, none => .error (.config "an image preset must give a width, a height, or both")

/-- Whether a mode can enlarge a source smaller than the box. -/
@[grind =]
def ResizeMode.enlarges : ResizeMode → Bool
  | .contain | .outside | .fill => true
  | .inside | .cover => false

/-- How much the source is scaled. -/
@[grind =]
def scaleOf (source box : ℕ × ℕ) (mode : ResizeMode) : ℚ :=
  let horizontal : ℚ := box.1 / source.1
  let vertical : ℚ := box.2 / source.2
  let scale := match mode with
    | .cover | .outside => max horizontal vertical
    | .contain | .inside => min horizontal vertical
    -- unreachable in the code
    | .fill => 1
  if mode.enlarges then scale else min scale 1

/-- The images that are built, by their sizes: the scaled one, and the result. -/
structure Built where
  scaled : ℕ × ℕ
  output : ℕ × ℕ
deriving DecidableEq

/-- Apply the fit mode against a box. -/
def fit (source box : ℕ × ℕ) (mode : ResizeMode) : Built :=
  if mode = .fill then ⟨box, box⟩
  else
    let scale := scaleOf source box mode
    let target := (max (roundU32 (source.1 * scale)) 1, max (roundU32 (source.2 * scale)) 1)
    -- cut from the centre
    if mode = .cover then ⟨target, (min box.1 target.1, min box.2 target.2)⟩
    else ⟨target, target⟩

/-! ### Rounding -/

section Rounding

variable {x y : ℚ} {m n k : ℕ}

theorem roundU32_mono (h : x ≤ y) : roundU32 x ≤ roundU32 y :=
  min_le_min_right _ (Nat.floor_mono (by linarith))

/-- A whole number is not changed. -/
theorem roundU32_natCast (hn : n < 2 ^ 32) : roundU32 n = n := by
  have hfloor : ⌊(n : ℚ) + 1 / 2⌋₊ = n := by
    rw [Nat.floor_eq_iff (by positivity)]
    constructor <;> linarith
  rw [roundU32, hfloor, min_eq_left (by omega)]

/-- `a` times `b / c`, rounded half up, at least one: in whole numbers. -/
def proportion (a b c : ℕ) : ℕ := max ((2 * a * b + c) / (2 * c)) 1

theorem floor_half (a b : ℕ) {c : ℕ} (hc : 0 < c) :
    ⌊(a : ℚ) * (b / c) + 1 / 2⌋₊ = (2 * a * b + c) / (2 * c) := by
  have hc' : (c : ℚ) ≠ 0 := by positivity
  have heq : (a : ℚ) * (b / c) + 1 / 2 = ((2 * a * b + c : ℕ) : ℚ) / ((2 * c : ℕ) : ℚ) := by
    push_cast
    field_simp
  rw [heq, Nat.floor_div_eq_div]

/-- The side that the code derives from another one and a ratio. -/
def derivedSide (a b c : ℕ) : ℕ := max (roundU32 (a * ((b : ℚ) / c))) 1

theorem derivedSide_eq (a b : ℕ) {c : ℕ} (hc : 0 < c) :
    derivedSide a b c = min (proportion a b c) (2 ^ 32 - 1) := by
  rw [derivedSide, roundU32, floor_half a b hc, proportion]
  omega

/-- The source's side scaled to its own side of the box. -/
theorem roundU32_own {source box : ℕ} (hsource : 0 < source) (hbox : box < 2 ^ 32) :
    roundU32 (source * ((box : ℚ) / source)) = box := by
  have hne : (source : ℚ) ≠ 0 := by positivity
  rw [mul_div_cancel₀ _ hne, roundU32_natCast hbox]

/-- The source's side scaled to the other side of the box. -/
theorem mul_ratio (a b c : ℕ) : (a : ℚ) * ((b : ℚ) / c) = b * ((a : ℚ) / c) := by
  ring

end Rounding

/-! ### The sides of the images -/

section Sides

variable {source box : ℕ × ℕ}

/-- A source and a box of images that exist. -/
structure Proper (source box : ℕ × ℕ) : Prop where
  sourceWidth : 0 < source.1
  sourceHeight : 0 < source.2
  boxWidth : 0 < box.1
  boxHeight : 0 < box.2
  boxWidth_lt : box.1 < 2 ^ 32
  boxHeight_lt : box.2 < 2 ^ 32

/-- The sides of the source scaled to the larger of the two ratios. -/
theorem scaled_max (h : Proper source box) :
    max (roundU32 (source.1 * max ((box.1 : ℚ) / source.1) (box.2 / source.2))) 1 =
        max box.1 (derivedSide box.2 source.1 source.2) ∧
      max (roundU32 (source.2 * max ((box.1 : ℚ) / source.1) (box.2 / source.2))) 1 =
        max box.2 (derivedSide box.1 source.2 source.1) := by
  have hmono : Monotone roundU32 := fun x y hxy => roundU32_mono hxy
  have hpos₁ := h.boxWidth
  have hpos₂ := h.boxHeight
  constructor
  · rw [mul_max_of_nonneg _ _ (by positivity), hmono.map_max, roundU32_own h.sourceWidth h.boxWidth_lt,
      mul_ratio, derivedSide]
    omega
  · rw [mul_max_of_nonneg _ _ (by positivity), hmono.map_max, roundU32_own h.sourceHeight h.boxHeight_lt,
      mul_ratio, derivedSide]
    omega

/-- The sides of the source scaled to the smaller of the two ratios. -/
theorem scaled_min (h : Proper source box) :
    max (roundU32 (source.1 * min ((box.1 : ℚ) / source.1) (box.2 / source.2))) 1 =
        min box.1 (derivedSide box.2 source.1 source.2) ∧
      max (roundU32 (source.2 * min ((box.1 : ℚ) / source.1) (box.2 / source.2))) 1 =
        min box.2 (derivedSide box.1 source.2 source.1) := by
  have hmono : Monotone roundU32 := fun x y hxy => roundU32_mono hxy
  have hpos₁ := h.boxWidth
  have hpos₂ := h.boxHeight
  constructor
  · rw [mul_min_of_nonneg _ _ (by positivity), hmono.map_min, roundU32_own h.sourceWidth h.boxWidth_lt,
      mul_ratio, derivedSide]
    omega
  · rw [mul_min_of_nonneg _ _ (by positivity), hmono.map_min, roundU32_own h.sourceHeight h.boxHeight_lt,
      mul_ratio, derivedSide]
    omega

/-- A scale that is cut at one does not enlarge. -/
theorem scaled_min_one {n : ℕ} (scale : ℚ) (hn : n < 2 ^ 32) (hpos : 0 < n) :
    max (roundU32 (n * min scale 1)) 1 = min n (max (roundU32 (n * scale)) 1) := by
  have hmono : Monotone roundU32 := fun x y hxy => roundU32_mono hxy
  rw [mul_min_of_nonneg _ _ (by positivity), hmono.map_min, mul_one, roundU32_natCast hn]
  omega

theorem fit_contain (h : Proper source box) : fit source box .contain =
    ⟨(min box.1 (derivedSide box.2 source.1 source.2), min box.2 (derivedSide box.1 source.2 source.1)),
      (min box.1 (derivedSide box.2 source.1 source.2),
        min box.2 (derivedSide box.1 source.2 source.1))⟩ := by
  simp [fit, scaleOf, ResizeMode.enlarges, scaled_min h]

theorem fit_outside (h : Proper source box) : fit source box .outside =
    ⟨(max box.1 (derivedSide box.2 source.1 source.2), max box.2 (derivedSide box.1 source.2 source.1)),
      (max box.1 (derivedSide box.2 source.1 source.2),
        max box.2 (derivedSide box.1 source.2 source.1))⟩ := by
  simp [fit, scaleOf, ResizeMode.enlarges, scaled_max h]

theorem fit_inside (h : Proper source box) (hw : source.1 < 2 ^ 32) (hh : source.2 < 2 ^ 32) :
    (fit source box .inside).scaled = (fit source box .inside).output ∧
      (fit source box .inside).output =
        (min source.1 (min box.1 (derivedSide box.2 source.1 source.2)),
          min source.2 (min box.2 (derivedSide box.1 source.2 source.1))) := by
  obtain ⟨hwidth, hheight⟩ := scaled_min h
  refine ⟨by simp [fit], ?_⟩
  rw [← hwidth, ← hheight, ← scaled_min_one _ hw h.sourceWidth, ← scaled_min_one _ hh h.sourceHeight]
  simp [fit, scaleOf, ResizeMode.enlarges]

theorem fit_cover (h : Proper source box) (hw : source.1 < 2 ^ 32) (hh : source.2 < 2 ^ 32) :
    (fit source box .cover).scaled =
        (min source.1 (max box.1 (derivedSide box.2 source.1 source.2)),
          min source.2 (max box.2 (derivedSide box.1 source.2 source.1))) ∧
      (fit source box .cover).output = (min box.1 (fit source box .cover).scaled.1,
        min box.2 (fit source box .cover).scaled.2) := by
  obtain ⟨hwidth, hheight⟩ := scaled_max h
  refine ⟨?_, by simp [fit]⟩
  rw [← hwidth, ← hheight, ← scaled_min_one _ hw h.sourceWidth, ← scaled_min_one _ hh h.sourceHeight]
  simp [fit, scaleOf, ResizeMode.enlarges]

end Sides

/-! ### What a thumbnail must be -/

/-- The largest side that an image made of a source may have. -/
def sideLimit (source : ℕ × ℕ) : ℕ := max maxDimension (max source.1 source.2)

/-- **A thumbnail as it must be**: no image that is built is larger than the limit, and the mode is
respected. -/
structure WellSized (source box : ℕ × ℕ) (mode : ResizeMode) (built : Built) : Prop where
  small : ∀ image ∈ [built.scaled, built.output],
    (1 ≤ image.1 ∧ image.1 ≤ sideLimit source) ∧ 1 ≤ image.2 ∧ image.2 ≤ sideLimit source
  within : mode = .inside ∨ mode = .contain → built.output.1 ≤ box.1 ∧ built.output.2 ≤ box.2
  covers : mode = .cover → box.1 ≤ source.1 → box.2 ≤ source.2 → built.output = box
  shrinks : mode = .inside ∨ mode = .cover → ∀ image ∈ [built.scaled, built.output],
    image.1 ≤ source.1 ∧ image.2 ≤ source.2

/-- The sides of the box that are within the limit, and for `outside` also those of the source scaled to
each of them. -/
@[grind =]
def SmallBox (source box : ℕ × ℕ) : ResizeMode → Prop
  | .inside | .cover => True
  | .contain => min box.1 (derivedSide box.2 source.1 source.2) ≤ maxDimension ∧
      min box.2 (derivedSide box.1 source.2 source.1) ≤ maxDimension
  | .fill => box.1 ≤ maxDimension ∧ box.2 ≤ maxDimension
  | .outside => max box.1 (derivedSide box.2 source.1 source.2) ≤ maxDimension ∧
      max box.2 (derivedSide box.1 source.2 source.1) ≤ maxDimension

section WellSized

variable {source box : ℕ × ℕ} {mode : ResizeMode}

theorem derivedSide_pos (a b c : ℕ) : 1 ≤ derivedSide a b c := le_max_right _ _

/-- Of a source within the limit, the sides decide. -/
theorem wellSized_fit_iff (h : Proper source box) (hw : source.1 ≤ maxDimension)
    (hh : source.2 ≤ maxDimension) :
    WellSized source box mode (fit source box mode) ↔ SmallBox source box mode := by
  have hlimit : sideLimit source = maxDimension := by
    rw [sideLimit]
    omega
  have hmax : maxDimension = 8192 := rfl
  have hwidth := derivedSide_pos box.2 source.1 source.2
  have hheight := derivedSide_pos box.1 source.2 source.1
  have := h.sourceWidth
  have := h.sourceHeight
  have := h.boxWidth
  have := h.boxHeight
  cases mode with
  | cover =>
    obtain ⟨hscaled, houtput⟩ := fit_cover h (by omega) (by omega)
    refine iff_of_true ⟨?_, by simp, ?_, ?_⟩ trivial
    · simp only [List.mem_cons, List.not_mem_nil, or_false, forall_eq_or_imp, forall_eq, houtput, hscaled,
        hlimit]
      omega
    · intro _ hcover hcover'
      rw [houtput, hscaled]
      exact Prod.ext (by dsimp only; omega) (by dsimp only; omega)
    · simp only [List.mem_cons, List.not_mem_nil, or_false, forall_eq_or_imp, forall_eq, houtput, hscaled]
      omega
  | inside =>
    obtain ⟨hscaled, houtput⟩ := fit_inside h (by omega) (by omega)
    refine iff_of_true ⟨?_, ?_, by simp, ?_⟩ trivial
    · simp only [List.mem_cons, List.not_mem_nil, or_false, forall_eq_or_imp, forall_eq, houtput, hscaled,
        hlimit]
      omega
    · rw [houtput]
      intro _
      dsimp only
      omega
    · simp only [List.mem_cons, List.not_mem_nil, or_false, forall_eq_or_imp, forall_eq, houtput, hscaled]
      omega
  | contain =>
    rw [fit_contain h]
    constructor
    · intro hsized
      have hsmall := hsized.small _ List.mem_cons_self
      rw [hlimit] at hsmall
      exact ⟨hsmall.1.2, hsmall.2.2⟩
    · rintro ⟨hsmall, hsmall'⟩
      refine ⟨?_, fun _ => ⟨min_le_left _ _, min_le_left _ _⟩, by simp, by simp⟩
      simp only [List.mem_cons, List.not_mem_nil, or_false, forall_eq_or_imp, forall_eq, hlimit]
      omega
  | fill =>
    have hfit : fit source box .fill = ⟨box, box⟩ := if_pos rfl
    rw [hfit]
    constructor
    · intro hsized
      have hsmall := hsized.small _ List.mem_cons_self
      rw [hlimit] at hsmall
      exact ⟨hsmall.1.2, hsmall.2.2⟩
    · rintro ⟨hsmall, hsmall'⟩
      refine ⟨?_, by simp, by simp, by simp⟩
      simp only [List.mem_cons, List.not_mem_nil, or_false, forall_eq_or_imp, forall_eq, hlimit]
      omega
  | outside =>
    rw [fit_outside h]
    constructor
    · intro hsized
      have hsmall := hsized.small _ List.mem_cons_self
      rw [hlimit] at hsmall
      exact ⟨hsmall.1.2, hsmall.2.2⟩
    · rintro ⟨hsmall, hsmall'⟩
      refine ⟨?_, by simp, by simp, by simp⟩
      simp only [List.mem_cons, List.not_mem_nil, or_false, forall_eq_or_imp, forall_eq, hlimit]
      omega

end WellSized

/-! ### The sides that a preset gives -/

section Preset

variable {source : ℕ × ℕ} {preset : ImagePreset} {spec : String}

/-- The box of a preset, with the open side in the proportions of the source. -/
@[grind =]
def wholeBox (source : ℕ × ℕ) : Option ℕ → Option ℕ → ℕ × ℕ
  | some width, some height => (width, height)
  | some width, none => (width, proportion width source.2 source.1)
  | none, some height => (proportion height source.1 source.2, height)
  | none, none => (0, 0)

/-- The mode does not enlarge, or the box in the proportions of the source is within the limit: also the
source scaled to either side of it, where the mode is `outside`. -/
@[grind =]
def StaysSmall (source : ℕ × ℕ) (width height : Option ℕ) : ResizeMode → Prop
  | .inside | .cover => True
  | .contain | .fill =>
    (wholeBox source width height).1 ≤ maxDimension ∧ (wholeBox source width height).2 ≤ maxDimension
  | .outside =>
    ((wholeBox source width height).1 ≤ maxDimension ∧ (wholeBox source width height).2 ≤ maxDimension) ∧
      proportion (wholeBox source width height).2 source.1 source.2 ≤ maxDimension ∧
      proportion (wholeBox source width height).1 source.2 source.1 ≤ maxDimension

/-- A side derived from a side that is itself within the limit. -/
theorem derivedSide_le_iff (a b : ℕ) {c : ℕ} (hc : 0 < c) :
    derivedSide a b c ≤ maxDimension ↔ proportion a b c ≤ maxDimension := by
  have hmax : maxDimension = 8192 := rfl
  rw [derivedSide_eq a b hc]
  omega

theorem checkSide_eq_ok {side : ℕ} {axis : String} (h : 0 < side ∧ side ≤ maxDimension) :
    checkSide side axis = .ok side := by
  have hfits : ¬(side = 0 ∨ maxDimension < side) := by omega
  exact bind_eq_ok.mpr ⟨(), failIf_eq_ok.mpr hfits, rfl⟩

theorem resolveBox_width {width : ℕ} (h : 0 < width ∧ width ≤ maxDimension) :
    resolveBox source.1 source.2 (some width) none =
      .ok (width, derivedSide width source.2 source.1) :=
  bind_eq_ok.mpr ⟨_, checkSide_eq_ok h, rfl⟩

theorem resolveBox_height {height : ℕ} (h : 0 < height ∧ height ≤ maxDimension) :
    resolveBox source.1 source.2 none (some height) =
      .ok (derivedSide height source.1 source.2, height) :=
  bind_eq_ok.mpr ⟨_, checkSide_eq_ok h, rfl⟩

/-- A preset that can be served has a box, and its small sides are those of the preset. -/
theorem exists_resolveBox (hpreset : preset.Valid) (hwidth : 0 < source.1) (hheight : 0 < source.2) :
    ∃ box, resolveBox source.1 source.2 preset.width preset.height = .ok box ∧ Proper source box ∧
      (SmallBox source box preset.mode ↔ StaysSmall source preset.width preset.height preset.mode) := by
  have hmax : maxDimension = 8192 := rfl
  obtain ⟨name, width, height, mode, format, quality⟩ := preset
  cases width with
  | some width =>
    have hgiven := hpreset.width width rfl
    cases height with
    | some height =>
      have hgiven' := hpreset.height height rfl
      refine ⟨(width, height), bind_eq_ok.mpr ⟨_, checkSide_eq_ok hgiven,
        bind_eq_ok.mpr ⟨_, checkSide_eq_ok hgiven', rfl⟩⟩, ⟨hwidth, hheight, hgiven.1, hgiven'.1,
        by dsimp only; omega, by dsimp only; omega⟩, ?_⟩
      have := derivedSide_le_iff height source.1 hheight
      have := derivedSide_le_iff width source.2 hwidth
      cases mode <;> simp only [SmallBox, StaysSmall, wholeBox] <;> omega
    | none =>
      have hside := derivedSide_eq width source.2 hwidth
      have hle := derivedSide_le_iff width source.2 hwidth
      have hpos := derivedSide_pos width source.2 source.1
      refine ⟨(width, derivedSide width source.2 source.1), resolveBox_width hgiven,
        ⟨hwidth, hheight, hgiven.1, hpos, by dsimp only; omega, by dsimp only; omega⟩, ?_⟩
      have hback := derivedSide_le_iff (derivedSide width source.2 source.1) source.1 hheight
      by_cases hsmall : proportion width source.2 source.1 ≤ maxDimension
      · have hsame : derivedSide width source.2 source.1 = proportion width source.2 source.1 := by omega
        rw [hsame] at hback ⊢
        cases mode <;> simp only [SmallBox, StaysSmall, wholeBox, hsame] <;> omega
      · cases mode <;> simp only [SmallBox, StaysSmall, wholeBox] <;> omega
  | none =>
    cases height with
    | none => exact absurd hpreset.side (by simp)
    | some height =>
      have hgiven := hpreset.height height rfl
      have hside := derivedSide_eq height source.1 hheight
      have hle := derivedSide_le_iff height source.1 hheight
      have hpos := derivedSide_pos height source.1 source.2
      refine ⟨(derivedSide height source.1 source.2, height), resolveBox_height hgiven,
        ⟨hwidth, hheight, hpos, hgiven.1, by dsimp only; omega, by dsimp only; omega⟩, ?_⟩
      have hback := derivedSide_le_iff (derivedSide height source.1 source.2) source.2 hwidth
      by_cases hsmall : proportion height source.1 source.2 ≤ maxDimension
      · have hsame : derivedSide height source.1 source.2 = proportion height source.1 source.2 := by omega
        rw [hsame] at hback ⊢
        cases mode <;> simp only [SmallBox, StaysSmall, wholeBox, hsame] <;> omega
      · cases mode <;> simp only [SmallBox, StaysSmall, wholeBox] <;> omega

/-- **When a thumbnail is as it must be.** Of a source and a preset that are accepted, the images that are
built are within the limit and respect the mode if and only if the box stays small. -/
theorem wellSized_iff (hpreset : preset.validate = .ok () ∨ ImagePreset.parseSize spec = .ok preset)
    (hwidth : 1 ≤ source.1 ∧ source.1 ≤ maxDimension)
    (hheight : 1 ≤ source.2 ∧ source.2 ≤ maxDimension) :
    ∃ box, resolveBox source.1 source.2 preset.width preset.height = .ok box ∧
      (WellSized source box preset.mode (fit source box preset.mode) ↔
        StaysSmall source preset.width preset.height preset.mode) := by
  have hvalid : preset.Valid := by
    rcases hpreset with hpreset | hpreset
    · exact (ImagePreset.valid_of_validate hpreset).2
    · exact ImagePreset.valid_of_parseSize hpreset
  obtain ⟨box, hbox, hproper, hsmall⟩ :=
    exists_resolveBox hvalid hwidth.1 hheight.1
  exact ⟨box, hbox, (wellSized_fit_iff hproper hwidth.2 hheight.2).trans hsmall⟩

/-- A photograph with a preset that gives the width only. -/
theorem wellSized_card :
    ∃ box, resolveBox 4000 3000 (some 400) none = .ok box ∧
      (WellSized (4000, 3000) box .contain (fit (4000, 3000) box .contain) ↔
        StaysSmall (4000, 3000) (some 400) none .contain) :=
  @wellSized_iff (4000, 3000) ⟨"card", some 400, none, .contain, .webp, 80⟩ ""
    (.inl (by decide)) (by decide) (by decide)

/-- A strip of one column, at a given width: the side left open is derived after the other was checked. -/
theorem strip_grows :
    ¬ ∀ (preset : ImagePreset) (source : ℕ × ℕ), preset.validate = .ok () →
      (1 ≤ source.1 ∧ source.1 ≤ maxDimension) → (1 ≤ source.2 ∧ source.2 ≤ maxDimension) →
      ∃ box, resolveBox source.1 source.2 preset.width preset.height = .ok box ∧
        WellSized source box preset.mode (fit source box preset.mode) := by
  intro hall
  have hpreset : ImagePreset.validate ⟨"banner", some 8192, none, .fill, .webp, 80⟩ = .ok () := by
    decide
  obtain ⟨box, hbox, hsized⟩ := hall _ (1, 8192) hpreset (by decide) (by decide)
  obtain ⟨box', hbox', hproper, hsmall⟩ := @exists_resolveBox (1, 8192) _
    (ImagePreset.valid_of_validate hpreset).2 (by decide) (by decide)
  obtain rfl : box = box' := Except.ok.inj (hbox.symm.trans hbox')
  have hgrown := hsmall.mp ((wellSized_fit_iff hproper (by decide) (by decide)).mp hsized)
  exact absurd hgrown.2 (by decide)

end Preset

end LazyPock.Files
