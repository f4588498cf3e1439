import LazyPock.Core.Error

/-!
# What an upload must look like

`crates/files/src/validation.rs`: the format of an image comes from its bytes, never from what the
client declares. A file is accepted where it is not empty, not too large and no SVG, where its
signature is that of a permitted format, and where its header has dimensions within the limits.

## Main definitions

* `Files.ImageFormat`, `Files.UploadLimits`.
* `Files.sniff`, `Files.looksLikeSvg`, `Files.dimensions`.
* `Files.validate`.

## Main results

* `Files.validate_eq_ok`: what is accepted.
-/

namespace LazyPock.Files

open Text

abbrev Bytes : Type := List UInt8

/-! ### Formats -/

/-- The formats that are accepted, and can be measured. -/
inductive ImageFormat where
  | png
  | jpeg
  | gif
  | webp
deriving DecidableEq

namespace ImageFormat

/-- Short name, for errors and field options. -/
def asStr : ImageFormat → String
  | png => "png"
  | jpeg => "jpeg"
  | gif => "gif"
  | webp => "webp"

/-- Content type to serve it with. -/
def contentType : ImageFormat → String
  | png => "image/png"
  | jpeg => "image/jpeg"
  | gif => "image/gif"
  | webp => "image/webp"

/-- Parse a format name, as configured on a field. -/
def parse (raw : String) : Result ImageFormat :=
  let name := String.ofList ((trim raw).toList.map Char.toLower)
  if name = "png" then .ok png
  else if name = "jpg" ∨ name = "jpeg" then .ok jpeg
  else if name = "gif" then .ok gif
  else if name = "webp" then .ok webp
  else .error (.config ("unsupported image type " ++ debug name ++
    "; supported: png, jpeg, gif, webp"))

end ImageFormat

/-- Limits for one upload. -/
structure UploadLimits where
  /-- Largest accepted body. -/
  maxBytes : ℕ
  /-- Largest permitted width or height. -/
  maxDimension : ℕ
  /-- Permitted formats; empty means every format that can be measured. -/
  allowed : List ImageFormat

/-- `UploadLimits::default` -/
def UploadLimits.default : UploadLimits := ⟨5 * 1024 * 1024, 8192, []⟩

/-- The bytes of an ASCII text. -/
def ascii (text : String) : Bytes := text.toList.map fun c => UInt8.ofNat c.toNat

/-- Sniff the format from the bytes themselves. -/
def sniff (content : Bytes) : Option ImageFormat :=
  if ([0x89] ++ ascii "PNG\r\n" ++ [0x1a] ++ ascii "\n").isPrefixOf content then some .png
  else if ([0xFF, 0xD8, 0xFF] : Bytes).isPrefixOf content then some .jpeg
  else if (ascii "GIF87a").isPrefixOf content ∨ (ascii "GIF89a").isPrefixOf content then some .gif
  else if 12 ≤ content.length ∧ content.take 4 = ascii "RIFF" ∧
      (content.drop 8).take 4 = ascii "WEBP" then some .webp
  else none

/-! ### SVG -/

/-- White space that takes three bytes. -/
def wideSpaces : List Bytes :=
  [[0xE1, 0x9A, 0x80], [0xE2, 0x80, 0xA8], [0xE2, 0x80, 0xA9], [0xE2, 0x80, 0xAF],
    [0xE2, 0x81, 0x9F], [0xE3, 0x80, 0x80]] ++
  (List.range 11).map fun i => [0xE2, 0x80, UInt8.ofNat (0x80 + i)]

/-- The length of the white space character that the bytes start with; zero if there is none. -/
def spaceLen (content : Bytes) : ℕ :=
  match content with
  | [] => 0
  | b :: _ =>
    if (9 ≤ b ∧ b ≤ 13) ∨ b = 32 then 1
    else if ([0xC2, 0x85] : Bytes).isPrefixOf content ∨ ([0xC2, 0xA0] : Bytes).isPrefixOf content then 2
    else if wideSpaces.any fun space => space.isPrefixOf content then 3
    else 0

/-- `trim_start`, on the bytes of a text. The rest of a character is skipped after its first byte. -/
def trimStart : (skip : ℕ) → Bytes → Bytes
  | _, [] => []
  | skip + 1, _ :: rest => trimStart skip rest
  | 0, b :: rest => match spaceLen (b :: rest) with
    | 0 => b :: rest
    | n + 1 => trimStart n rest

/-- `to_ascii_lowercase` -/
def lowerByte (b : UInt8) : UInt8 := if 65 ≤ b ∧ b ≤ 90 then b + 32 else b

/-- Whether the bytes look like SVG or XML, which is refused however they are labelled. Bytes that are
no text are replaced before the search, and what replaces them is not searched for. -/
def looksLikeSvg (content : Bytes) : Bool :=
  let trimmed := trimStart 0 ((content.take 512).map lowerByte)
  (ascii "<?xml").isPrefixOf trimmed || (ascii "<svg").isPrefixOf trimmed ||
    trimmed.tails.any (ascii "<svg").isPrefixOf

/-! ### Dimensions -/

/-- A byte as a number. -/
def byteAt (content : Bytes) (index : ℕ) : ℕ := (content.getD index 0).toNat

/-- `u16::from_be_bytes` -/
def be16 (content : Bytes) (index : ℕ) : ℕ := byteAt content index * 256 + byteAt content (index + 1)

/-- `u16::from_le_bytes` -/
def le16 (content : Bytes) (index : ℕ) : ℕ := byteAt content index + byteAt content (index + 1) * 256

def pngDimensions (content : Bytes) : Option (ℕ × ℕ) :=
  if content.length < 24 ∨ (content.drop 12).take 4 ≠ ascii "IHDR" then none
  else some (be16 content 16 * 65536 + be16 content 18, be16 content 20 * 65536 + be16 content 22)

def gifDimensions (content : Bytes) : Option (ℕ × ℕ) :=
  if content.length < 10 then none else some (le16 content 6, le16 content 8)

def webpDimensions (content : Bytes) : Option (ℕ × ℕ) :=
  let chunk := (content.drop 12).take 4
  if content.length < 30 then none
  -- Lossy: a 14-bit width and height follow a 3-byte frame tag.
  else if chunk = ascii "VP8 " then some (le16 content 26 % 16384, le16 content 28 % 16384)
  -- Lossless: packed after the signature byte.
  else if chunk = ascii "VP8L" then
    let bits := le16 content 21 + le16 content 23 * 65536
    some (bits % 16384 + 1, bits / 16384 % 16384 + 1)
  -- Extended: 24-bit canvas size, stored as size - 1.
  else if chunk = ascii "VP8X" then
    some (le16 content 24 + byteAt content 26 * 65536 + 1,
      le16 content 27 + byteAt content 29 * 65536 + 1)
  else none

/-- The loop of `jpeg_dimensions` over the markers. -/
def jpegFrom (content : Bytes) (index : ℕ) : Option (ℕ × ℕ) :=
  if content.length ≤ index + 9 then none
  else if byteAt content index ≠ 0xFF then jpegFrom content (index + 1)
  else
    let marker := byteAt content (index + 1)
    -- Padding and standalone markers carry no length.
    if marker = 0xFF ∨ marker = 0x01 ∨ (0xD0 ≤ marker ∧ marker ≤ 0xD9) then
      jpegFrom content (index + 2)
    else if (0xC0 ≤ marker ∧ marker ≤ 0xCF) ∧ marker ∉ [0xC4, 0xC8, 0xCC] then
      some (be16 content (index + 7), be16 content (index + 5))
    else if be16 content (index + 2) < 2 then none
    else jpegFrom content (index + 2 + be16 content (index + 2))
termination_by content.length - index

def jpegDimensions (content : Bytes) : Option (ℕ × ℕ) := jpegFrom content 2

/-- Read the pixel dimensions without decoding the image. -/
def dimensions (content : Bytes) : ImageFormat → Option (ℕ × ℕ)
  | .png => pngDimensions content
  | .gif => gifDimensions content
  | .jpeg => jpegDimensions content
  | .webp => webpDimensions content

/-! ### Validation -/

/-- Validate an upload, returning the format it actually is. The declared type only appears in a
message. -/
def validate (content : Bytes) (declaredType : String) (limits : UploadLimits) :
    Result ImageFormat := do
  failIf (content = []) (.invalid "the uploaded file is empty")
  failIf (limits.maxBytes < content.length)
    (.invalid ("the uploaded file is " ++ toString content.length ++ " bytes, more than the " ++
      toString limits.maxBytes ++ " byte limit"))
  failIf (looksLikeSvg content = true)
    (.invalid "SVG is not accepted: it is served as an image but can execute script")
  let format ← okOr (.invalid ("the file is not a supported image (declared as " ++
    debug declaredType ++ "); supported formats are png, jpeg, gif and webp")) (sniff content)
  failIf (limits.allowed ≠ [] ∧ format ∉ limits.allowed)
    (.invalid ("a " ++ format.asStr ++ " file is not accepted here; allowed: " ++
      join ", " (limits.allowed.map ImageFormat.asStr)))
  let (width, height) ← okOr (.invalid ("the " ++ format.asStr ++
    " file's dimensions could not be read, so it will not be stored")) (dimensions content format)
  failIf (width = 0 ∨ height = 0)
    (.invalid ("the " ++ format.asStr ++ " file has a zero dimension (" ++ toString width ++ "x" ++
      toString height ++ ")"))
  failIf (limits.maxDimension < width ∨ limits.maxDimension < height)
    (.invalid ("the image is " ++ toString width ++ "x" ++ toString height ++ ", larger than the " ++
      toString limits.maxDimension ++ " pixel limit"))
  return format

/-- **What is accepted**: an image within the limits, and no SVG. The declared type does not
matter. -/
theorem validate_eq_ok {content : Bytes} {declaredType : String} {limits : UploadLimits}
    {format : ImageFormat} :
    validate content declaredType limits = .ok format ↔
      content ≠ [] ∧ content.length ≤ limits.maxBytes ∧ looksLikeSvg content = false ∧
      sniff content = some format ∧ (limits.allowed = [] ∨ format ∈ limits.allowed) ∧
      ∃ width height, dimensions content format = some (width, height) ∧
        (0 < width ∧ 0 < height) ∧ width ≤ limits.maxDimension ∧ height ≤ limits.maxDimension := by
  unfold validate
  simp only [bind_eq_ok, failIf_eq_ok, okOr_eq_ok, Bool.not_eq_true, not_lt, not_or, not_and]
  constructor
  · rintro ⟨_, hempty, _, hsize, _, hsvg, found, hsniff, _, hallowed, ⟨width, height⟩, hdimensions, _,
      hzero, _, hmax, hformat⟩
    obtain rfl := Except.ok.inj hformat
    exact ⟨hempty, hsize, hsvg, hsniff, or_iff_not_imp_left.mpr fun hne => not_not.mp (hallowed hne),
      width, height, hdimensions, ⟨Nat.pos_of_ne_zero hzero.1, Nat.pos_of_ne_zero hzero.2⟩, hmax⟩
  · rintro ⟨hempty, hsize, hsvg, hsniff, hallowed, width, height, hdimensions, hzero, hmax⟩
    exact ⟨(), hempty, (), hsize, (), hsvg, format, hsniff, (),
      fun hne => not_not.mpr (hallowed.resolve_left hne), (width, height), hdimensions, (),
      ⟨hzero.1.ne', hzero.2.ne'⟩, (), hmax, rfl⟩

end LazyPock.Files
