import LazyPock.Files.Validation
import Mathlib.Algebra.Ring.Parity
import Mathlib.Data.List.Infix

/-!
# The dimensions that a file declares

The readers of `crates/files/src/validation.rs` against the headers of the four formats. A JPEG stream
is read marker by marker up to the frame header. A marker is introduced by one or more `0xFF` bytes; the
loop of `jpeg_dimensions` takes them two at a time, so behind an even number of them it takes the marker
for data and goes on inside the segment.

## Main definitions

* `Files.readDimensions`: the readers with every index checked.
* `Files.Segment`, `Files.FrameHeader`: the parts of a JPEG stream.
* `Files.Declares`: the files that start with a well-formed header, and what it declares.
* `Files.Guarded`: a file whose declared dimensions are the ones that are checked.

## Main results

* `Files.readDimensions_eq`: no reader indexes out of bounds.
* `Files.guard_measures_iff`: the runs of `0xFF` bytes with which every file is guarded.
-/

namespace LazyPock.Files

open List

/-! ### Reading within bounds -/

/-- `content[index]`, which must exist. -/
def byte? (content : Bytes) (index : ℕ) : Option ℕ := content[index]?.map UInt8.toNat

/-- `content[start..stop]`, which must exist. -/
def slice? (content : Bytes) (start stop : ℕ) : Option Bytes :=
  if stop ≤ content.length then some ((content.drop start).take (stop - start)) else none

/-- `u16::from_be_bytes` of two bytes that must exist. -/
def be16? (content : Bytes) (index : ℕ) : Option ℕ := do
  let high ← byte? content index
  let low ← byte? content (index + 1)
  some (high * 256 + low)

/-- `u16::from_le_bytes` of two bytes that must exist. -/
def le16? (content : Bytes) (index : ℕ) : Option ℕ := do
  let low ← byte? content index
  let high ← byte? content (index + 1)
  some (low + high * 256)

def readPng (content : Bytes) : Option (Option (ℕ × ℕ)) :=
  if content.length < 24 then some none
  else do
    let tag ← slice? content 12 16
    if tag ≠ ascii "IHDR" then some none
    else do
      let width ← be16? content 16
      let width' ← be16? content 18
      let height ← be16? content 20
      let height' ← be16? content 22
      some (some (width * 65536 + width', height * 65536 + height'))

def readGif (content : Bytes) : Option (Option (ℕ × ℕ)) :=
  if content.length < 10 then some none
  else do
    let width ← le16? content 6
    let height ← le16? content 8
    some (some (width, height))

def readWebp (content : Bytes) : Option (Option (ℕ × ℕ)) :=
  if content.length < 30 then some none
  else do
    let chunk ← slice? content 12 16
    if chunk = ascii "VP8 " then do
      let width ← le16? content 26
      let height ← le16? content 28
      some (some (width % 16384, height % 16384))
    else if chunk = ascii "VP8L" then do
      let low ← le16? content 21
      let high ← le16? content 23
      let bits := low + high * 65536
      some (some (bits % 16384 + 1, bits / 16384 % 16384 + 1))
    else if chunk = ascii "VP8X" then do
      let width ← le16? content 24
      let width' ← byte? content 26
      let height ← le16? content 27
      let height' ← byte? content 29
      some (some (width + width' * 65536 + 1, height + height' * 65536 + 1))
    else some none

/-- The loop of `jpeg_dimensions`. -/
def readJpeg (content : Bytes) (index : ℕ) : Option (Option (ℕ × ℕ)) :=
  if content.length ≤ index + 9 then some none
  else do
    let first ← byte? content index
    if first ≠ 0xFF then readJpeg content (index + 1)
    else do
      let marker ← byte? content (index + 1)
      if marker = 0xFF ∨ marker = 0x01 ∨ (0xD0 ≤ marker ∧ marker ≤ 0xD9) then
        readJpeg content (index + 2)
      else if (0xC0 ≤ marker ∧ marker ≤ 0xCF) ∧ marker ∉ [0xC4, 0xC8, 0xCC] then do
        let height ← be16? content (index + 5)
        let width ← be16? content (index + 7)
        some (some (width, height))
      else do
        let length ← be16? content (index + 2)
        if length < 2 then some none else readJpeg content (index + 2 + length)
termination_by content.length - index

/-- Read the dimensions; `none` where an index is out of bounds. -/
def readDimensions (content : Bytes) : ImageFormat → Option (Option (ℕ × ℕ))
  | .png => readPng content
  | .gif => readGif content
  | .jpeg => readJpeg content 2
  | .webp => readWebp content

section Bounds

variable {content : Bytes} {index : ℕ}

theorem byte?_eq (h : index < content.length) : byte? content index = some (byteAt content index) := by
  rw [byte?, byteAt, List.getElem?_eq_getElem h, getD_eq_getElem?_getD,
    List.getElem?_eq_getElem h, Option.map_some, Option.getD_some]

theorem be16?_eq (h : index + 1 < content.length) :
    be16? content index = some (be16 content index) := by
  rw [be16?, byte?_eq (by omega), byte?_eq h]
  rfl

theorem le16?_eq (h : index + 1 < content.length) :
    le16? content index = some (le16 content index) := by
  rw [le16?, byte?_eq (by omega), byte?_eq h]
  rfl

theorem slice?_eq {stop : ℕ} (h : stop ≤ content.length) :
    slice? content index stop = some ((content.drop index).take (stop - index)) := if_pos h

theorem readPng_eq (content : Bytes) : readPng content = some (pngDimensions content) := by
  unfold readPng pngDimensions
  by_cases hlength : content.length < 24
  · simp [hlength]
  · rw [slice?_eq (by omega), be16?_eq (by omega), be16?_eq (by omega), be16?_eq (by omega),
      be16?_eq (by omega)]
    by_cases htag : (content.drop 12).take 4 = ascii "IHDR" <;> simp [hlength, htag]

theorem readGif_eq (content : Bytes) : readGif content = some (gifDimensions content) := by
  unfold readGif gifDimensions
  by_cases hlength : content.length < 10
  · simp [hlength]
  · rw [le16?_eq (by omega), le16?_eq (by omega)]
    simp [hlength]

theorem readWebp_eq (content : Bytes) : readWebp content = some (webpDimensions content) := by
  unfold readWebp webpDimensions
  by_cases hlength : content.length < 30
  · simp [hlength]
  · rw [slice?_eq (by omega), le16?_eq (by omega), le16?_eq (by omega), le16?_eq (by omega),
      le16?_eq (by omega), le16?_eq (by omega), le16?_eq (by omega), byte?_eq (by omega),
      byte?_eq (by omega)]
    simp only [hlength, if_false, Option.bind_eq_bind, Option.bind_some, Nat.reduceSub]
    split_ifs <;> rfl

theorem readJpeg_eq (content : Bytes) (index : ℕ) :
    readJpeg content index = some (jpegFrom content index) := by
  fun_induction jpegFrom content index with
  | case1 index hend => rw [readJpeg, if_pos hend]
  | case2 index hend hfirst ih =>
    rw [readJpeg, if_neg hend, byte?_eq (by omega)]
    exact (if_pos hfirst).trans ih
  | case3 index hend hfirst marker hskip ih =>
    rw [readJpeg, if_neg hend, byte?_eq (by omega), byte?_eq (by omega)]
    exact (if_neg hfirst).trans ((if_pos hskip).trans ih)
  | case4 index hend hfirst marker hskip hframe =>
    rw [readJpeg, if_neg hend, byte?_eq (by omega), byte?_eq (by omega), be16?_eq (by omega),
      be16?_eq (by omega)]
    exact (if_neg hfirst).trans ((if_neg hskip).trans (if_pos hframe))
  | case5 index hend hfirst marker hskip hframe hshort =>
    rw [readJpeg, if_neg hend, byte?_eq (by omega), byte?_eq (by omega), be16?_eq (by omega),
      be16?_eq (by omega), be16?_eq (by omega)]
    exact (if_neg hfirst).trans ((if_neg hskip).trans ((if_neg hframe).trans (if_pos hshort)))
  | case6 index hend hfirst marker hskip hframe hshort ih =>
    rw [readJpeg, if_neg hend, byte?_eq (by omega), byte?_eq (by omega), be16?_eq (by omega),
      be16?_eq (by omega), be16?_eq (by omega)]
    exact (if_neg hfirst).trans ((if_neg hskip).trans ((if_neg hframe).trans
      ((if_neg hshort).trans ih)))

/-- **No reader indexes out of bounds.** -/
theorem readDimensions_eq (content : Bytes) (format : ImageFormat) :
    readDimensions content format = some (dimensions content format) := by
  cases format with
  | png => exact readPng_eq content
  | jpeg => exact readJpeg_eq content 2
  | gif => exact readGif_eq content
  | webp => exact readWebp_eq content

end Bounds

/-! ### JPEG streams -/

/-- The markers of frame headers. -/
def IsFrameHeader (marker : UInt8) : Prop :=
  0xC0 ≤ marker ∧ marker ≤ 0xCF ∧ marker ∉ ([0xC4, 0xC8, 0xCC] : Bytes)

/-- The markers of the other segments that carry their length. -/
def CarriesLength (marker : UInt8) : Prop :=
  marker ∉ ([0x00, 0x01, 0xFF] : Bytes) ∧ ¬ (0xD0 ≤ marker ∧ marker ≤ 0xD9) ∧ ¬ IsFrameHeader marker

instance : DecidablePred IsFrameHeader := fun _ => inferInstanceAs (Decidable (_ ∧ _))

instance : DecidablePred CarriesLength := fun _ => inferInstanceAs (Decidable (_ ∧ _))

/-- A marker segment in front of the frame header: its length counts the two bytes that hold it. -/
structure Segment where
  /-- The `0xFF` bytes that introduce the marker. -/
  run : ℕ
  marker : UInt8
  high : UInt8
  low : UInt8
  payload : Bytes
  introduced : 0 < run
  carriesLength : CarriesLength marker
  length_eq : high.toNat * 256 + low.toNat = payload.length + 2

def Segment.bytes (segment : Segment) : Bytes :=
  List.replicate segment.run 0xFF ++ segment.marker :: segment.high :: segment.low :: segment.payload

/-- The first frame header, and everything behind its size. -/
structure FrameHeader where
  /-- The `0xFF` bytes that introduce the marker. -/
  run : ℕ
  marker : UInt8
  length : UInt8 × UInt8
  precision : UInt8
  height : UInt8 × UInt8
  width : UInt8 × UInt8
  rest : Bytes
  introduced : 0 < run
  isFrameHeader : IsFrameHeader marker

/-- A number, its most significant byte first. -/
def bigEndian (bytes : Bytes) : ℕ := bytes.foldl (fun n b => n * 256 + b.toNat) 0

/-- A number, its least significant byte first. -/
def littleEndian (bytes : Bytes) : ℕ := bigEndian bytes.reverse

/-- Two bytes in a row. -/
def two (b : UInt8 × UInt8) : Bytes := [b.1, b.2]

/-- Three bytes in a row. -/
def three (b : UInt8 × UInt8 × UInt8) : Bytes := [b.1, b.2.1, b.2.2]

/-- Four bytes in a row. -/
def four (b : UInt8 × UInt8 × UInt8 × UInt8) : Bytes := [b.1, b.2.1, b.2.2.1, b.2.2.2]

namespace FrameHeader

/-- The header behind its marker. -/
def body (frame : FrameHeader) : Bytes :=
  two frame.length ++ frame.precision :: (two frame.height ++ (two frame.width ++ frame.rest))

def bytes (frame : FrameHeader) : Bytes :=
  List.replicate frame.run 0xFF ++ frame.marker :: frame.body

/-- The width and the height that the header declares. -/
def size (frame : FrameHeader) : ℕ × ℕ := (bigEndian (two frame.width), bigEndian (two frame.height))

end FrameHeader

/-- A stream up to its frame header: SOI, the segments and the header. -/
def jpegStream (segments : List Segment) (frame : FrameHeader) : Bytes :=
  0xFF :: 0xD8 :: (segments.flatMap Segment.bytes ++ frame.bytes)

/-- How many `0xFF` bytes introduce each marker of a stream. -/
def runsOf (segments : List Segment) (frame : FrameHeader) : List ℕ :=
  segments.map Segment.run ++ [frame.run]

section Scan

variable {content front rest : Bytes} {index : ℕ}

theorem byteAt_append (front rest : Bytes) (index : ℕ) :
    byteAt (front ++ rest) (front.length + index) = byteAt rest index := by
  rw [byteAt, byteAt, getD_eq_getElem?_getD, getD_eq_getElem?_getD,
    List.getElem?_append_right (Nat.le_add_right _ _), Nat.add_sub_cancel_left]

theorem be16_append (front rest : Bytes) (index : ℕ) :
    be16 (front ++ rest) (front.length + index) = be16 rest index := by
  rw [be16, byteAt_append, Nat.add_assoc, byteAt_append, be16]

/-- The loop does not look back. -/
theorem jpegFrom_append (front rest : Bytes) (index : ℕ) :
    jpegFrom (front ++ rest) (front.length + index) = jpegFrom rest index := by
  fun_induction jpegFrom rest index with
  | case1 index hend =>
    rw [jpegFrom, if_pos]
    rw [length_append]
    omega
  | case2 index hend hfirst ih =>
    have hend' : ¬ (front ++ rest).length ≤ front.length + index + 9 := by
      rw [length_append]
      omega
    rw [jpegFrom, if_neg hend', byteAt_append, if_pos hfirst]
    exact ih
  | case3 index hend hfirst marker hskip ih =>
    have hend' : ¬ (front ++ rest).length ≤ front.length + index + 9 := by
      rw [length_append]
      omega
    rw [jpegFrom, if_neg hend', byteAt_append, if_neg hfirst]
    simp only [Nat.add_assoc, byteAt_append]
    exact (if_pos hskip).trans ih
  | case4 index hend hfirst marker hskip hframe =>
    have hend' : ¬ (front ++ rest).length ≤ front.length + index + 9 := by
      rw [length_append]
      omega
    rw [jpegFrom, if_neg hend', byteAt_append, if_neg hfirst]
    simp only [Nat.add_assoc, byteAt_append, be16_append]
    exact (if_neg hskip).trans (if_pos hframe)
  | case5 index hend hfirst marker hskip hframe hshort =>
    have hend' : ¬ (front ++ rest).length ≤ front.length + index + 9 := by
      rw [length_append]
      omega
    rw [jpegFrom, if_neg hend', byteAt_append, if_neg hfirst]
    simp only [Nat.add_assoc, byteAt_append, be16_append]
    exact (if_neg hskip).trans ((if_neg hframe).trans (if_pos hshort))
  | case6 index hend hfirst marker hskip hframe hshort ih =>
    have hend' : ¬ (front ++ rest).length ≤ front.length + index + 9 := by
      rw [length_append]
      omega
    rw [jpegFrom, if_neg hend', byteAt_append, if_neg hfirst]
    simp only [Nat.add_assoc, byteAt_append, be16_append]
    rw [Nat.add_assoc index] at ih
    exact (if_neg hskip).trans ((if_neg hframe).trans ((if_neg hshort).trans ih))

/-- Behind some bytes the loop goes on with the rest. -/
theorem jpegFrom_drop (front rest : Bytes) : jpegFrom (front ++ rest) front.length = jpegFrom rest 0 :=
  jpegFrom_append front rest 0

/-- The end of the content is too close for a frame header. -/
theorem jpegFrom_of_short (h : content.length ≤ 9) : jpegFrom content 0 = none := by
  rw [jpegFrom, if_pos h]

/-- A byte that introduces no marker is skipped. -/
theorem jpegFrom_data {b : UInt8} (hb : b ≠ 0xFF) (hlong : 9 ≤ rest.length) :
    jpegFrom (b :: rest) 0 = jpegFrom rest 0 := by
  have hfirst : byteAt (b :: rest) 0 ≠ 0xFF := fun h => hb (UInt8.toNat_inj.mp h)
  rw [jpegFrom, if_neg (by rw [length_cons]; omega), if_pos hfirst]
  exact jpegFrom_drop [b] rest

/-- Two `0xFF` bytes are skipped at once. -/
theorem jpegFrom_pair (hlong : 8 ≤ rest.length) :
    jpegFrom (0xFF :: 0xFF :: rest) 0 = jpegFrom rest 0 := by
  rw [jpegFrom, if_neg (by simp only [length_cons]; omega), if_neg (by simp [byteAt])]
  exact (if_pos (.inl rfl)).trans (jpegFrom_drop [0xFF, 0xFF] rest)

theorem isFrameHeader_toNat {marker : UInt8} : IsFrameHeader marker ↔
    (0xC0 ≤ marker.toNat ∧ marker.toNat ≤ 0xCF) ∧ marker.toNat ∉ [0xC4, 0xC8, 0xCC] := by
  simp [IsFrameHeader, UInt8.le_iff_toNat_le, ← UInt8.toNat_inj, and_assoc]

theorem CarriesLength.toNat {marker : UInt8} (h : CarriesLength marker) :
    ¬ (marker.toNat = 0xFF ∨ marker.toNat = 0x01 ∨ (0xD0 ≤ marker.toNat ∧ marker.toNat ≤ 0xD9)) ∧
      ¬ ((0xC0 ≤ marker.toNat ∧ marker.toNat ≤ 0xCF) ∧ marker.toNat ∉ [0xC4, 0xC8, 0xCC]) := by
  obtain ⟨hmarker, hstandalone, hframe⟩ := h
  rw [isFrameHeader_toNat] at hframe
  refine ⟨?_, hframe⟩
  simp only [mem_cons, not_mem_nil, or_false, not_or, ← UInt8.toNat_inj,
    UInt8.le_iff_toNat_le] at hmarker hstandalone
  rintro (h | h | h)
  · exact hmarker.2.2 h
  · exact hmarker.2.1 h
  · exact hstandalone h

/-- A segment whose marker is found is skipped by its length. -/
theorem jpegFrom_segment {marker high low : UInt8} {payload : Bytes} (hmarker : CarriesLength marker)
    (hlength : high.toNat * 256 + low.toNat = payload.length + 2)
    (hlong : 6 ≤ (payload ++ rest).length) :
    jpegFrom (0xFF :: marker :: high :: low :: (payload ++ rest)) 0 = jpegFrom rest 0 := by
  obtain ⟨hskip, hframe⟩ := hmarker.toNat
  have hbe : be16 (0xFF :: marker :: high :: low :: (payload ++ rest)) (0 + 2) = payload.length + 2 :=
    hlength
  rw [jpegFrom, if_neg (by simp only [length_cons]; omega), if_neg (by simp [byteAt])]
  refine (if_neg hskip).trans ((if_neg hframe).trans ?_)
  rw [hbe, if_neg (by omega)]
  have hfront : (0xFF :: marker :: high :: low :: payload).length = 0 + 2 + (payload.length + 2) := by
    simp only [length_cons]
    omega
  rw [← hfront]
  exact jpegFrom_drop (0xFF :: marker :: high :: low :: payload) rest

/-- A frame header whose marker is found. -/
theorem jpegFrom_frame (frame : FrameHeader) (hlong : 8 ≤ frame.body.length) :
    jpegFrom (0xFF :: frame.marker :: frame.body) 0 = some frame.size := by
  have hsize : frame.size = (frame.width.1.toNat * 256 + frame.width.2.toNat,
      frame.height.1.toNat * 256 + frame.height.2.toNat) := by
    simp [FrameHeader.size, bigEndian, two]
  have hframe := isFrameHeader_toNat.mp frame.isFrameHeader
  have hskip : ¬ (frame.marker.toNat = 0xFF ∨ frame.marker.toNat = 0x01 ∨
      (0xD0 ≤ frame.marker.toNat ∧ frame.marker.toNat ≤ 0xD9)) := by omega
  rw [jpegFrom, if_neg (by simp only [length_cons]; omega), if_neg (by simp [byteAt])]
  rw [hsize]
  exact (if_neg hskip).trans (if_pos hframe)

/-- `0xFF` bytes are skipped in pairs. -/
theorem jpegFrom_pairs (pairs : ℕ) (hlong : 8 ≤ rest.length) :
    jpegFrom (List.replicate (2 * pairs) 0xFF ++ rest) 0 = jpegFrom rest 0 := by
  induction pairs with
  | zero => rfl
  | succ pairs ih =>
    rw [Nat.mul_succ, replicate_succ, replicate_succ, cons_append, cons_append,
      jpegFrom_pair (by rw [length_append]; omega), ih]

end Scan

/-! ### Odd runs -/

/-- Nothing is read of the content, or this size. -/
def Sees (content : Bytes) (size : ℕ × ℕ) : Prop :=
  jpegFrom content 0 = none ∨ jpegFrom content 0 = some size

section Odd

variable {content rest : Bytes} {size : ℕ × ℕ}

theorem Sees.of_eq (heq : 9 < content.length → jpegFrom content 0 = jpegFrom rest 0)
    (h : Sees rest size) : Sees content size := by
  by_cases hlong : 9 < content.length
  · rwa [Sees, heq hlong]
  · exact .inl (jpegFrom_of_short (by omega))

theorem Sees.pairs (pairs : ℕ) (h : Sees rest size) :
    Sees (List.replicate (2 * pairs) 0xFF ++ rest) size := by
  induction pairs with
  | zero => exact h
  | succ pairs ih =>
    rw [Nat.mul_succ, replicate_succ, replicate_succ, cons_append, cons_append]
    refine Sees.of_eq (fun hlong => jpegFrom_pair ?_) ih
    simp only [length_cons] at hlong
    omega

/-- An odd run ends in front of its marker. -/
theorem Sees.run {run : ℕ} (hrun : Odd run) (h : Sees (0xFF :: rest) size) :
    Sees (List.replicate run 0xFF ++ rest) size := by
  obtain ⟨pairs, rfl⟩ := hrun
  rw [replicate_succ', append_assoc]
  exact Sees.pairs pairs h

theorem Sees.segment (segment : Segment) (hrun : Odd segment.run) (h : Sees rest size) :
    Sees (segment.bytes ++ rest) size := by
  rw [Segment.bytes, append_assoc]
  refine Sees.run hrun (Sees.of_eq (fun hlong => ?_) h)
  refine jpegFrom_segment segment.carriesLength segment.length_eq ?_
  simp only [length_cons, cons_append] at hlong
  omega

theorem Sees.frame (frame : FrameHeader) (hrun : Odd frame.run) : Sees frame.bytes frame.size := by
  refine Sees.run hrun ?_
  by_cases hlong : 8 ≤ frame.body.length
  · exact .inr (jpegFrom_frame frame hlong)
  · exact .inl (jpegFrom_of_short (by simp only [length_cons]; omega))

/-- **Odd runs**: the size that the frame header declares is seen, whatever the segments hold. -/
theorem sees_stream {segments : List Segment} {frame : FrameHeader}
    (hruns : ∀ run ∈ runsOf segments frame, Odd run) :
    Sees (segments.flatMap Segment.bytes ++ frame.bytes) frame.size := by
  induction segments with
  | nil => exact Sees.frame frame (hruns frame.run (by simp [runsOf]))
  | cons segment segments ih =>
    rw [flatMap_cons, append_assoc]
    refine Sees.segment segment (hruns segment.run (by simp [runsOf])) (ih fun run hrun => ?_)
    exact hruns run (mem_cons_of_mem _ hrun)

end Odd

/-! ### Even runs -/

/-- The bytes of a frame header of one pixel, as data. -/
def decoy : Bytes := [0xFF, 0xC0, 0, 11, 8, 0, 1, 0, 1, 0]

/-- A comment that holds a frame header. -/
def decoySegment (run : ℕ) (h : 0 < run) : Segment where
  run := run
  marker := 0xFE
  high := 0
  low := 12
  payload := decoy
  introduced := h
  carriesLength := by decide
  length_eq := by decide

/-- The header of a large image, with another frame header behind it. -/
def decoyFrame (run : ℕ) (h : 0 < run) : FrameHeader where
  run := run
  marker := 0xC0
  length := (0, 17)
  precision := 8
  height := (0x4E, 0x20)
  width := (0x4E, 0x20)
  rest := decoy
  introduced := h
  isFrameHeader := by decide

section Even

variable {rest : Bytes}

/-- The decoy is read where the loop comes across it. -/
theorem jpegFrom_decoy (rest : Bytes) : jpegFrom (decoy ++ rest) 0 = some (1, 1) := by
  have hsize : (bigEndian (two (0, 1)), bigEndian (two (0, 1))) = (1, 1) := by decide
  rw [← hsize]
  exact jpegFrom_frame ⟨1, 0xC0, (0, 11), 8, (0, 1), (0, 1), 0 :: rest, by decide, by decide⟩
    (by simp [FrameHeader.body, two])

/-- Bytes that introduce no marker are skipped. -/
theorem jpegFrom_skip {data : Bytes} (hdata : ∀ b ∈ data, b ≠ 0xFF) (hlong : 9 ≤ rest.length) :
    jpegFrom (data ++ rest) 0 = jpegFrom rest 0 := by
  induction data with
  | nil => rfl
  | cons b data ih =>
    rw [cons_append, jpegFrom_data (hdata b mem_cons_self)
      (by rw [length_append]; omega), ih fun c hc => hdata c (mem_cons_of_mem _ hc)]

theorem jpegFrom_decoySegment {run : ℕ} (h : 0 < run) (hlong : 9 ≤ rest.length) :
    jpegFrom ((decoySegment run h).bytes ++ rest) 0 =
      if Odd run then jpegFrom rest 0 else some (1, 1) := by
  have hbytes : (decoySegment run h).bytes ++ rest =
      List.replicate run 0xFF ++ ([0xFE, 0, 12] ++ (decoy ++ rest)) := by
    simp [Segment.bytes, decoySegment]
  have hrest : 8 ≤ ([0xFE, 0, 12] ++ (decoy ++ rest)).length := by
    simp only [length_append]
    omega
  rw [hbytes]
  split_ifs with hodd
  · obtain ⟨pairs, hpairs⟩ := hodd
    rw [hpairs, replicate_succ', append_assoc, jpegFrom_pairs pairs (by
      rw [length_append]; omega)]
    have hlength : (0 : UInt8).toNat * 256 + (12 : UInt8).toNat = decoy.length + 2 := by decide
    exact jpegFrom_segment (by decide) hlength
      (by rw [length_append]; omega)
  · obtain ⟨pairs, hpairs⟩ := even_iff_two_dvd.mp (Nat.not_odd_iff_even.mp hodd)
    rw [hpairs, jpegFrom_pairs pairs hrest, jpegFrom_skip (by decide) (by
      rw [length_append]
      omega)]
    exact jpegFrom_decoy rest

theorem jpegFrom_decoyFrame {run : ℕ} (h : 0 < run) (heven : ¬ Odd run) :
    jpegFrom (decoyFrame run h).bytes 0 = some (1, 1) := by
  have hbytes : (decoyFrame run h).bytes =
      List.replicate run 0xFF ++ ([0xC0, 0, 17, 8, 0x4E, 0x20, 0x4E, 0x20] ++ (decoy ++ [])) := by
    simp [FrameHeader.bytes, FrameHeader.body, decoyFrame, two]
  obtain ⟨pairs, hpairs⟩ := even_iff_two_dvd.mp (Nat.not_odd_iff_even.mp heven)
  rw [hbytes, hpairs, jpegFrom_pairs pairs (by decide), jpegFrom_skip (by decide) (by decide)]
  exact jpegFrom_decoy []

theorem length_decoyFrame {run : ℕ} (h : 0 < run) : 9 ≤ (decoyFrame run h).bytes.length := by
  have hdecoy : decoy.length = 10 := by decide
  simp only [FrameHeader.bytes, FrameHeader.body, decoyFrame, two, length_append,
    length_cons, hdecoy]
  omega

/-- **An even run**: the decoy of its segment is read, or the one behind the frame header. -/
theorem jpegFrom_decoys {runs : List ℕ} (hruns : ∀ run ∈ runs, 0 < run) {last : ℕ} (hlast : 0 < last)
    (heven : ∃ run ∈ runs ++ [last], ¬ Odd run) :
    jpegFrom ((runs.pmap decoySegment hruns).flatMap Segment.bytes ++ (decoyFrame last hlast).bytes) 0 =
      some (1, 1) := by
  induction runs with
  | nil =>
    obtain ⟨run, hrun, heven⟩ := heven
    obtain rfl := mem_singleton.mp hrun
    exact jpegFrom_decoyFrame hlast heven
  | cons run runs ih =>
    rw [pmap_cons, flatMap_cons, append_assoc, jpegFrom_decoySegment]
    · split_ifs with hodd
      · refine ih (fun other hother => hruns other (mem_cons_of_mem _ hother)) ?_
        obtain ⟨other, hother, heven⟩ := heven
        rcases mem_cons.mp hother with rfl | hother
        · exact absurd hodd heven
        · exact ⟨other, hother, heven⟩
      · rfl
    · rw [length_append]
      exact (length_decoyFrame hlast).trans (Nat.le_add_left _ _)

end Even

/-! ### Headers -/

/-- **The files that start with a well-formed header**, and the width and height it declares. A JPEG
stream has these runs of `0xFF` bytes in front of its markers. -/
inductive Declares (runs : List ℕ) : ImageFormat → Bytes → ℕ × ℕ → Prop
  | png (length width height : UInt8 × UInt8 × UInt8 × UInt8) (rest : Bytes) :
    Declares runs .png
      ([0x89] ++ ascii "PNG\r\n" ++ [0x1a] ++ ascii "\n" ++ four length ++ ascii "IHDR" ++ four width ++
        four height ++ rest)
      (bigEndian (four width), bigEndian (four height))
  | gif {version : Bytes} (width height : UInt8 × UInt8) (rest : Bytes)
      (hversion : version = ascii "GIF87a" ∨ version = ascii "GIF89a") :
    Declares runs .gif (version ++ two width ++ two height ++ rest)
      (littleEndian (two width), littleEndian (two height))
  /-- Fourteen bits of each side, with two bits of a scale above them. -/
  | webpLossy {w h scale scale' : ℕ} (size chunk : UInt8 × UInt8 × UInt8 × UInt8)
      (tag : UInt8 × UInt8 × UInt8) (width height : UInt8 × UInt8) (rest : Bytes)
      (hwidth : littleEndian (two width) = scale * 2 ^ 14 + w) (hw : w < 2 ^ 14)
      (hheight : littleEndian (two height) = scale' * 2 ^ 14 + h) (hh : h < 2 ^ 14) :
    Declares runs .webp
      (ascii "RIFF" ++ four size ++ ascii "WEBP" ++ ascii "VP8 " ++ four chunk ++ three tag ++
        [0x9D, 0x01, 0x2A] ++ two width ++ two height ++ rest) (w, h)
  /-- Fourteen bits for each side less one, with four other bits above them. -/
  | webpLossless {w h others : ℕ} (size chunk bits : UInt8 × UInt8 × UInt8 × UInt8) (rest : Bytes)
      (hbits : littleEndian (four bits) = (others * 2 ^ 14 + h) * 2 ^ 14 + w)
      (hw : w < 2 ^ 14) (hh : h < 2 ^ 14) :
    Declares runs .webp
      (ascii "RIFF" ++ four size ++ ascii "WEBP" ++ ascii "VP8L" ++ four chunk ++ [0x2F] ++ four bits ++
        rest) (w + 1, h + 1)
  /-- Twenty-four bits for each side less one, behind the flags. -/
  | webpExtended (size chunk flags : UInt8 × UInt8 × UInt8 × UInt8)
      (width height : UInt8 × UInt8 × UInt8) (rest : Bytes) :
    Declares runs .webp
      (ascii "RIFF" ++ four size ++ ascii "WEBP" ++ ascii "VP8X" ++ four chunk ++ four flags ++
        three width ++ three height ++ rest)
      (littleEndian (three width) + 1, littleEndian (three height) + 1)
  | jpeg (segments : List Segment) (frame : FrameHeader) (hruns : runsOf segments frame = runs) :
    Declares runs .jpeg (jpegStream segments frame) frame.size

/-- **A file whose declared dimensions are the ones that are checked.** -/
structure Guarded (format : ImageFormat) (content : Bytes) (size : ℕ × ℕ) : Prop where
  sees : dimensions content format = none ∨ dimensions content format = some size
  refuses : ∀ declaredType limits found, validate content declaredType limits = .ok found →
    size.1 ≤ limits.maxDimension ∧ size.2 ≤ limits.maxDimension

section Headers

variable {runs : List ℕ} {format : ImageFormat} {content : Bytes} {size : ℕ × ℕ}

attribute [local simp] four three two byteAt be16 le16 bigEndian littleEndian

theorem ascii_texts : ascii "PNG\r\n" = [0x50, 0x4E, 0x47, 0x0D, 0x0A] ∧ ascii "\n" = [0x0A] ∧
    ascii "IHDR" = [0x49, 0x48, 0x44, 0x52] ∧ ascii "GIF87a" = [0x47, 0x49, 0x46, 0x38, 0x37, 0x61] ∧
    ascii "GIF89a" = [0x47, 0x49, 0x46, 0x38, 0x39, 0x61] ∧ ascii "RIFF" = [0x52, 0x49, 0x46, 0x46] ∧
    ascii "WEBP" = [0x57, 0x45, 0x42, 0x50] ∧ ascii "VP8 " = [0x56, 0x50, 0x38, 0x20] ∧
    ascii "VP8L" = [0x56, 0x50, 0x38, 0x4C] ∧ ascii "VP8X" = [0x56, 0x50, 0x38, 0x58] := by
  decide

theorem sees_of_declares (h : Declares runs format content size) (hruns : ∀ run ∈ runs, Odd run) :
    dimensions content format = none ∨ dimensions content format = some size := by
  obtain ⟨hpng, hnewline, hihdr, hgif, hgif', hriff, hwebp, hlossy, hlossless, hextended⟩ := ascii_texts
  cases h with
  | png length width height rest =>
    right
    simp [dimensions, pngDimensions, hpng, hnewline, hihdr]
    omega
  | gif width height rest hversion =>
    right
    rcases hversion with rfl | rfl
    · simp [dimensions, gifDimensions, hgif]
      omega
    · simp [dimensions, gifDimensions, hgif']
      omega
  | webpLossy chunkSize chunk tag width height rest hwidth hw hheight hh =>
    right
    simp at hwidth hheight
    simp [dimensions, webpDimensions, hriff, hwebp, hlossy]
    omega
  | webpLossless chunkSize chunk bits rest hbits hw hh =>
    simp at hbits
    simp [dimensions, webpDimensions, hriff, hwebp, hlossy, hlossless]
    omega
  | webpExtended chunkSize chunk flags width height rest =>
    right
    simp [dimensions, webpDimensions, hriff, hwebp, hlossy, hlossless, hextended]
    omega
  | jpeg segments frame heq =>
    subst heq
    have hsees := sees_stream hruns
    have hskip : jpegFrom (jpegStream segments frame) 2 =
        jpegFrom (segments.flatMap Segment.bytes ++ frame.bytes) 0 := jpegFrom_drop [0xFF, 0xD8] _
    rwa [Sees, ← hskip] at hsees

theorem head_bytes (segments : List Segment) (frame : FrameHeader) :
    ∃ rest, segments.flatMap Segment.bytes ++ frame.bytes = 0xFF :: rest := by
  have hrun {run : ℕ} (h : 0 < run) (rest : Bytes) :
      ∃ rest', List.replicate run 0xFF ++ rest = (0xFF : UInt8) :: rest' := by
    obtain ⟨k, rfl⟩ : ∃ k, run = k + 1 := ⟨run - 1, by omega⟩
    exact ⟨List.replicate k 0xFF ++ rest, by rw [replicate_succ, cons_append]⟩
  cases segments with
  | nil => exact hrun frame.introduced _
  | cons segment segments =>
    rw [flatMap_cons, Segment.bytes, append_assoc, append_assoc]
    exact hrun segment.introduced _

/-- The signature is that of the format. -/
theorem sniff_of_declares (h : Declares runs format content size) : sniff content = some format := by
  obtain ⟨hpng, hnewline, hihdr, hgif, hgif', hriff, hwebp, hlossy, hlossless, hextended⟩ := ascii_texts
  cases h with
  | png length width height rest => simp [sniff, hpng, hnewline]
  | gif width height rest hversion =>
    rcases hversion with rfl | rfl <;> simp [sniff, hpng, hnewline, hgif, hgif']
  | webpLossy => simp [sniff, hpng, hnewline, hgif, hgif', hriff, hwebp]
  | webpLossless => simp [sniff, hpng, hnewline, hgif, hgif', hriff, hwebp]
  | webpExtended => simp [sniff, hpng, hnewline, hgif, hgif', hriff, hwebp]
  | jpeg segments frame heq =>
    obtain ⟨rest, hrest⟩ := head_bytes segments frame
    simp [sniff, jpegStream, hrest, hpng, hnewline]

/-- A file whose runs are odd is guarded. -/
theorem guarded_of_declares (h : Declares runs format content size) (hruns : ∀ run ∈ runs, Odd run) :
    Guarded format content size := by
  have hsees := sees_of_declares h hruns
  refine ⟨hsees, fun declaredType limits found hvalidate => ?_⟩
  obtain ⟨-, -, -, hsniff, -, width, height, hdimensions, -, hmax⟩ := validate_eq_ok.mp hvalidate
  rw [sniff_of_declares h] at hsniff
  obtain rfl := Option.some.inj hsniff
  rcases hsees with hnone | hsome
  · rw [hnone] at hdimensions
    cases hdimensions
  · rw [hsome] at hdimensions
    obtain rfl := Option.some.inj hdimensions
    exact hmax

/-- Streams with these runs, of which one is even, that are not seen through. -/
theorem exists_not_guarded (hpos : ∀ run ∈ runs, 0 < run) (hne : runs ≠ [])
    (heven : ∃ run ∈ runs, ¬ Odd run) :
    ∃ content, Declares runs .jpeg content (20000, 20000) ∧
      dimensions content .jpeg = some (1, 1) := by
  obtain ⟨front, last, rfl⟩ : ∃ front last, runs = front ++ [last] :=
    ⟨runs.dropLast, runs.getLast hne, (dropLast_append_getLast hne).symm⟩
  have hfront : ∀ run ∈ front, 0 < run := fun run hrun => hpos run (mem_append_left _ hrun)
  have hlast : 0 < last := hpos last (by simp)
  have hsize : (decoyFrame last hlast).size = (20000, 20000) := by
    simp [FrameHeader.size, decoyFrame]
  refine ⟨jpegStream (front.pmap decoySegment hfront) (decoyFrame last hlast), ?_, ?_⟩
  · rw [← hsize]
    refine .jpeg _ _ ?_
    simp [runsOf, map_pmap, decoySegment, decoyFrame]
  · exact (jpegFrom_drop [0xFF, 0xD8] _).trans (jpegFrom_decoys hfront hlast heven)

/-- **The image-bomb guard.** No reader indexes out of bounds. A file that starts with a well-formed
header is measured by what the header declares or not at all, whatever it holds, exactly where each
marker of a JPEG stream is introduced by an odd number of `0xFF` bytes. -/
theorem guard_measures_iff {runs : List ℕ} (hpos : ∀ run ∈ runs, 0 < run) (hne : runs ≠ []) :
    (∀ content format, readDimensions content format = some (dimensions content format)) ∧
      ((∀ format content size, Declares runs format content size → Guarded format content size) ↔
        ∀ run ∈ runs, Odd run) := by
  refine ⟨readDimensions_eq, ?_, fun hruns format content size h => guarded_of_declares h hruns⟩
  intro hguarded
  by_contra hnone
  have heven : ∃ run ∈ runs, ¬ Odd run := by simpa only [not_forall, exists_prop] using hnone
  obtain ⟨content, hdeclares, hdimensions⟩ := exists_not_guarded hpos hne heven
  rcases (hguarded .jpeg content _ hdeclares).sees with h | h
  · rw [hdimensions] at h
    cases h
  · rw [hdimensions] at h
    cases h

/-- One `0xFF` byte in front of each marker, and three. -/
theorem guarded_of_single_and_triple : (∀ content format,
    readDimensions content format = some (dimensions content format)) ∧
      ((∀ format content size, Declares [1, 3, 1] format content size →
        Guarded format content size) ↔ ∀ run ∈ [1, 3, 1], Odd run) :=
  guard_measures_iff (by decide) (by decide)

/-- A header of 20000 by 20000 pixels behind a fill byte, and the header of one pixel behind it. -/
def filledBomb : Bytes := jpegStream [] (decoyFrame 2 (by decide))

/-- The large image is taken for one of a single pixel, and accepted. -/
theorem filledBomb_accepted : Declares [2] .jpeg filledBomb (20000, 20000) ∧
    validate filledBomb "image/jpeg" .default = .ok .jpeg ∧
    ¬ Guarded .jpeg filledBomb (20000, 20000) := by
  have hsize : (decoyFrame 2 (by decide)).size = (20000, 20000) := by
    simp [FrameHeader.size, decoyFrame]
  have hdimensions : dimensions filledBomb .jpeg = some (1, 1) :=
    (jpegFrom_drop [0xFF, 0xD8] _).trans (jpegFrom_decoyFrame (by decide) (by decide))
  have haccepted : validate filledBomb "image/jpeg" .default = .ok .jpeg := by
    rw [validate_eq_ok]
    exact ⟨by decide, by decide, by decide, by decide, .inl rfl, 1, 1,
      hdimensions, by decide, by decide, by decide⟩
  refine ⟨?_, haccepted, fun hguarded => ?_⟩
  · rw [← hsize]
    exact .jpeg [] _ rfl
  · exact absurd (hguarded.refuses _ _ _ haccepted).1 (by decide)

end Headers

end LazyPock.Files
