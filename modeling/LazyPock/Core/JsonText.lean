import LazyPock.Core.Json
import Mathlib.Tactic.IntervalCases

/-!
# JSON text that is read again

What `serde_json::from_str` makes of a text that `serde_json::to_string` has printed: the value, unless
it nests deeper than the reader goes, with every floating-point number as the reader reads its text. The
crate is not part of the repository, and how it reads a float depends on the features it was built with:
a `JsonReader` is any function that reads so, and `JsonReader.ofFloats` is one. Its errors are not told
apart.

## Main definitions

* `Json.inRange`: the numbers in a value are those a `Number` holds.
* `Json.reread`: what is read, for a reader that goes to some depth.
* `Json.Readable`: a value that is read back.
* `JsonReader`, `JsonReader.ofFloats`.

## Main results

* `JsonText.readValue_render`: the reader on a printed value, whatever stands behind it.
* `Json.reread_eq_self`: the values that are read back.
* `Json.render_printable`: a printed value has no control characters.
-/

namespace LazyPock

open Text List

/-- An integer of 64 bits, or a finite double. -/
@[grind =]
def JsonNumber.inRange : JsonNumber → Bool
  | .posInt n => n < 2 ^ 64
  | .negInt n => n < 2 ^ 63
  | .float x => x.isFinite

namespace Json

mutual

/-- The numbers in a value are those a `Number` holds. -/
@[grind =]
def inRange : Json → Bool
  | number n => n.inRange
  | array items => inRangeItems items
  | object entries => inRangeEntries entries
  | _ => true

@[grind =]
def inRangeItems : List Json → Bool
  | [] => true
  | v :: rest => inRange v && inRangeItems rest

@[grind =]
def inRangeEntries : List (String × Json) → Bool
  | [] => true
  | (_, v) :: rest => inRange v && inRangeEntries rest

end

section Reading

variable (readFloat : String → Option F64)

mutual

/-- A printed value as it is read again, where it may nest so many levels deep. -/
@[grind =]
def reread : ℕ → Json → Option Json
  | _, number (.float x) => (readFloat (renderFloat x)).map fun y => number (.float y)
  | 0, array _ | 0, object _ => none
  | n + 1, array items => (rereadItems n items).map array
  | n + 1, object entries => (rereadEntries n entries).map fun entries =>
      object (Assoc.insertAll [] entries)
  | _, v => some v

@[grind =]
def rereadItems : ℕ → List Json → Option (List Json)
  | _, [] => some []
  | n, v :: rest => do
    let v ← reread n v
    let rest ← rereadItems n rest
    return v :: rest

@[grind =]
def rereadEntries : ℕ → List (String × Json) → Option (List (String × Json))
  | _, [] => some []
  | n, (k, v) :: rest => do
    let v ← reread n v
    let rest ← rereadEntries n rest
    return (k, v) :: rest

end

mutual

/-- A value that nests at most so many levels deep, and whose floats are read back. -/
@[grind =]
def Readable : ℕ → Json → Prop
  | _, number (.float x) => readFloat (renderFloat x) = some x
  | 0, array _ | 0, object _ => False
  | n + 1, array items => ReadableItems n items
  | n + 1, object entries => ReadableEntries n entries
  | _, _ => True

@[grind =]
def ReadableItems : ℕ → List Json → Prop
  | _, [] => True
  | n, v :: rest => Readable n v ∧ ReadableItems n rest

@[grind =]
def ReadableEntries : ℕ → List (String × Json) → Prop
  | _, [] => True
  | n, (_, v) :: rest => Readable n v ∧ ReadableEntries n rest

end

end Reading

theorem inRange_array {items : List Json} :
    (array items).inRange = true ↔ ∀ v ∈ items, v.inRange = true := by
  rw [inRange]
  induction items with
  | nil => simp [inRangeItems]
  | cons v rest ih => simp [inRangeItems, ih]

variable {entries : List (String × Json)}

theorem inRange_object :
    (object entries).inRange = true ↔ ∀ e ∈ entries, e.2.inRange = true := by
  rw [inRange]
  induction entries with
  | nil => simp [inRangeEntries]
  | cons e rest ih => rw [inRangeEntries, Bool.and_eq_true, ih, forall_mem_cons]

/-! ### What is read back -/

variable {readFloat : String → Option F64}

theorem keys_rereadEntries {n : ℕ} {read : List (String × Json)}
    (h : rereadEntries readFloat n entries = some read) : read.map Prod.fst = entries.map Prod.fst := by
  induction entries generalizing read with
  | nil =>
    rw [rereadEntries, Option.some.injEq] at h
    exact h ▸ rfl
  | cons e rest ih =>
    obtain ⟨v, -, h⟩ := Option.bind_eq_some_iff.mp h
    obtain ⟨others, hothers, h⟩ := Option.bind_eq_some_iff.mp h
    obtain rfl := Option.some.inj h
    rw [map_cons, map_cons, ih hothers]

/-- A map whose entries are inserted one after the other. -/
theorem insertAll_nil (h : Assoc.Sorted entries) :
    Assoc.insertAll [] entries = entries := by
  have hnil : Assoc.Sorted ([] : List (String × Json)) := .nil
  refine hnil.insertAll.ext h fun key => ?_
  rw [Assoc.lookup_insertAll h, Assoc.lookup_nil, Option.or_none]

theorem rereadItems_eq_self {n : ℕ} {items : List Json}
    (h : ∀ v ∈ items, v.reread readFloat n = some v ↔ v.Readable readFloat n) :
    rereadItems readFloat n items = some items ↔ ReadableItems readFloat n items := by
  induction items with
  | nil => simp [rereadItems, ReadableItems]
  | cons v rest ih =>
    obtain ⟨hv, hrest⟩ := forall_mem_cons.mp h
    rw [rereadItems, ReadableItems, ← hv, ← ih hrest]
    simp only [Option.bind_eq_bind, Option.bind_eq_some_iff, Option.pure_def, Option.some.injEq,
      List.cons.injEq]
    constructor
    · rintro ⟨v', hv', rest', hrest', rfl, rfl⟩
      exact ⟨hv', hrest'⟩
    · rintro ⟨hv, hrest⟩
      exact ⟨v, hv, rest, hrest, rfl, rfl⟩

theorem rereadEntries_eq_self {n : ℕ}
    (h : ∀ e ∈ entries, e.2.reread readFloat n = some e.2 ↔ e.2.Readable readFloat n) :
    rereadEntries readFloat n entries = some entries ↔ ReadableEntries readFloat n entries := by
  induction entries with
  | nil => simp [rereadEntries, ReadableEntries]
  | cons e rest ih =>
    obtain ⟨k, v⟩ := e
    obtain ⟨hv, hrest⟩ := forall_mem_cons.mp h
    rw [rereadEntries, ReadableEntries, ← hv, ← ih hrest]
    simp only [Option.bind_eq_bind, Option.bind_eq_some_iff, Option.pure_def, Option.some.injEq,
      List.cons.injEq, Prod.mk.injEq, true_and]
    constructor
    · rintro ⟨v', hv', rest', hrest', rfl, rfl⟩
      exact ⟨hv', hrest'⟩
    · rintro ⟨hv, hrest⟩
      exact ⟨v, hv, rest, hrest, rfl, rfl⟩

/-- **What is read back**: what nests no deeper than the reader goes, with floats that are read back. -/
theorem reread_eq_self {v : Json} (hordered : v.ordered = true) (n : ℕ) :
    v.reread readFloat n = some v ↔ v.Readable readFloat n := by
  induction v using Json.induction generalizing n with
  | null | bool | string => cases n <;> simp [reread, Readable]
  | number m => cases m <;> cases n <;> simp [reread, Readable]
  | array items ih =>
    rw [ordered_array] at hordered
    cases n with
    | zero => simp [reread, Readable]
    | succ n =>
      rw [Readable, ← rereadItems_eq_self fun v hv => ih v hv (hordered v hv) n, reread]
      simp [Option.map_eq_some_iff]
  | object entries ih =>
    obtain ⟨hsorted, hvalues⟩ := ordered_object.mp hordered
    cases n with
    | zero => simp [reread, Readable]
    | succ n =>
      rw [Readable, ← rereadEntries_eq_self fun e he => ih e he (hvalues e he) n, reread,
        Option.map_eq_some_iff]
      constructor
      · rintro ⟨read, hread, hobject⟩
        have hkeys : Assoc.Sorted read := by
          rw [Assoc.Sorted, ← pairwise_map (f := Prod.fst) (R := (· < ·)),
            keys_rereadEntries hread, pairwise_map]
          exact hsorted
        rw [object.injEq, insertAll_nil hkeys] at hobject
        exact hobject ▸ hread
      · intro hread
        exact ⟨entries, hread, by rw [insertAll_nil hsorted]⟩

end Json

/-- `serde_json::from_str` into a value: printed values nest at most 127 levels deep. -/
structure JsonReader where
  /-- The text of a float. -/
  readFloat : String → Option F64
  fromStr : String → Except String Json
  fromStr_render : ∀ v : Json, v.inRange = true → (fromStr v.render).toOption = v.reread readFloat 127

namespace JsonText

open Json

/-! ### A reader -/

/-- A reader of the front of a text. -/
abbrev Reader (α : Type) : Type := List Char → Option (α × List Char)

def isSpace (c : Char) : Bool := c = ' ' || c = '\n' || c = '\t' || c = '\r'

def skipSpace (cs : List Char) : List Char := cs.dropWhile isSpace

def hexValue (a b c d : Char) : Option ℕ := do
  let a ← hexDigit a
  let b ← hexDigit b
  let c ← hexDigit c
  let d ← hexDigit d
  return ((a * 16 + b) * 16 + c) * 16 + d

/-- What stands behind a backslash. -/
@[grind =]
def readEscape : Reader Char
  | 'u' :: a :: b :: c :: d :: rest => do
    let high ← hexValue a b c d
    if 0xDC00 ≤ high ∧ high < 0xE000 then none
    else if 0xD800 ≤ high ∧ high < 0xDC00 then match rest with
      | '\\' :: 'u' :: e :: f :: g :: h :: rest => do
        let low ← hexValue e f g h
        if 0xDC00 ≤ low ∧ low < 0xE000 then
          some (Char.ofNat (0x10000 + (high - 0xD800) * 0x400 + (low - 0xDC00)), rest)
        else none
      | _ => none
    else some (Char.ofNat high, rest)
  | '"' :: rest => some ('"', rest)
  | '\\' :: rest => some ('\\', rest)
  | '/' :: rest => some ('/', rest)
  | 'b' :: rest => some (Char.ofNat 8, rest)
  | 'f' :: rest => some (Char.ofNat 12, rest)
  | 'n' :: rest => some ('\n', rest)
  | 'r' :: rest => some ('\r', rest)
  | 't' :: rest => some ('\t', rest)
  | _ => none

/-- The characters of a string up to the quote, of which there are fewer than `fuel`. -/
@[grind =]
def readChars : (fuel : ℕ) → Reader (List Char)
  | 0, _ | _, [] => none
  | fuel + 1, c :: rest =>
    if c = '"' then some ([], rest)
    else if c = '\\' then do
      let (c, rest) ← readEscape rest
      let (cs, rest) ← readChars fuel rest
      return (c :: cs, rest)
    -- A control character.
    else if c.toNat < 32 then none
    else do
      let (cs, rest) ← readChars fuel rest
      return (c :: cs, rest)

/-- A string, behind its quote. -/
def readString : Reader String := fun cs => do
  let (s, rest) ← readChars cs.length cs
  return (String.ofList s, rest)

def isNumberChar (c : Char) : Bool :=
  isAsciiDigit c || c = '-' || c = '+' || c = '.' || c = 'e' || c = 'E'

/-- An integer without leading zeros. -/
def readInteger (digits : List Char) : Option ℕ :=
  let n := Nat.ofDigitChars 10 digits 0
  if Nat.toDigits 10 n = digits then some n else none

/-- The integer a text is, where it has 64 bits. -/
@[grind =]
def integerOf : List Char → Option JsonNumber
  | '-' :: digits => ((readInteger digits).filter fun n => 0 < n ∧ n ≤ 2 ^ 63).map fun n => .negInt (n - 1)
  | digits => ((readInteger digits).filter (· < 2 ^ 64)).map .posInt

/-- A number: an integer where the text is one, a float otherwise. -/
@[grind =]
def readNumber (readFloat : String → Option F64) : Reader Json := fun cs => do
  let text := cs.takeWhile isNumberChar
  let n ← match integerOf text with
    | some n => some n
    | none => (readFloat (String.ofList text)).map .float
  return (.number n, cs.dropWhile isNumberChar)

/-- The rest of a word. -/
def readWord (word : List Char) (value : Json) : Reader Json := fun cs =>
  if word.isPrefixOf cs then some (value, cs.drop word.length) else none

/-- The items of an array up to its end, of which there are at most `fuel`. -/
@[grind =]
def readItems (readItem : Reader Json) : (fuel : ℕ) → Reader (List Json)
  | 0, _ => none
  | fuel + 1, cs => do
    let (v, cs) ← readItem cs
    match skipSpace cs with
    | ',' :: cs => do
      let (rest, cs) ← readItems readItem fuel cs
      return (v :: rest, cs)
    | ']' :: cs => some ([v], cs)
    | _ => none

/-- An array, behind its bracket. -/
@[grind =]
def readArray (readItem : Reader Json) : Reader (List Json) := fun cs =>
  match skipSpace cs with
  | ']' :: cs => some ([], cs)
  | cs => readItems readItem cs.length cs

/-- The key of an entry, up to the colon. -/
@[grind =]
def readKey : Reader String := fun cs =>
  match skipSpace cs with
  | '"' :: cs => do
    let (key, cs) ← readString cs
    match skipSpace cs with
    | ':' :: cs => some (key, cs)
    | _ => none
  | _ => none

/-- The entries of an object up to its end, of which there are at most `fuel`. -/
@[grind =]
def readEntries (readItem : Reader Json) : (fuel : ℕ) → Reader (List (String × Json))
  | 0, _ => none
  | fuel + 1, cs => do
    let (key, cs) ← readKey cs
    let (v, cs) ← readItem cs
    match skipSpace cs with
    | ',' :: cs => do
      let (rest, cs) ← readEntries readItem fuel cs
      return ((key, v) :: rest, cs)
    | '\x7d' :: cs => some ([(key, v)], cs)
    | _ => none

/-- An object, behind its brace. -/
@[grind =]
def readObject (readItem : Reader Json) : Reader (List (String × Json)) := fun cs =>
  match skipSpace cs with
  | '\x7d' :: cs => some ([], cs)
  | cs => readEntries readItem cs.length cs

/-- A value, whose items are read by `readItem` where there may be any. -/
@[grind =]
def readLevel (readFloat : String → Option F64) (readItem : Option (Reader Json)) : Reader Json :=
  fun cs => match skipSpace cs with
  | [] => none
  | c :: rest =>
    if c = 'n' then readWord "ull".toList .null rest
    else if c = 't' then readWord "rue".toList (.bool true) rest
    else if c = 'f' then readWord "alse".toList (.bool false) rest
    else if c = '"' then do
      let (s, rest) ← readString rest
      return (.string s, rest)
    else if c = '[' then do
      let readItem ← readItem
      let (items, rest) ← readArray readItem rest
      return (.array items, rest)
    else if c = '\x7b' then do
      let readItem ← readItem
      let (entries, rest) ← readObject readItem rest
      -- The last one of the entries under a key stays.
      return (.object (Assoc.insertAll [] entries), rest)
    else readNumber readFloat (c :: rest)

/-- A value that nests at most so many levels deep. -/
@[grind =]
def readValue (readFloat : String → Option F64) : ℕ → Reader Json
  | 0 => readLevel readFloat none
  | n + 1 => readLevel readFloat (some (readValue readFloat n))

/-- A whole text. -/
@[grind =]
def fromStr (readFloat : String → Option F64) (text : String) : Except String Json :=
  match readValue readFloat 127 text.toList with
  | some (v, rest) => if skipSpace rest = [] then .ok v else .error "trailing characters"
  | none => .error "expected value"

/-! ### Strings -/

/-- The hexadecimal digits of a control character. -/
theorem exists_hexDigits {n : ℕ} (h : n < 32) :
    ∃ c d, List.replicate (4 - (Nat.toDigits 16 n).length) '0' ++ Nat.toDigits 16 n =
      ['0', '0', c, d] ∧ hexValue '0' '0' c d = some n := by
  interval_cases n <;> exact ⟨_, _, rfl, by decide⟩

/-- A character stands for itself, or behind a backslash for what is read there. -/
theorem escapeChar_cases (c : Char) :
    (escapeChar c = [c] ∧ c ≠ '"' ∧ c ≠ '\\' ∧ 32 ≤ c.toNat) ∨
      ∃ escape, escapeChar c = '\\' :: escape ∧ ∀ rest, readEscape (escape ++ rest) = some (c, rest) := by
  unfold escapeChar
  split_ifs with hquote hslash hline hreturn htab hback hfeed hcontrol
  · exact .inr ⟨['"'], rfl, fun rest => by rw [hquote]; rfl⟩
  · exact .inr ⟨['\\'], rfl, fun rest => by rw [hslash]; rfl⟩
  · exact .inr ⟨['n'], rfl, fun rest => by rw [hline]; rfl⟩
  · exact .inr ⟨['r'], rfl, fun rest => by rw [hreturn]; rfl⟩
  · exact .inr ⟨['t'], rfl, fun rest => by rw [htab]; rfl⟩
  · exact .inr ⟨['b'], rfl, fun rest => by rw [← Char.ofNat_toNat c, hback]; rfl⟩
  · exact .inr ⟨['f'], rfl, fun rest => by rw [← Char.ofNat_toNat c, hfeed]; rfl⟩
  · obtain ⟨a, b, hdigits, hvalue⟩ := exists_hexDigits hcontrol
    refine .inr ⟨['u', '0', '0', a, b], ?_, fun rest => ?_⟩
    · rw [List.append_assoc, hdigits]
      rfl
    · simp only [List.cons_append, List.nil_append, readEscape, hvalue, Option.bind_eq_bind,
        Option.bind_some]
      rw [if_neg (by omega), if_neg (by omega), Char.ofNat_toNat]
  · exact .inl ⟨rfl, hquote, hslash, Nat.not_lt.mp hcontrol⟩

theorem length_le_flatMap (cs : List Char) : cs.length ≤ (cs.flatMap escapeChar).length := by
  induction cs with
  | nil => exact Nat.le_refl _
  | cons c cs ih =>
    have hc : 1 ≤ (escapeChar c).length := by
      rcases escapeChar_cases c with ⟨hself, -⟩ | ⟨escape, hescape, -⟩
      · rw [hself]; exact Nat.le_refl _
      · rw [hescape]; exact Nat.le_add_left _ _
    rw [List.flatMap_cons, List.length_append, List.length_cons]
    omega

/-- Escaped characters are read up to the quote. -/
theorem readChars_flatMap (cs rest : List Char) {fuel : ℕ} (h : cs.length < fuel) :
    readChars fuel (cs.flatMap escapeChar ++ '"' :: rest) = some (cs, rest) := by
  induction cs generalizing fuel with
  | nil =>
    obtain ⟨fuel, rfl⟩ := Nat.exists_eq_add_of_lt h
    simp [readChars]
  | cons c cs ih =>
    obtain ⟨fuel, rfl⟩ : ∃ k, fuel = k + 1 := ⟨fuel - 1, by omega⟩
    have ih := ih (Nat.lt_of_succ_lt_succ h)
    rw [flatMap_cons]
    rcases escapeChar_cases c with ⟨hself, hquote, hslash, hcontrol⟩ | ⟨escape, hescape, hread⟩
    · rw [hself, singleton_append, cons_append, readChars, if_neg hquote, if_neg hslash,
        if_neg (Nat.not_lt.mpr hcontrol), ih]
      rfl
    · rw [hescape, cons_append, cons_append, append_assoc, readChars, if_neg (by decide),
        if_pos rfl, hread]
      simp [ih]

theorem toList_renderString (s : String) :
    (renderString s).toList = '"' :: (s.toList.flatMap escapeChar ++ ['"']) := by
  simp [renderString]

/-- A printed string is read back, behind its quote. -/
theorem readString_render (s : String) (rest : List Char) :
    readString (s.toList.flatMap escapeChar ++ '"' :: rest) = some (s, rest) := by
  have hlength := length_le_flatMap s.toList
  rw [readString, readChars_flatMap _ _ (by simp only [List.length_append, List.length_cons]; omega)]
  simp

/-! ### Numbers -/

/-- A number ends here. -/
def Stops (rest : List Char) : Prop := ∀ c ∈ rest.head?, isNumberChar c = false

theorem span_append {text rest : List Char} (htext : ∀ c ∈ text, isNumberChar c = true)
    (hrest : Stops rest) : (text ++ rest).takeWhile isNumberChar = text ∧
      (text ++ rest).dropWhile isNumberChar = rest := by
  rw [List.takeWhile_append_of_pos htext, List.dropWhile_append_of_pos htext]
  cases rest with
  | nil => simp
  | cons c rest =>
    have hc : isNumberChar c = false := hrest c rfl
    simp [hc]

theorem isNumberChar_of_digit {c : Char} (h : isAsciiDigit c = true) : isNumberChar c = true := by
  simp [isNumberChar, h]

theorem readInteger_toDigits (n : ℕ) : readInteger (Nat.toDigits 10 n) = some n := by
  simp [readInteger]

theorem isAsciiDigit_of_readInteger {digits : List Char} {n : ℕ} (h : readInteger digits = some n)
    {c : Char} (hc : c ∈ digits) : isAsciiDigit c = true := by
  simp only [readInteger] at h
  split_ifs at h with hdigits
  exact isAsciiDigit_of_mem_toDigits (hdigits ▸ hc)

/-- A text with a point or an exponent is no integer. -/
theorem integerOf_eq_none {text : List Char} {c : Char} (hmem : c ∈ text) (hminus : c ≠ '-')
    (hdigit : isAsciiDigit c = false) : integerOf text = none := by
  have hnone (digits : List Char) (hc : c ∈ digits) : readInteger digits = none := by
    cases h : readInteger digits with
    | none => rfl
    | some n => rw [isAsciiDigit_of_readInteger h hc] at hdigit; cases hdigit
  unfold integerOf
  split
  · rename_i digits
    rw [hnone digits ((List.mem_cons.mp hmem).resolve_left hminus)]
    rfl
  · rw [hnone _ hmem]
    rfl

theorem integerOf_toDigits {n : ℕ} (h : n < 2 ^ 64) :
    integerOf (Nat.toDigits 10 n) = some (.posInt n) := by
  unfold integerOf
  split
  · rename_i digits hdigits
    have hminus := isAsciiDigit_of_mem_toDigits (n := n) (c := '-') (hdigits ▸ List.mem_cons_self)
    exact absurd hminus (by decide)
  · rw [readInteger_toDigits, Option.filter_some, if_pos (by simpa using h)]
    rfl

theorem integerOf_minus {n : ℕ} (h : n < 2 ^ 63) :
    integerOf ('-' :: Nat.toDigits 10 (n + 1)) = some (.negInt n) := by
  rw [integerOf, readInteger_toDigits, Option.filter_some, if_pos (by simp; omega)]
  rfl

/-- A text within a number. -/
def NumberText (text : List Char) : Prop := ∀ c ∈ text, isNumberChar c = true

instance (text : List Char) : Decidable (NumberText text) :=
  inferInstanceAs (Decidable (∀ c ∈ text, isNumberChar c = true))

theorem NumberText.append {a b : List Char} (ha : NumberText a) (hb : NumberText b) :
    NumberText (a ++ b) :=
  fun _ hc => (List.mem_append.mp hc).elim (ha _) (hb _)

theorem numberText_digits {text : List Char} {n : ℕ} (h : ∀ c ∈ text, c ∈ Nat.toDigits 10 n) :
    NumberText text :=
  fun c hc => isNumberChar_of_digit (isAsciiDigit_of_mem_toDigits (h c hc))

theorem numberText_zeros (n : ℕ) : NumberText (List.replicate n '0') :=
  fun _ hc => List.eq_of_mem_replicate hc ▸ by decide

theorem numberText_sign (negative : Bool) : NumberText (if negative then "-" else "").toList := by
  cases negative <;> decide

theorem numberText_int (i : ℤ) : NumberText (toString i).toList := by
  have hnat (n : ℕ) : NumberText n.repr.toList := by
    rw [Nat.toList_repr]
    exact numberText_digits fun _ hc => hc
  cases i with
  | ofNat n => exact hnat n
  | negSucc n =>
    have htext : (toString (Int.negSucc n)).toList = "-".toList ++ (n + 1).repr.toList :=
      String.toList_append
    rw [htext]
    exact NumberText.append (by decide) (hnat _)

/-- The text of a finite double has a point or an exponent. -/
theorem exists_mark {x : F64} (h : x.isFinite = true) :
    ∃ front mark back, (renderFloat x).toList = front ++ mark :: back ∧ (mark = '.' ∨ mark = 'e') ∧
      NumberText front ∧ NumberText back := by
  cases x with
  | inf _ | nan => cases h
  | finite neg m e =>
    obtain ⟨text, htext⟩ : ∃ text, renderFloat (.finite neg m e) = text := ⟨_, rfl⟩
    rw [htext]
    unfold renderFloat at htext
    extract_lets sign at htext
    have hsign : NumberText sign.toList := numberText_sign _
    clear_value sign
    cases m with
    | zero =>
      exact ⟨sign.toList ++ ['0'], '.', ['0'], by simp [← htext], .inl rfl, hsign.append (by decide),
        by decide⟩
    | succ m =>
      simp only at htext
      set d := (F64.shortest (m + 1) e).1
      set p := (F64.shortest (m + 1) e).2
      have hdigits : NumberText (Nat.toDigits 10 d) := numberText_digits fun _ hc => hc
      have htake (k : ℕ) : NumberText ((Nat.toDigits 10 d).take k) :=
        numberText_digits fun _ hc => List.mem_of_mem_take hc
      have hdrop (k : ℕ) : NumberText ((Nat.toDigits 10 d).drop k) :=
        numberText_digits fun _ hc => List.mem_of_mem_drop hc
      generalize (Nat.toDigits 10 d).length + p = point at htext
      split_ifs at htext with hwhole hinside hsmall hone
      · exact ⟨sign.toList ++ (Nat.toDigits 10 d ++ List.replicate p.toNat '0'), '.', ['0'],
          by simp [← htext], .inl rfl, hsign.append (hdigits.append (numberText_zeros _)), by decide⟩
      · exact ⟨sign.toList ++ (Nat.toDigits 10 d).take point.toNat, '.', _, by simp [← htext]; rfl,
          .inl rfl, hsign.append (htake _), hdrop _⟩
      · exact ⟨sign.toList ++ ['0'], '.', _, by simp [← htext]; rfl, .inl rfl,
          hsign.append (by decide), (numberText_zeros _).append hdigits⟩
      · exact ⟨sign.toList ++ (Nat.toDigits 10 d).take 1, 'e', _, by simp [← htext]; rfl, .inr rfl,
          hsign.append (htake _), numberText_int _⟩
      · exact ⟨sign.toList ++ (Nat.toDigits 10 d).take 1, '.', (Nat.toDigits 10 d).drop 1 ++
          'e' :: (toString (point - 1)).toList, by simp [← htext], .inl rfl, hsign.append (htake _),
            (hdrop _).append (.append (a := ['e']) (by decide) (numberText_int _))⟩

section

variable {readFloat : String → Option F64} {rest : List Char}

theorem reread_number (k : ℕ) (n : JsonNumber) :
    (number n).reread readFloat k = ((match n with
      | .float x => (readFloat (renderFloat x)).map .float
      | n => some n) : Option JsonNumber).map number := by
  cases n <;> cases k <;> simp [reread, Function.comp_def]

theorem toList_renderNumber {n : JsonNumber} (h : n.inRange = true) :
    NumberText (renderNumber n).toList ∧ (renderNumber n).toList ≠ [] := by
  cases n with
  | posInt n =>
    have htext : (renderNumber (.posInt n)).toList = Nat.toDigits 10 n := Nat.toList_repr
    rw [htext]
    exact ⟨numberText_digits fun _ hc => hc, Nat.toDigits_ne_nil⟩
  | negInt n =>
    rw [renderNumber, String.toList_append]
    exact ⟨.append (by decide) (numberText_int (n + 1 : ℕ)), by simp⟩
  | float x =>
    obtain ⟨front, mark, back, htext, hmark, hfront, hback⟩ := exists_mark h
    rw [renderNumber, htext]
    exact ⟨hfront.append (.append (a := [mark]) (by rcases hmark with rfl | rfl <;> decide) hback),
      by simp⟩

theorem integerOf_renderNumber {n : JsonNumber} (h : n.inRange = true) :
    integerOf (renderNumber n).toList = match n with
      | .float _ => none
      | n => some n := by
  cases n with
  | posInt n =>
    have htext : (renderNumber (.posInt n)).toList = Nat.toDigits 10 n := Nat.toList_repr
    rw [htext, integerOf_toDigits (by simpa [JsonNumber.inRange] using h)]
  | negInt n =>
    have htext : (renderNumber (.negInt n)).toList = '-' :: Nat.toDigits 10 (n + 1) := by
      rw [renderNumber, String.toList_append]
      exact congrArg _ Nat.toList_repr
    rw [htext, integerOf_minus (by simpa [JsonNumber.inRange] using h)]
  | float x =>
    obtain ⟨front, mark, back, htext, hmark, -⟩ := exists_mark h
    rw [renderNumber, htext]
    exact integerOf_eq_none (c := mark) (by simp) (by rcases hmark with rfl | rfl <;> decide)
      (by rcases hmark with rfl | rfl <;> decide)

/-- A printed number is read as far as it goes. -/
theorem readNumber_render {n : JsonNumber} (h : n.inRange = true) (k : ℕ) (hrest : Stops rest) :
    readNumber readFloat ((renderNumber n).toList ++ rest) =
      ((number n).reread readFloat k).map fun v => (v, rest) := by
  obtain ⟨htake, hdrop⟩ := span_append (toList_renderNumber h).1 hrest
  rw [reread_number, readNumber, htake, hdrop, integerOf_renderNumber h, String.ofList_toList]
  cases n with
  | posInt n | negInt n => rfl
  | float x => cases hread : readFloat (renderFloat x) <;> simp [renderNumber, hread]

/-! ### Values -/

theorem skipSpace_cons {c : Char} (h : isSpace c = false) (cs : List Char) :
    skipSpace (c :: cs) = c :: cs := by
  rw [skipSpace, List.dropWhile_cons, if_neg (by simp [h])]

/-- The first character of a value: no space, and not the end of an array or an object. -/
def IsFirst (c : Char) : Prop := isSpace c = false ∧ isWhitespace c = false ∧ c ≠ ']' ∧ c ≠ '\x7d'

instance (c : Char) : Decidable (IsFirst c) :=
  inferInstanceAs (Decidable (isSpace c = false ∧ isWhitespace c = false ∧ c ≠ ']' ∧ c ≠ '\x7d'))

/-- The first character of a number, which begins no other value. -/
theorem isFirst_of_isNumberChar {c : Char} (h : isNumberChar c = true) :
    IsFirst c ∧ c ∉ ['n', 't', 'f', '"', '[', '\x7b'] := by
  simp only [isNumberChar, Bool.or_eq_true, decide_eq_true_eq] at h
  rcases h with ((((hdigit | rfl) | rfl) | rfl) | rfl) | rfl
  · have hne (d : Char) (hd : isAsciiDigit d = false) : c ≠ d := by
      rintro rfl
      rw [hd] at hdigit
      cases hdigit
    refine ⟨⟨?_, isWhitespace_of_isAsciiDigit hdigit, hne _ (by decide), hne _ (by decide)⟩, ?_⟩
    · simp [isSpace, hne ' ' (by decide), hne '\n' (by decide), hne '\t' (by decide), hne '\r' (by decide)]
    · intro hmem
      have hnone : ['n', 't', 'f', '"', '[', '\x7b'].all (!isAsciiDigit ·) = true := by decide
      have hfalse := List.all_eq_true.mp hnone c hmem
      rw [hdigit] at hfalse
      cases hfalse
  all_goals decide

theorem exists_first {v : Json} (h : v.inRange = true) :
    ∃ c cs, v.render.toList = c :: cs ∧ IsFirst c := by
  cases v with
  | null => exact ⟨_, _, rfl, by decide⟩
  | bool b => cases b <;> exact ⟨_, _, rfl, by decide⟩
  | number n =>
    obtain ⟨htext, hne⟩ := toList_renderNumber h
    obtain ⟨c, cs, hcs⟩ := List.exists_cons_of_ne_nil hne
    exact ⟨c, cs, hcs, (isFirst_of_isNumberChar (htext c (hcs ▸ List.mem_cons_self))).1⟩
  | string s => exact ⟨_, _, toList_renderString s, by decide⟩
  | array items => exact ⟨'[', _, by rw [render, String.toList_append, String.toList_append]; rfl, by decide⟩
  | object entries =>
    exact ⟨'\x7b', _, by rw [render, String.toList_append, String.toList_append]; rfl, by decide⟩

theorem toList_join_cons (sep : Char) (s : String) (others : List String) :
    (join (String.singleton sep) (s :: others)).toList =
      s.toList ++ others.flatMap fun t => sep :: t.toList := by
  induction others generalizing s with
  | nil => simp [join]
  | cons t others ih =>
    rw [toList_join_cons_cons, ih]
    simp

theorem renderList_eq (items : List Json) : renderList items = items.map render := by
  induction items with
  | nil => rfl
  | cons v rest ih => rw [renderList, ih, List.map_cons]

theorem renderEntries_eq (entries : List (String × Json)) :
    renderEntries entries = entries.map fun e => renderString e.1 ++ ":" ++ e.2.render := by
  induction entries with
  | nil => rfl
  | cons e rest ih => rw [renderEntries, ih, List.map_cons]

/-- What a reader of values makes of a printed value. -/
def Reads (readFloat : String → Option F64) (n : ℕ) (readItem : Reader Json) (v : Json) : Prop :=
  ∀ rest, Stops rest → readItem (v.render.toList ++ rest) = (v.reread readFloat n).map fun v => (v, rest)

variable {readItem : Reader Json}

/-- The items of an array, of which there is one at least. -/
theorem readItems_render {n : ℕ} {v : Json} {others : List Json}
    (h : ∀ w ∈ v :: others, Reads readFloat n readItem w) {fuel : ℕ} (hfuel : others.length < fuel)
    (behind : List Char) :
    readItems readItem fuel (v.render.toList ++ ((others.flatMap fun w => ',' :: w.render.toList) ++
      ']' :: behind)) = (rereadItems readFloat n (v :: others)).map fun items => (items, behind) := by
  induction others generalizing v fuel with
  | nil =>
    obtain ⟨fuel, rfl⟩ := Nat.exists_eq_add_of_lt hfuel
    have hv := h v List.mem_cons_self (']' :: behind) (by simp [Stops]; decide)
    rw [List.flatMap_nil, List.nil_append, readItems, hv, rereadItems]
    cases v.reread readFloat n with
    | none => rfl
    | some v => simp [skipSpace_cons (c := ']') (by decide), rereadItems]
  | cons w others ih =>
    obtain ⟨fuel, rfl⟩ : ∃ k, fuel = k + 1 := ⟨fuel - 1, by omega⟩
    have ih := ih (fun u hu => h u (List.mem_cons_of_mem _ hu)) (Nat.lt_of_succ_lt_succ hfuel)
    rw [List.flatMap_cons, List.cons_append, List.cons_append, List.append_assoc]
    rw [readItems, h v List.mem_cons_self _ (by simp [Stops]; decide), rereadItems]
    cases v.reread readFloat n with
    | none => rfl
    | some v =>
      simp only [Option.map_some, Option.bind_eq_bind, Option.bind_some,
        skipSpace_cons (c := ',') (by decide), ih]
      cases rereadItems readFloat n (w :: others) <;> rfl

theorem readArray_of_ne {c : Char} {cs : List Char} (hspace : isSpace c = false)
    (hclose : c ≠ ']') : readArray readItem (c :: cs) = readItems readItem (c :: cs).length (c :: cs) := by
  rw [readArray, skipSpace_cons hspace]
  split
  · rename_i heq
    exact absurd (List.cons.inj heq).1 hclose
  · rfl

theorem length_le_flatMap_cons {α : Type} (sep : Char) (text : α → List Char) (items : List α) :
    items.length ≤ (items.flatMap fun a => sep :: text a).length := by
  induction items with
  | nil => exact Nat.le_refl _
  | cons a items ih =>
    rw [List.flatMap_cons, List.length_append, List.length_cons, List.length_cons]
    omega

/-- An array, behind its bracket. -/
theorem readArray_render {n : ℕ} {items : List Json}
    (hrange : ∀ v ∈ items, v.inRange = true) (h : ∀ v ∈ items, Reads readFloat n readItem v)
    (behind : List Char) :
    readArray readItem ((join "," (renderList items)).toList ++ ']' :: behind) =
      (rereadItems readFloat n items).map fun items => (items, behind) := by
  rw [renderList_eq]
  cases items with
  | nil => rfl
  | cons v others =>
    obtain ⟨c, cs, hfirst, hspace, -, hclose, -⟩ := exists_first (hrange v List.mem_cons_self)
    have hlength := length_le_flatMap_cons ',' (fun w : Json => w.render.toList) others
    rw [List.map_cons, show "," = String.singleton ',' from rfl, toList_join_cons, List.flatMap_map,
      List.append_assoc, ← @readItems_render _ _ _ _ _ h (v.render.toList ++
        ((others.flatMap fun w => ',' :: w.render.toList) ++ ']' :: behind)).length
        (by simp only [List.length_append, List.length_cons]; omega), hfirst]
    exact readArray_of_ne hspace hclose

/-- A key is read up to its colon. -/
theorem readKey_render (key : String) (rest : List Char) :
    readKey ((renderString key).toList ++ ':' :: rest) = some (key, rest) := by
  rw [toList_renderString]
  simp only [List.cons_append, List.append_assoc, List.nil_append, readKey,
    skipSpace_cons (c := '"') (by decide), readString_render, Option.bind_eq_bind, Option.bind_some,
    skipSpace_cons (c := ':') (by decide)]

/-- An entry, as it is printed. -/
def entryText (e : String × Json) : List Char := (renderString e.1).toList ++ ':' :: e.2.render.toList

/-- The entries of an object, of which there is one at least. -/
theorem readEntries_render {n : ℕ} {e : String × Json}
    {others : List (String × Json)} (h : ∀ f ∈ e :: others, Reads readFloat n readItem f.2) {fuel : ℕ}
    (hfuel : others.length < fuel) (behind : List Char) :
    readEntries readItem fuel (entryText e ++ ((others.flatMap fun f => ',' :: entryText f) ++
      '\x7d' :: behind)) =
        (rereadEntries readFloat n (e :: others)).map fun entries => (entries, behind) := by
  induction others generalizing e fuel with
  | nil =>
    obtain ⟨key, v⟩ := e
    obtain ⟨fuel, rfl⟩ := Nat.exists_eq_add_of_lt hfuel
    have hv := h (key, v) mem_cons_self ('\x7d' :: behind) (by simp [Stops]; decide)
    rw [flatMap_nil, nil_append, entryText, append_assoc, cons_append, readEntries,
      readKey_render, Option.bind_eq_bind, Option.bind_some]
    dsimp only at hv ⊢
    rw [hv, rereadEntries]
    cases v.reread readFloat n with
    | none => rfl
    | some v => simp [skipSpace_cons (c := '\x7d') (by decide), rereadEntries]
  | cons f others ih =>
    obtain ⟨key, v⟩ := e
    obtain ⟨fuel, rfl⟩ : ∃ k, fuel = k + 1 := ⟨fuel - 1, by omega⟩
    have ih := ih (fun g hg => h g (mem_cons_of_mem _ hg)) (Nat.lt_of_succ_lt_succ hfuel)
    have hv := h (key, v) mem_cons_self (',' :: (entryText f ++ ((others.flatMap fun g =>
      ',' :: entryText g) ++ '\x7d' :: behind))) (by simp [Stops]; decide)
    rw [flatMap_cons, cons_append, cons_append, append_assoc, entryText,
      append_assoc, cons_append, readEntries, readKey_render, Option.bind_eq_bind,
      Option.bind_some]
    dsimp only at hv ⊢
    rw [hv, rereadEntries]
    cases v.reread readFloat n with
    | none => rfl
    | some v =>
      simp only [Option.map_some, Option.bind_eq_bind, Option.bind_some,
        skipSpace_cons (c := ',') (by decide), ih]
      cases rereadEntries readFloat n (f :: others) <;> rfl

theorem readObject_of_ne {c : Char} {cs : List Char}
    (hspace : isSpace c = false) (hclose : c ≠ '\x7d') :
    readObject readItem (c :: cs) = readEntries readItem (c :: cs).length (c :: cs) := by
  rw [readObject, skipSpace_cons hspace]
  split
  · rename_i heq
    exact absurd (List.cons.inj heq).1 hclose
  · rfl

/-- An object, behind its brace. -/
theorem readObject_render {n : ℕ} {entries : List (String × Json)}
    (h : ∀ e ∈ entries, Reads readFloat n readItem e.2) (behind : List Char) :
    readObject readItem ((join "," (renderEntries entries)).toList ++ '\x7d' :: behind) =
      (rereadEntries readFloat n entries).map fun entries => (entries, behind) := by
  have htext (e : String × Json) :
      (renderString e.1 ++ ":" ++ e.2.render).toList = entryText e := by
    rw [String.toList_append, String.toList_append, append_assoc]
    rfl
  rw [renderEntries_eq]
  cases entries with
  | nil => rfl
  | cons e others =>
    have hlength := length_le_flatMap_cons ',' entryText others
    have hothers : ((others.map fun e => renderString e.1 ++ ":" ++ e.2.render).flatMap fun t =>
        ',' :: t.toList) = others.flatMap fun e => ',' :: entryText e := by
      rw [flatMap_map]
      simp only [htext]
    rw [map_cons, show "," = String.singleton ',' from rfl, toList_join_cons, htext, hothers,
      append_assoc, ← @readEntries_render _ _ _ _ _ h (entryText e ++
        ((others.flatMap fun f => ',' :: entryText f) ++ '\x7d' :: behind)).length
        (by simp only [length_append, length_cons]; omega)]
    rw [entryText, toList_renderString]
    exact readObject_of_ne (by decide) (by decide)

/-- The level below, where there is one. -/
@[grind =]
def belowLevel (readFloat : String → Option F64) : ℕ → Option (Reader Json)
  | 0 => none
  | n + 1 => some (readValue readFloat n)

theorem readValue_eq (n : ℕ) : readValue readFloat n = readLevel readFloat (belowLevel readFloat n) := by
  cases n <;> rfl

/-- **A printed value, whatever stands behind it**, is read as it is read again, and no further. -/
theorem readValue_render {v : Json} (h : v.inRange = true) (n : ℕ) :
    Reads readFloat n (readValue readFloat n) v := by
  induction v using Json.induction generalizing n with
  | null =>
    intro rest _
    rw [readValue_eq]
    cases n <;> simp [render, readLevel, skipSpace, isSpace, readWord, reread]
  | bool b =>
    intro rest _
    rw [readValue_eq]
    cases b <;> cases n <;> simp [render, readLevel, skipSpace, isSpace, readWord, reread]
  | number m =>
    intro rest hrest
    obtain ⟨htext, hne⟩ := toList_renderNumber h
    obtain ⟨c, cs, hcs⟩ := exists_cons_of_ne_nil hne
    obtain ⟨⟨hspace, -⟩, hother⟩ := isFirst_of_isNumberChar (htext c (hcs ▸ mem_cons_self))
    simp only [mem_cons, not_mem_nil, or_false, not_or] at hother
    obtain ⟨hn, ht, hf, hquote, harray, hobject⟩ := hother
    rw [← readNumber_render h n hrest, readValue_eq, render, hcs, cons_append, readLevel,
      skipSpace_cons hspace]
    simp only [hn, ht, hf, hquote, harray, hobject, ↓reduceIte]
  | string s =>
    intro rest _
    have hreread : (string s).reread readFloat n = some (string s) := by cases n <;> rfl
    rw [hreread, readValue_eq, render, toList_renderString, cons_append, append_assoc, readLevel,
      skipSpace_cons (by decide)]
    simp [readString_render]
  | array items ih =>
    intro rest _
    rw [inRange_array] at h
    have htext : (array items).render.toList ++ rest =
        '[' :: ((join "," (renderList items)).toList ++ ']' :: rest) := by
      rw [render, String.toList_append, String.toList_append, append_assoc, append_assoc]
      rfl
    rw [htext, readValue_eq, readLevel, skipSpace_cons (by decide)]
    cases n with
    | zero => simp [belowLevel, reread]
    | succ n =>
      have hread := readArray_render h (fun v hv => ih v hv (h v hv) n) rest
      simp only [belowLevel, reread, Option.bind_eq_bind, Option.bind_some, hread]
      cases rereadItems readFloat n items <;> simp
  | object entries ih =>
    intro rest _
    rw [inRange_object] at h
    have htext : (object entries).render.toList ++ rest =
        '\x7b' :: ((join "," (renderEntries entries)).toList ++ '\x7d' :: rest) := by
      rw [render, String.toList_append, String.toList_append, append_assoc, append_assoc]
      rfl
    rw [htext, readValue_eq, readLevel, skipSpace_cons (by decide)]
    cases n with
    | zero => simp [belowLevel, reread]
    | succ n =>
      have hread := readObject_render (fun e he => ih e he (h e he) n) rest
      simp only [belowLevel, reread, Option.bind_eq_bind, Option.bind_some, hread]
      cases rereadEntries readFloat n entries <;> simp

/-- **A printed text** is read as its value is read again. -/
theorem fromStr_render {v : Json} (h : v.inRange = true) :
    (fromStr readFloat v.render).toOption = v.reread readFloat 127 := by
  have hread := @readValue_render readFloat _ h 127 [] (by simp [Stops])
  rw [append_nil] at hread
  rw [fromStr, hread]
  cases v.reread readFloat 127 <;> rfl

end

end JsonText

/-- The reader with a way to read floats. -/
def JsonReader.ofFloats (readFloat : String → Option F64) : JsonReader where
  readFloat
  fromStr := JsonText.fromStr readFloat
  fromStr_render _ := JsonText.fromStr_render

namespace Json

/-! ### What is printed -/

/-- A text without control characters below the space. -/
def Printable (text : String) : Prop := ∀ c ∈ text.toList, 32 ≤ c.toNat

instance (text : String) : Decidable (Printable text) :=
  inferInstanceAs (Decidable (∀ c ∈ text.toList, 32 ≤ c.toNat))

theorem Printable.append {a b : String} (ha : Printable a) (hb : Printable b) : Printable (a ++ b) := by
  intro c hc
  rw [String.toList_append] at hc
  exact (mem_append.mp hc).elim (ha c) (hb c)

theorem Printable.join {parts : List String} (h : ∀ part ∈ parts, Printable part) :
    Printable (join "," parts) := by
  intro c hc
  have hcomma : Printable "," := by decide
  rcases mem_join hc with hc | ⟨part, hpart, hc⟩
  · exact hcomma c hc
  · exact h part hpart c hc

theorem printable_escapeChar (c : Char) : ∀ d ∈ escapeChar c, 32 ≤ d.toNat := by
  have hhex (n : ℕ) (h : n < 32) :
      ∀ d ∈ List.replicate (4 - (Nat.toDigits 16 n).length) '0' ++ Nat.toDigits 16 n, 32 ≤ d.toNat := by
    interval_cases n <;> decide
  unfold escapeChar
  split_ifs with _ _ _ _ _ _ _ hcontrol
  · decide
  · decide
  · decide
  · decide
  · decide
  · decide
  · decide
  · intro d hd
    rw [append_assoc, mem_append] at hd
    rcases hd with hd | hd
    · revert d
      decide
    · exact hhex _ hcontrol d hd
  · simpa using Nat.not_lt.mp hcontrol

theorem printable_renderString (s : String) : Printable (renderString s) := by
  intro c hc
  rw [JsonText.toList_renderString, mem_cons, mem_append, mem_singleton,
    mem_flatMap] at hc
  rcases hc with rfl | ⟨d, -, hd⟩ | rfl
  · decide
  · exact printable_escapeChar d c hd
  · decide

theorem toNat_of_isNumberChar {c : Char} (h : JsonText.isNumberChar c = true) : 32 ≤ c.toNat := by
  simp only [JsonText.isNumberChar, Bool.or_eq_true, decide_eq_true_eq] at h
  rcases h with ((((hdigit | rfl) | rfl) | rfl) | rfl) | rfl
  · simp only [isAsciiDigit, Bool.and_eq_true, decide_eq_true_eq, Char.le_def] at hdigit
    exact le_trans (by decide) hdigit.1
  all_goals decide

/-- **A printed value has no control characters**, so no line breaks. -/
theorem render_printable {v : Json} (h : v.inRange = true) : Printable v.render := by
  induction v using Json.induction with
  | null => decide
  | bool b => cases b <;> decide
  | number n => exact fun c hc => toNat_of_isNumberChar ((JsonText.toList_renderNumber h).1 c hc)
  | string s => exact printable_renderString s
  | array items ih =>
    rw [inRange_array] at h
    refine .append (.append (by decide) (.join fun part hpart => ?_)) (by decide)
    rw [JsonText.renderList_eq] at hpart
    obtain ⟨v, hv, rfl⟩ := mem_map.mp hpart
    exact ih v hv (h v hv)
  | object entries ih =>
    rw [inRange_object] at h
    refine .append (.append (by decide) (.join fun part hpart => ?_)) (by decide)
    rw [JsonText.renderEntries_eq] at hpart
    obtain ⟨e, he, rfl⟩ := mem_map.mp hpart
    exact .append (.append (printable_renderString _) (by decide)) (ih e he (h e he))

end Json

end LazyPock
