import Mathlib.Algebra.Order.Ring.Int
import Mathlib.Data.List.Basic
import Mathlib.Data.List.DropRight

/-!
# Text

The string functions of the standard library that the server calls, on lists of characters so
that every one of them evaluates. The character classes are those of `char::is_whitespace`,
`char::is_control` and the `is_ascii_*` family.

## Main definitions

* `Text.trim`, `Text.splitOn`, `Text.splitOnce`,
  `Text.rsplitOnce`: `str::trim`, and `str::split`, `str::split_once` and
  `str::rsplit_once` at one character.
* `Text.double`: `str::replace` of a quote by two quotes.
* `Text.debug`: the `{:?}` form of a string in an error message.
-/

namespace LazyPock.Text

open List

/-- A property of every element of a list is decided along the list, not over the type. -/
instance (priority := high) decidableForallMem {α : Type} (p : α → Prop) [DecidablePred p] (l : List α) :
    Decidable (∀ x ∈ l, p x) := List.decidableBAll p l

/-! ### Character classes -/

def isAsciiLower (c : Char) : Bool := 'a' ≤ c && c ≤ 'z'

def isAsciiUpper (c : Char) : Bool := 'A' ≤ c && c ≤ 'Z'

def isAsciiDigit (c : Char) : Bool := '0' ≤ c && c ≤ '9'

def isAsciiAlphabetic (c : Char) : Bool := isAsciiLower c || isAsciiUpper c

def isAsciiAlphanumeric (c : Char) : Bool := isAsciiAlphabetic c || isAsciiDigit c

/-- The Unicode `White_Space` property. -/
def isWhitespace (c : Char) : Bool :=
  let n := c.toNat
  (9 ≤ n && n ≤ 13) || n == 32 || n == 133 || n == 160 || n == 5760 ||
    (8192 ≤ n && n ≤ 8202) || n == 8232 || n == 8233 || n == 8239 || n == 8287 || n == 12288

/-- The Unicode category `Cc`. -/
def isControl (c : Char) : Bool := c.toNat < 32 || (127 ≤ c.toNat && c.toNat < 160)

/-! ### Cutting -/

/-- `str::trim`. -/
def trim (s : String) : String :=
  String.ofList (((s.toList.dropWhile isWhitespace).reverse.dropWhile isWhitespace).reverse)

/-- `str::split` at one character: always at least one piece. -/
@[grind =]
def splitChars (sep : Char) : List Char → List (List Char)
  | [] => [[]]
  | c :: cs =>
    if c = sep then [] :: splitChars sep cs
    else match splitChars sep cs with
      | [] => [[c]]
      | piece :: rest => (c :: piece) :: rest

def splitOn (sep : Char) (s : String) : List String := (splitChars sep s.toList).map String.ofList

/-- `str::split_once` at one character. -/
@[grind =]
def splitOnceChars (sep : Char) : List Char → Option (List Char × List Char)
  | [] => none
  | c :: cs =>
    if c = sep then some ([], cs)
    else (splitOnceChars sep cs).map fun (before, after) => (c :: before, after)

def splitOnce (sep : Char) (s : String) : Option (String × String) :=
  (splitOnceChars sep s.toList).map fun (before, after) => (String.ofList before, String.ofList after)

/-- `str::rsplit_once` at one character. -/
def rsplitOnce (sep : Char) (s : String) : Option (String × String) :=
  (splitOnceChars sep s.toList.reverse).map fun (after, before) =>
    (String.ofList before.reverse, String.ofList after.reverse)

/-- `str::starts_with`. -/
def startsWith (start s : String) : Bool := start.toList.isPrefixOf s.toList

/-- `str::ends_with`. -/
def endsWith (suffix s : String) : Bool := suffix.toList.isSuffixOf s.toList

/-- `str::contains`. -/
def contains (part s : String) : Bool := s.toList.tails.any fun rest => part.toList.isPrefixOf rest

/-- `str::len`: the number of bytes. -/
def byteLen (s : String) : Nat := (s.toList.map Char.utf8Size).sum

/-- `str::to_ascii_lowercase`. -/
def toAsciiLowercase (s : String) : String := String.ofList (s.toList.map Char.toLower)

/-- `str::trim_end_matches` of one character. -/
def trimEndMatches (c : Char) (s : String) : String :=
  String.ofList ((s.toList.reverse.dropWhile (· = c)).reverse)

/-- `str::strip_prefix`. -/
def stripPrefix (start s : String) : Option String :=
  if startsWith start s then some (String.ofList (s.toList.drop start.toList.length)) else none

/-- `str::strip_suffix`. -/
def stripSuffix (suffix s : String) : Option String :=
  if endsWith suffix s then
    some (String.ofList (s.toList.take (s.toList.length - suffix.toList.length)))
  else none

/-- `from_str` of an unsigned integer of some bits: an optional plus, at least one digit, no overflow. -/
@[grind =]
def parseUInt (bits : Nat) (s : String) : Option Nat :=
  let digits := match s.toList with
    | '+' :: rest => rest
    | cs => cs
  if digits = [] ∨ ¬ digits.all isAsciiDigit then none
  else
    let value := Nat.ofDigitChars 10 digits 0
    if value < 2 ^ bits then some value else none

/-- `char::to_digit` to the base 16. -/
def hexDigit (c : Char) : Option Nat :=
  if isAsciiDigit c then some (c.toNat - '0'.toNat)
  else if 'a' ≤ c ∧ c ≤ 'f' then some (c.toNat - 'a'.toNat + 10)
  else if 'A' ≤ c ∧ c ≤ 'F' then some (c.toNat - 'A'.toNat + 10)
  else none

/-- `[String]::join`. -/
@[grind =]
def join (sep : String) : List String → String
  | [] => ""
  | [s] => s
  | s :: rest => s ++ sep ++ join sep rest

/-! ### Escaping -/

/-- Every occurrence of `quote` written twice. -/
def doubleChars (quote : Char) (cs : List Char) : List Char :=
  cs.flatMap fun c => if c = quote then [c, c] else [c]

def double (quote : Char) (s : String) : String := String.ofList (doubleChars quote s.toList)

def debugChar (c : Char) : List Char :=
  if c = '"' then ['\\', '"']
  else if c = '\\' then ['\\', '\\']
  else if c = '\n' then ['\\', 'n']
  else if c = '\r' then ['\\', 'r']
  else if c = '\t' then ['\\', 't']
  else if c.toNat = 0 then ['\\', '0']
  else if isControl c then
    "\\u\x7b".toList ++ Nat.toDigits 16 c.toNat ++ "\x7d".toList
  else [c]

/-- The `{:?}` form of a string. -/
def debug (s : String) : String := "\"" ++ String.ofList (s.toList.flatMap debugChar) ++ "\""

/-- The `{:?}` form of a character. -/
def debugQuoted (c : Char) : String :=
  "'" ++ String.ofList (if c = '\'' then ['\\', c] else if c = '"' then [c] else debugChar c) ++ "'"

/-- The `{:?}` form of a list of strings. -/
def debugList (items : List String) : String := "[" ++ join ", " (items.map debug) ++ "]"

/-! ### Record ids -/

/-- `ID_LEN` -/
def idLen : Nat := 15

/-- `is_valid_id`: whether a text is a record id as the server generates them. -/
def isValidId (candidate : String) : Bool :=
  byteLen candidate = idLen && candidate.toList.all isAsciiAlphanumeric

/-! ### Lemmas -/

@[simp] theorem toList_double (quote : Char) (s : String) :
    (double quote s).toList = doubleChars quote s.toList := by
  simp [double]

@[simp] theorem doubleChars_nil (quote : Char) : doubleChars quote [] = [] := rfl

theorem doubleChars_cons_self (quote : Char) (cs : List Char) :
    doubleChars quote (quote :: cs) = quote :: quote :: doubleChars quote cs := by
  simp [doubleChars]

variable {c : Char}

theorem doubleChars_cons_of_ne {quote : Char} (h : c ≠ quote) (cs : List Char) :
    doubleChars quote (c :: cs) = c :: doubleChars quote cs := by
  simp [doubleChars, h]

theorem toList_join_cons_cons (sep s t : String) (rest : List String) :
    (join sep (s :: t :: rest)).toList = s.toList ++ sep.toList ++ (join sep (t :: rest)).toList := by
  simp [join]

theorem isAsciiDigit_of_mem_toDigits {n : Nat} (hc : c ∈ Nat.toDigits 10 n) :
    isAsciiDigit c = true := by
  have h := Nat.isDigit_of_mem_toDigits (by decide) (by decide) hc
  simpa [Char.isDigit, isAsciiDigit, Char.le_def] using h

theorem toString_inj {m n : Nat} : toString m = toString n ↔ m = n := by
  refine ⟨fun h => ?_, fun h => h ▸ rfl⟩
  have hdigits : Nat.toDigits 10 m = Nat.toDigits 10 n := by
    simpa [Nat.toList_repr] using congrArg String.toList h
  rw [← Nat.ofDigitChars_ten_toDigits (n := m), hdigits, Nat.ofDigitChars_ten_toDigits]

theorem append_toString_inj {head : String} {m n : Nat} :
    head ++ toString m = head ++ toString n ↔ m = n := by
  refine ⟨fun h => ?_, fun h => h ▸ rfl⟩
  have hlists := congrArg String.toList h
  rw [String.toList_append, String.toList_append, append_cancel_left_eq] at hlists
  exact toString_inj.mp (String.ext hlists)

variable {s : String}

theorem trim_of_forall (h : ∀ c ∈ s.toList, isWhitespace c = false) :
    trim s = s := by
  have hdrop : ∀ cs : List Char, (∀ c ∈ cs, isWhitespace c = false) →
      cs.dropWhile isWhitespace = cs := by
    intro cs hcs
    cases cs with
    | nil => rfl
    | cons c cs => simp [hcs c (by simp)]
  rw [trim, hdrop _ h, hdrop _ (by simpa using h)]
  simp

/-- Trimming only drops white space. -/
theorem mem_trim (hc : isWhitespace c = false) (h : c ∈ s.toList) :
    c ∈ (trim s).toList := by
  have hdrop : ∀ cs : List Char, c ∈ cs → c ∈ cs.dropWhile isWhitespace := by
    intro cs hmem
    rw [← takeWhile_append_dropWhile (p := isWhitespace) (l := cs), mem_append] at hmem
    refine hmem.resolve_left fun htake => ?_
    rw [mem_takeWhile_imp htake] at hc
    cases hc
  rw [trim, String.toList_ofList, mem_reverse]
  exact hdrop _ (mem_reverse.mpr (hdrop _ h))

theorem isWhitespace_of_isAsciiDigit (h : isAsciiDigit c = true) :
    isWhitespace c = false := by
  have hrange : 48 ≤ c.toNat ∧ c.toNat ≤ 57 := by
    simpa [isAsciiDigit, Char.le_def, UInt32.le_iff_toNat_le] using h
  simp only [isWhitespace, Bool.or_eq_false_iff, Bool.and_eq_false_iff, decide_eq_false_iff_not,
    beq_eq_false_iff_ne]
  omega

theorem toNat_of_isAsciiAlphanumeric (h : isAsciiAlphanumeric c = true) :
    (97 ≤ c.toNat ∧ c.toNat ≤ 122) ∨ (65 ≤ c.toNat ∧ c.toNat ≤ 90) ∨
      (48 ≤ c.toNat ∧ c.toNat ≤ 57) := by
  simpa [isAsciiAlphanumeric, isAsciiAlphabetic, isAsciiLower, isAsciiUpper, isAsciiDigit,
    Char.le_def, UInt32.le_iff_toNat_le, or_assoc] using h

theorem isWhitespace_of_isAsciiAlphanumeric (h : isAsciiAlphanumeric c = true) :
    isWhitespace c = false := by
  have hrange := toNat_of_isAsciiAlphanumeric h
  simp only [isWhitespace, Bool.or_eq_false_iff, Bool.and_eq_false_iff, decide_eq_false_iff_not,
    beq_eq_false_iff_ne]
  omega

theorem isControl_of_isAsciiAlphanumeric (h : isAsciiAlphanumeric c = true) :
    isControl c = false := by
  have hrange := toNat_of_isAsciiAlphanumeric h
  simp only [isControl, Bool.or_eq_false_iff, Bool.and_eq_false_iff, decide_eq_false_iff_not]
  omega

theorem byteLen_of_isValidId {id : String} (h : isValidId id = true) : byteLen id = idLen := by
  rw [isValidId, Bool.and_eq_true] at h
  exact of_decide_eq_true h.1

theorem isAsciiAlphanumeric_of_isValidId {id : String} (h : isValidId id = true)
    (hc : c ∈ id.toList) : isAsciiAlphanumeric c = true := by
  rw [isValidId, Bool.and_eq_true, all_eq_true] at h
  exact h.2 c hc

variable {sep : Char}

theorem splitOnceChars_append {cs rest : List Char} (h : sep ∉ cs) :
    splitOnceChars sep (cs ++ sep :: rest) = some (cs, rest) := by
  induction cs with
  | nil => simp [splitOnceChars]
  | cons c cs ih =>
    simp only [mem_cons, not_or] at h
    simp [splitOnceChars, ih h.2, Ne.symm h.1]

theorem splitChars_of_notMem {cs : List Char} (h : sep ∉ cs) :
    splitChars sep cs = [cs] := by
  induction cs with
  | nil => rfl
  | cons c cs ih =>
    simp only [mem_cons, not_or] at h
    simp [splitChars, ih h.2, Ne.symm h.1]

theorem splitChars_append {cs rest : List Char} (h : sep ∉ cs) :
    splitChars sep (cs ++ sep :: rest) = cs :: splitChars sep rest := by
  induction cs with
  | nil => simp [splitChars]
  | cons c cs ih =>
    simp only [mem_cons, not_or] at h
    simp [splitChars, ih h.2, Ne.symm h.1]

theorem splitChars_ne_nil (sep : Char) (cs : List Char) : splitChars sep cs ≠ [] := by
  cases cs with
  | nil => simp [splitChars]
  | cons c cs =>
    rw [splitChars]
    split_ifs
    · simp
    · split <;> simp

theorem splitOn_ne_nil (sep : Char) (s : String) : splitOn sep s ≠ [] := by
  simp [splitOn, splitChars_ne_nil]

/-- Joined parts without the separator split into them. -/
theorem splitOn_join {separator : String} {parts : List String}
    (hsep : separator.toList = [sep]) (hne : parts ≠ []) (h : ∀ s ∈ parts, sep ∉ s.toList) :
    splitOn sep (join separator parts) = parts := by
  induction parts with
  | nil => exact absurd rfl hne
  | cons s rest ih =>
    cases rest with
    | nil => simp [splitOn, join, splitChars_of_notMem (h s (by simp))]
    | cons t rest =>
      have htail := ih (by simp) fun u hu => h u (mem_cons_of_mem _ hu)
      rw [splitOn, toList_join_cons_cons, hsep, append_assoc, singleton_append,
        splitChars_append (h s (by simp)), map_cons, String.ofList_toList]
      exact congrArg _ htail

theorem mem_join {separator : String} {parts : List String}
    (h : c ∈ (join separator parts).toList) :
    c ∈ separator.toList ∨ ∃ s ∈ parts, c ∈ s.toList := by
  induction parts with
  | nil => simp [join] at h
  | cons s rest ih =>
    cases rest with
    | nil => exact .inr ⟨s, mem_cons_self, h⟩
    | cons t rest =>
      rw [toList_join_cons_cons, mem_append, mem_append] at h
      rcases h with (h | h) | h
      · exact .inr ⟨s, mem_cons_self, h⟩
      · exact .inl h
      · exact (ih h).imp_right fun ⟨u, hu, hc⟩ => ⟨u, mem_cons_of_mem _ hu, hc⟩

theorem mem_of_mem_splitChars {cs piece : List Char} (h : piece ∈ splitChars sep cs) (hc : c ∈ piece) : c ∈ cs := by
  induction cs generalizing piece with
  | nil =>
    obtain rfl : piece = [] := mem_singleton.mp h
    cases hc
  | cons d cs ih =>
    rw [splitChars] at h
    split_ifs at h
    · rcases mem_cons.mp h with rfl | hrest
      · cases hc
      · exact mem_cons_of_mem d (ih hrest hc)
    · obtain ⟨first, rest, hfirst⟩ := exists_cons_of_ne_nil (splitChars_ne_nil sep cs)
      simp only [hfirst] at h ih
      rcases mem_cons.mp h with rfl | hrest
      · rcases mem_cons.mp hc with rfl | hc
        · exact mem_cons_self
        · exact mem_cons_of_mem d (ih mem_cons_self hc)
      · exact mem_cons_of_mem d (ih (mem_cons_of_mem _ hrest) hc)

/-- The pieces of two texts with a separator between them. -/
theorem splitChars_append_cons (sep : Char) (cs rest : List Char) :
    splitChars sep (cs ++ sep :: rest) = splitChars sep cs ++ splitChars sep rest := by
  induction cs with
  | nil => simp [splitChars]
  | cons c cs ih =>
    by_cases hc : c = sep
    · simp [splitChars, hc, ih]
    · obtain ⟨piece, pieces, hpieces⟩ := exists_cons_of_ne_nil (splitChars_ne_nil sep cs)
      simp [splitChars, hc, ih, hpieces]

theorem splitOnceChars_eq_some {cs before after : List Char}
    (h : splitOnceChars sep cs = some (before, after)) : cs = before ++ sep :: after := by
  induction cs generalizing before with
  | nil => simp [splitOnceChars] at h
  | cons c cs ih =>
    rw [splitOnceChars] at h
    split_ifs at h with hc
    · obtain ⟨rfl, rfl⟩ : [] = before ∧ cs = after := by simpa using h
      rw [hc, nil_append]
    · obtain ⟨⟨first, last⟩, hrest, heq⟩ := Option.map_eq_some_iff.mp h
      obtain ⟨rfl, rfl⟩ : c :: first = before ∧ last = after := by simpa using heq
      rw [ih hrest, cons_append]

theorem notMem_of_splitOnceChars {cs before after : List Char}
    (h : splitOnceChars sep cs = some (before, after)) : sep ∉ before := by
  induction cs generalizing before with
  | nil => simp [splitOnceChars] at h
  | cons c cs ih =>
    rw [splitOnceChars] at h
    split_ifs at h with hc
    · obtain ⟨rfl, rfl⟩ : [] = before ∧ cs = after := by simpa using h
      exact not_mem_nil
    · obtain ⟨⟨first, last⟩, hrest, heq⟩ := Option.map_eq_some_iff.mp h
      obtain ⟨rfl, rfl⟩ : c :: first = before ∧ last = after := by simpa using heq
      exact not_mem_cons_of_ne_of_not_mem (Ne.symm hc) (ih hrest)

theorem splitOnce_eq_some {before after : String} :
    splitOnce sep s = some (before, after) ↔
      s.toList = before.toList ++ sep :: after.toList ∧ sep ∉ before.toList := by
  constructor
  · intro h
    obtain ⟨⟨cs, ds⟩, hsplit, hpair⟩ := Option.map_eq_some_iff.mp h
    obtain ⟨rfl, rfl⟩ := Prod.mk.inj hpair
    rw [String.toList_ofList, String.toList_ofList]
    exact ⟨splitOnceChars_eq_some hsplit, notMem_of_splitOnceChars hsplit⟩
  · rintro ⟨hs, hsep⟩
    simp [splitOnce, hs, splitOnceChars_append hsep]

theorem rsplitOnce_eq_some {before after : String}
    (h : rsplitOnce sep s = some (before, after)) :
    s.toList = before.toList ++ sep :: after.toList := by
  obtain ⟨⟨last, first⟩, hsplit, heq⟩ := Option.map_eq_some_iff.mp h
  obtain ⟨rfl, rfl⟩ : String.ofList first.reverse = before ∧ String.ofList last.reverse = after := by
    simpa using heq
  have hreverse := congrArg List.reverse (splitOnceChars_eq_some hsplit)
  simpa using hreverse

theorem exists_splitOnceChars {cs : List Char} (h : sep ∈ cs) :
    ∃ before after, splitOnceChars sep cs = some (before, after) := by
  induction cs with
  | nil => cases h
  | cons c cs ih =>
    rw [splitOnceChars]
    split_ifs with hc
    · exact ⟨[], cs, rfl⟩
    · obtain ⟨before, after, hsplit⟩ := ih ((mem_cons.mp h).resolve_left (Ne.symm hc))
      exact ⟨c :: before, after, by rw [hsplit]; rfl⟩

theorem exists_rsplitOnce (h : sep ∈ s.toList) :
    ∃ before after, rsplitOnce sep s = some (before, after) := by
  obtain ⟨last, first, hsplit⟩ := exists_splitOnceChars (mem_reverse.mpr h)
  exact ⟨_, _, by rw [rsplitOnce, hsplit]; rfl⟩

theorem notMem_of_rsplitOnce {before after : String}
    (h : rsplitOnce sep s = some (before, after)) : sep ∉ after.toList := by
  obtain ⟨⟨last, first⟩, hsplit, heq⟩ := Option.map_eq_some_iff.mp h
  obtain ⟨-, rfl⟩ : String.ofList first.reverse = before ∧ String.ofList last.reverse = after := by
    simpa using heq
  simpa using notMem_of_splitOnceChars hsplit

theorem endsWith_iff {suffix : String} :
    endsWith suffix s = true ↔ ∃ start, s = start ++ suffix := by
  rw [endsWith, isSuffixOf_iff_suffix]
  constructor
  · rintro ⟨start, hs⟩
    exact ⟨String.ofList start, String.toList_inj.mp (by simpa using hs.symm)⟩
  · rintro ⟨start, rfl⟩
    exact ⟨start.toList, by simp⟩

theorem stripSuffix_eq_some {suffix start : String} :
    stripSuffix suffix s = some start ↔ s = start ++ suffix := by
  unfold stripSuffix
  constructor
  · intro h
    split_ifs at h with hsuffix
    obtain ⟨before, rfl⟩ := endsWith_iff.mp hsuffix
    simpa using h
  · rintro rfl
    rw [if_pos (endsWith_iff.mpr ⟨start, rfl⟩)]
    simp

@[simp] theorem startsWith_iff {start : String} :
    startsWith start s = true ↔ start.toList <+: s.toList :=
  isPrefixOf_iff_prefix

theorem stripPrefix_eq_some {start rest : String} :
    stripPrefix start s = some rest ↔ s = start ++ rest := by
  unfold stripPrefix
  constructor
  · intro h
    split_ifs at h with hstart
    obtain ⟨after, hs⟩ := startsWith_iff.mp hstart
    obtain rfl := Option.some.inj h
    refine String.toList_inj.mp ?_
    rw [String.toList_append, ← hs]
    simp
  · rintro rfl
    rw [if_pos (startsWith_iff.mpr ⟨rest.toList, by simp⟩)]
    simp

/-! ### Casing and trimming -/

theorem toNat_toLower (c : Char) :
    c.toLower.toNat = if 65 ≤ c.toNat ∧ c.toNat ≤ 90 then c.toNat + 32 else c.toNat := by
  have hiff : (c.val ≥ 'A'.val ∧ c.val ≤ 'Z'.val) ↔ 65 ≤ c.toNat ∧ c.toNat ≤ 90 := by
    rw [ge_iff_le, UInt32.le_iff_toNat_le, UInt32.le_iff_toNat_le]
    rfl
  unfold Char.toLower
  split_ifs with h h' h'
  · change (c.val + ('a'.val - 'A'.val)).toNat = _
    rw [UInt32.toNat_add]
    have : c.val.toNat = c.toNat := rfl
    have h2 : ('a'.val - 'A'.val).toNat = 32 := rfl
    omega
  · exact absurd (hiff.mp h) h'
  · exact absurd (hiff.mpr h') h
  · rfl

theorem toLower_toLower (c : Char) : c.toLower.toLower = c.toLower := by
  rw [← Char.toNat_inj]
  rw [toNat_toLower, toNat_toLower]
  split_ifs <;> omega

theorem toLower_eq_dot_iff : c.toLower = '.' ↔ c = '.' := by
  rw [← Char.toNat_inj, ← Char.toNat_inj, toNat_toLower, show '.'.toNat = 46 from rfl]
  split_ifs <;> omega

/-- A text is trimmed to itself when it does not end with the character. -/
theorem trimEndMatches_eq_self :
    trimEndMatches c s = s ↔ s.toList.getLast? ≠ some c := by
  have hself := rdropWhile_eq_self_iff (p := fun a => decide (a = c)) (l := s.toList)
  rw [← String.toList_inj, trimEndMatches, String.toList_ofList]
  refine hself.trans ?_
  cases hlist : s.toList using List.reverseRecOn with
  | nil => simp
  | append_singleton cs last => simp

theorem trimEndMatches_trimEndMatches (c : Char) (s : String) :
    trimEndMatches c (trimEndMatches c s) = trimEndMatches c s := by
  refine congrArg String.ofList ?_
  rw [trimEndMatches, String.toList_ofList]
  exact rdropWhile_idempotent (fun a => decide (a = c)) s.toList

/-- What was lowercased stays so when its end is trimmed. -/
theorem toAsciiLowercase_trimEndMatches (c : Char) (s : String) :
    toAsciiLowercase (trimEndMatches c (toAsciiLowercase s)) =
      trimEndMatches c (toAsciiLowercase s) := by
  have hlower : ∀ a ∈ (trimEndMatches c (toAsciiLowercase s)).toList, a.toLower = a := by
    intro a ha
    have hmem : a ∈ s.toList.map Char.toLower := by
      rw [trimEndMatches, String.toList_ofList, mem_reverse] at ha
      have := (dropWhile_sublist _).subset ha
      simpa [toAsciiLowercase] using this
    obtain ⟨b, -, rfl⟩ := mem_map.mp hmem
    exact toLower_toLower b
  rw [toAsciiLowercase, map_congr_left hlower, map_id', String.ofList_toList]

end LazyPock.Text
