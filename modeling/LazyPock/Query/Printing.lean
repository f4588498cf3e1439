import LazyPock.Query.Grammar

/-!
# Printing filters

A filter written out with parentheses around every `&&` and `||`, and that the tokenizer and the
parser of `crates/db/src/query/filter.rs` read it back. Texts stand in double quotes with `\` and
`"` escaped, tokens are separated by spaces, and a number is written by a function that is a
parameter: what it writes must be a number literal that is read back as the number.

## Main definitions

* `Filter.Token.chars`: a token as it is written.
* `Filter.Printable`: the filters whose names can be written in a filter.
* `Filter.printTokens`, `Filter.print`: a filter as tokens and as a text.

## Main results

* `Filter.tokenize_spaced`: the tokenizer reads tokens written with spaces between them.
* `Filter.derives_printTokens`: the tokens of a filter derive it.
* `Filter.parse_print`: parsing what was printed gives the filter.
-/

namespace LazyPock.Filter

open Text

/-! ### Names -/

/-- A character of a name. -/
def isNameChar (c : Char) : Bool := isAsciiAlphanumeric c || c = '_'

/-- `[A-Za-z_][A-Za-z0-9_]*` -/
@[grind =]
def isIdentifier (s : String) : Bool :=
  match s.toList with
  | [] => false
  | first :: rest => (isAsciiAlphabetic first || first = '_') && rest.all isNameChar

/-- A field path: a word alone must not be a constant. -/
def isFieldPath : List String → Bool
  | [] => false
  | [s] => isIdentifier s && !(["true", "false", "null"].contains s)
  | segments => segments.all isIdentifier

/-- A claim that is not one of the references with a name of their own. -/
def isClaim (name : String) : Bool :=
  name ≠ "" && name.toList.all isNameChar &&
    !(["id", "email", "collectionId", "collectionName"].contains name)

/-- A number literal that is read back as the number. -/
structure ReadsBack (text : List Char) (x : F64) : Prop where
  parse : F64.parse text = some x
  literal : ∃ digit digits, isAsciiDigit digit = true ∧ digits.all isNumberChar = true ∧
    (text = digit :: digits ∨ text = '-' :: digit :: digits)

/-! ### Printing -/

/-- A character inside double quotes. -/
def escapeChar (c : Char) : List Char := if c = '\\' ∨ c = '"' then ['\\', c] else [c]

/-- The property of a reference. -/
def AuthRef.property : AuthRef → String
  | .id => "id"
  | .email => "email"
  | .collectionId => "collectionId"
  | .collectionName => "collectionName"
  | .claim name => name

/-- A token as it is written. -/
def Token.chars (numeral : F64 → List Char) : Token → List Char
  | .path segments => (join "." segments).toList
  | .text value => '"' :: (value.toList.flatMap escapeChar ++ ['"'])
  | .number value => numeral value
  | .bool value => if value then "true".toList else "false".toList
  | .null => "null".toList
  | .now => "@now".toList
  | .auth reference => "@request.auth.".toList ++ (AuthRef.property reference).toList
  | .op o => o.asStr.toList
  | .and => "&&".toList
  | .or => "||".toList
  | .lparen => "(".toList
  | .rparen => ")".toList

/-- Tokens written with spaces between them. -/
def spaced (numeral : F64 → List Char) : List Token → List Char
  | [] => []
  | [t] => t.chars numeral
  | t :: ts => t.chars numeral ++ ' ' :: spaced numeral ts

def operandToken : Operand → Token
  | .text value => .text value
  | .number value => .number value
  | .bool value => .bool value
  | .null => .null
  | .now => .now
  | .auth reference => .auth reference

def sideToken : Side → Token
  | .path segments => .path segments
  | .value operand => operandToken operand

/-- A filter in full parentheses; `grouped` tells whether a comparison stands in parentheses too. -/
@[grind =]
def printTokens (grouped : Bool) : Expr → List Token
  | .and left right =>
    .lparen :: (printTokens grouped left ++ .and :: printTokens grouped right ++ [.rparen])
  | .or left right =>
    .lparen :: (printTokens grouped left ++ .or :: printTokens grouped right ++ [.rparen])
  | .compare left op right =>
    if grouped then [.lparen, sideToken left, .op op, sideToken right, .rparen]
    else [sideToken left, .op op, sideToken right]

/-- The text of a filter. -/
def print (numeral : F64 → List Char) (grouped : Bool) (expr : Expr) : String :=
  String.ofList (spaced numeral (printTokens grouped expr))

/-- How many parentheses are open at once in a list of tokens, of which `inside` are open before
it. -/
@[grind =]
def nesting : (inside : Nat) → List Token → Nat
  | inside, [] => inside
  | inside, .lparen :: rest => nesting (inside + 1) rest
  | inside, .rparen :: rest => max inside (nesting (inside - 1) rest)
  | inside, _ :: rest => nesting inside rest

/-! ### What can be printed -/

/-- A token that the tokenizer reads back. -/
def Legible (numeral : F64 → List Char) : Token → Prop
  | .path segments => isFieldPath segments = true
  | .number value => ReadsBack (numeral value) value
  | .auth (.claim name) => isClaim name = true
  | _ => True

/-- **A filter that can be printed**: the left sides are paths, references and `@now`, and the names
and numbers in it can be written. -/
def Printable (numeral : F64 → List Char) : Expr → Prop
  | .and left right => Printable numeral left ∧ Printable numeral right
  | .or left right => Printable numeral left ∧ Printable numeral right
  | .compare left op right => Leads (.compare left op right) ∧
    Legible numeral (sideToken left) ∧ Legible numeral (sideToken right)

/-! ### Reading runs of characters -/

/-- The characters behind a token: none, or a space. -/
def Stops (rest : List Char) : Prop := rest = [] ∨ ∃ more, rest = ' ' :: more

variable {rest : List Char}

theorem readRun_append {kind : Char → Bool} (hspace : kind ' ' = false) {word : List Char}
    (hword : word.all kind = true) (hrest : Stops rest) (position : Nat) :
    readRun kind position (word ++ rest) = (word, position + charsLen word, rest) := by
  have hstop : rest.takeWhile kind = [] ∧ rest.dropWhile kind = rest := by
    rcases hrest with rfl | ⟨more, rfl⟩ <;> simp [hspace]
  have hkind : ∀ c ∈ word, kind c = true := List.all_eq_true.mp hword
  have htake : (word ++ rest).takeWhile kind = word := by
    rw [List.takeWhile_append_of_pos hkind, hstop.1, List.append_nil]
  have hdrop : (word ++ rest).dropWhile kind = rest := by
    rw [List.dropWhile_append_of_pos hkind, hstop.2]
  rw [readRun, htake, hdrop]

theorem readRun_word {word : List Char} (hword : word.all isWordChar = true)
    (hrest : Stops rest) (position : Nat) :
    readRun isWordChar position (word ++ rest) = (word, position + charsLen word, rest) :=
  readRun_append (by decide) hword hrest position

theorem readString_escaped (start position : Nat) (out value rest : List Char) :
    ∃ after, readString start '"' position out (value.flatMap escapeChar ++ '"' :: rest) =
      .ok (String.ofList (out ++ value), after, rest) := by
  induction value generalizing position out with
  | nil =>
    refine ⟨position + '"'.utf8Size, ?_⟩
    unfold readString
    simp
  | cons c value ih =>
    by_cases hc : c = '\\' ∨ c = '"'
    · obtain ⟨after, hread⟩ := ih (position + 1 + c.utf8Size) (out ++ [c])
      have hescape : escapeValue c = some c := by
        rcases hc with rfl | rfl <;> decide
      refine ⟨after, ?_⟩
      simp only [List.flatMap_cons, escapeChar, if_pos hc, List.cons_append, List.nil_append]
      unfold readString
      simpa [hescape] using hread
    · obtain ⟨after, hread⟩ := ih (position + c.utf8Size) (out ++ [c])
      push Not at hc
      refine ⟨after, ?_⟩
      simp only [List.flatMap_cons, escapeChar, hc.1, hc.2, or_self, if_false, List.cons_append,
        List.nil_append]
      unfold readString
      simpa [hc.1, hc.2] using hread

/-! ### Reading names -/

theorem isWordChar_of_isNameChar {c : Char} (h : isNameChar c = true) : isWordChar c = true := by
  simp [isNameChar, isWordChar] at *
  tauto

theorem dot_notMem_of_all {cs : List Char} (h : cs.all isNameChar = true) : '.' ∉ cs := by
  intro hdot
  have := List.all_eq_true.mp h _ hdot
  revert this
  decide

theorem all_of_isIdentifier {s : String} (h : isIdentifier s = true) :
    s.toList.all isNameChar = true ∧ s.toList ≠ [] := by
  unfold isIdentifier at h
  split at h
  · cases h
  · rename_i first rest heq
    simp only [Bool.and_eq_true, Bool.or_eq_true, decide_eq_true_eq] at h
    refine ⟨?_, by simp [heq]⟩
    rw [heq, List.all_cons, Bool.and_eq_true]
    refine ⟨?_, h.2⟩
    simp only [isNameChar, isAsciiAlphanumeric, Bool.or_eq_true, decide_eq_true_eq]
    tauto

variable {segments : List String}

theorem isFieldPath_cons (h : isFieldPath segments = true) :
    segments ≠ [] ∧ ∀ s ∈ segments, isIdentifier s = true := by
  unfold isFieldPath at h
  split at h
  · cases h
  · simp_all
  · rename_i hne _
    exact ⟨hne, List.all_eq_true.mp h⟩

theorem checkSegment_of_isIdentifier {s : String} (h : isIdentifier s = true) (word : String)
    (position : Nat) : checkSegment word position s = .ok () := by
  unfold isIdentifier at h
  unfold checkSegment
  split at h
  · cases h
  · rename_i first rest heq
    simp only [Bool.and_eq_true] at h
    have hfind : rest.find? (fun c => !(isAsciiAlphanumeric c || c = '_')) = none := by
      rw [List.find?_eq_none]
      intro c hc
      have hname := List.all_eq_true.mp h.2 c hc
      rw [isNameChar] at hname
      simp only [hname, Bool.not_true, Bool.false_eq_true, not_false_iff]
    simp only [heq, h.1, hfind]
    rfl

theorem checkSegments_of_isIdentifier
    (h : ∀ s ∈ segments, isIdentifier s = true) (word : String) (position : Nat) :
    checkSegments word position segments = .ok () := by
  induction segments with
  | nil => rfl
  | cons s rest ih =>
    rw [checkSegments, checkSegment_of_isIdentifier (h s (by simp))]
    exact ih fun t ht => h t (List.mem_cons_of_mem _ ht)

/-! ### Reading tokens -/

theorem all_isWordChar_join
    (h : ∀ s ∈ segments, s.toList.all isNameChar = true) :
    (join "." segments).toList.all isWordChar = true := by
  have hword : ∀ s ∈ segments, s.toList.all isWordChar = true := fun s hs =>
    List.all_eq_true.mpr fun c hc => isWordChar_of_isNameChar (List.all_eq_true.mp (h s hs) c hc)
  clear h
  induction segments with
  | nil => rfl
  | cons s rest ih =>
    cases rest with
    | nil => exact hword s (by simp)
    | cons t rest =>
      have htail := ih fun u hu => hword u (List.mem_cons_of_mem _ hu)
      have hdot : ".".toList.all isWordChar = true := by decide
      rw [toList_join_cons_cons, List.all_append, List.all_append, hword s (by simp), hdot, htail]
      rfl

/-- A path is not read as a constant. -/
theorem join_notMem_constants (h : isFieldPath segments = true) :
    join "." segments ∉ ["true", "false", "null"] := by
  match segments, h with
  | [s], h =>
    simp only [isFieldPath, Bool.and_eq_true, Bool.not_eq_true', List.contains_eq_mem,
      decide_eq_false_iff_not] at h
    exact h.2
  | s :: t :: rest, _ =>
    have hdot : '.' ∈ (join "." (s :: t :: rest)).toList := by
      rw [toList_join_cons_cons]
      simp
    intro hmem
    have hall : ∀ w ∈ ["true", "false", "null"], '.' ∉ w.toList := by decide
    exact hall _ hmem hdot

theorem readWord_path (h : isFieldPath segments = true) (hrest : Stops rest) (position : Nat) :
    ∃ after, readWord position ((join "." segments).toList ++ rest) =
      .ok (.path segments, after, rest) := by
  obtain ⟨hne, hidentifier⟩ := isFieldPath_cons h
  have hnames : ∀ s ∈ segments, s.toList.all isNameChar = true := fun s hs =>
    (all_of_isIdentifier (hidentifier s hs)).1
  have hrun := readRun_word (all_isWordChar_join hnames) hrest position
  have hsplit : splitOn '.' (join "." segments) = segments :=
    splitOn_join rfl hne fun s hs => dot_notMem_of_all (hnames s hs)
  have hconstant := join_notMem_constants h
  simp only [List.mem_cons, List.not_mem_nil, or_false, not_or] at hconstant
  refine ⟨position + charsLen (join "." segments).toList, ?_⟩
  simp only [readWord, hrun, String.ofList_toList]
  split
  · rename_i hword
    exact absurd hword hconstant.1
  · rename_i hword
    exact absurd hword hconstant.2.1
  · rename_i hword
    exact absurd hword hconstant.2.2
  · rw [hsplit, checkSegments_of_isIdentifier hidentifier]
    rfl

/-- What is written behind `@request.auth.` is a name, and tells the reference. -/
theorem property_legible {reference : AuthRef}
    (h : ∀ name, reference = .claim name → isClaim name = true) :
    (AuthRef.property reference).toList.all isNameChar = true ∧
      AuthRef.property reference ≠ "" ∧ authRef (AuthRef.property reference) = reference := by
  cases reference with
  | claim name =>
    have hclaim := h name rfl
    simp only [isClaim, Bool.and_eq_true, decide_eq_true_eq, Bool.not_eq_true',
      List.contains_eq_mem, decide_eq_false_iff_not, List.mem_cons, List.not_mem_nil, or_false,
      not_or] at hclaim
    refine ⟨hclaim.1.2, hclaim.1.1, ?_⟩
    simp only [AuthRef.property, authRef]
    split <;> simp_all
  | _ => exact ⟨by decide, by decide, rfl⟩

theorem readAtReference_auth {reference : AuthRef}
    (h : ∀ name, reference = .claim name → isClaim name = true)
    (hrest : Stops rest) (start : Nat) :
    ∃ after, readAtReference start
        ("request.auth.".toList ++ (AuthRef.property reference).toList ++ rest) =
      .ok (.auth reference, after, rest) := by
  obtain ⟨hname, hne, hread⟩ := property_legible h
  let segments := ["request", "auth", AuthRef.property reference]
  have hword : "request.auth.".toList ++ (AuthRef.property reference).toList =
      (join "." segments).toList := by
    simp [segments, join]
  have hnames : ∀ s ∈ segments, s.toList.all isNameChar = true := by
    simp only [segments, List.mem_cons, List.not_mem_nil, or_false, forall_eq_or_imp, forall_eq]
    exact ⟨by decide, by decide, hname⟩
  have hrun := readRun_word (all_isWordChar_join hnames) hrest (start + 1)
  have hsplit : splitOn '.' (join "." segments) = segments :=
    splitOn_join rfl (by simp [segments]) fun s hs => dot_notMem_of_all (hnames s hs)
  refine ⟨start + 1 + charsLen (join "." segments).toList, ?_⟩
  rw [hword, readAtReference, hrun]
  simp only [String.ofList_toList, hsplit]
  simp [segments, hne, hread]

theorem readAtReference_now (hrest : Stops rest) (start : Nat) :
    ∃ after, readAtReference start ("now".toList ++ rest) = .ok (.now, after, rest) := by
  have hall : "now".toList.all isWordChar = true := by decide
  have hrun := readRun_word hall hrest (start + 1)
  have hsplit : splitOn '.' "now" = ["now"] := by decide
  refine ⟨start + 1 + charsLen "now".toList, ?_⟩
  rw [readAtReference, hrun]
  simp only [String.ofList_toList, hsplit]
  simp

/-- A constant is read back. -/
theorem readWord_constant {word : String} {t : Token}
    (h : (word, t) ∈ [("true", Token.bool true), ("false", .bool false), ("null", .null)]) (hrest : Stops rest) (position : Nat) :
    ∃ after, readWord position (word.toList ++ rest) = .ok (t, after, rest) := by
  have hall : word.toList.all isWordChar = true := by
    simp only [List.mem_cons, Prod.mk.injEq, List.not_mem_nil, or_false] at h
    rcases h with ⟨rfl, -⟩ | ⟨rfl, -⟩ | ⟨rfl, -⟩ <;> decide
  have hrun := readRun_word hall hrest position
  refine ⟨position + charsLen word.toList, ?_⟩
  simp only [readWord, hrun, String.ofList_toList]
  simp only [List.mem_cons, Prod.mk.injEq, List.not_mem_nil, or_false] at h
  rcases h with ⟨rfl, rfl⟩ | ⟨rfl, rfl⟩ | ⟨rfl, rfl⟩ <;> rfl

/-- A digit starts none of the other tokens. -/
theorem ne_of_isAsciiDigit {c : Char} (h : isAsciiDigit c = true) :
    c ∉ ['(', ')', '&', '|', '"', '\'', '@', '~', '=', '!', '>', '<', '?', '-'] := by
  intro hmem
  have hall : (['(', ')', '&', '|', '"', '\'', '@', '~', '=', '!', '>', '<', '?', '-'].all
      fun x => isAsciiDigit x = false) = true := by decide
  rw [of_decide_eq_true (List.all_eq_true.mp hall c hmem)] at h
  cases h

theorem readToken_number {text : List Char} {x : F64} (h : ReadsBack text x)
    (hrest : Stops rest) (position : Nat) :
    ∃ c cs, text = c :: cs ∧ isWhitespace c = false ∧
      ∃ after, readToken position c (cs ++ rest) = .ok (.number x, after, rest) := by
  obtain ⟨hparse, digit, digits, hdigit, hdigits, htext⟩ := h
  have hall : (digit :: digits).all isNumberChar = true := by
    simp [isNumberChar, hdigit] at hdigits ⊢
    exact hdigits
  have hrun : ∀ position, readRun isNumberChar position (digit :: (digits ++ rest)) =
      (digit :: digits, position + charsLen (digit :: digits), rest) :=
    readRun_append (by decide) hall hrest
  rcases htext with rfl | rfl
  · refine ⟨digit, digits, rfl, isWhitespace_of_isAsciiDigit hdigit,
      position + charsLen (digit :: digits), ?_⟩
    have hne := ne_of_isAsciiDigit hdigit
    simp only [List.mem_cons, List.not_mem_nil, or_false, not_or] at hne
    simp [readToken, hne, hdigit, hrun, parseNumber, hparse, okOr, bind, Except.bind]
  · refine ⟨'-', digit :: digits, rfl, by decide, position + 1 + charsLen (digit :: digits), ?_⟩
    simp [readToken, hdigit, hrun, parseNumber, hparse, okOr, bind, Except.bind]

/-- A letter starts a word. -/
theorem readToken_word {c : Char} (h : isAsciiAlphabetic c = true ∨ c = '_') (cs : List Char)
    (position : Nat) : readToken position c cs = readWord position (c :: cs) := by
  have hdigit : isAsciiDigit c = false := by
    rcases h with h | rfl
    · have hrange : (97 ≤ c.toNat ∧ c.toNat ≤ 122) ∨ (65 ≤ c.toNat ∧ c.toNat ≤ 90) := by
        simpa [isAsciiAlphabetic, isAsciiLower, isAsciiUpper, Char.le_def,
          UInt32.le_iff_toNat_le] using h
      have hout : ¬ (48 ≤ c.toNat ∧ c.toNat ≤ 57) := by omega
      simpa [isAsciiDigit, Char.le_def, UInt32.le_iff_toNat_le] using hout
    · decide
  have hne : c ∉ ['(', ')', '&', '|', '"', '\'', '@', '~', '=', '!', '>', '<', '?', '-'] := by
    intro hmem
    have hall : (['(', ')', '&', '|', '"', '\'', '@', '~', '=', '!', '>', '<', '?', '-'].all
        fun x => ¬ (isAsciiAlphabetic x = true ∨ x = '_')) = true := by decide
    exact of_decide_eq_true (List.all_eq_true.mp hall c hmem) h
  simp only [List.mem_cons, List.not_mem_nil, or_false, not_or] at hne
  simp [readToken, hne, hdigit, h]

/-- A path starts with a letter. -/
theorem join_eq_cons (h : isFieldPath segments = true) :
    ∃ c cs, (join "." segments).toList = c :: cs ∧ (isAsciiAlphabetic c = true ∨ c = '_') := by
  obtain ⟨hne, hidentifier⟩ := isFieldPath_cons h
  obtain ⟨s, rest, rfl⟩ := List.exists_cons_of_ne_nil hne
  have hfirst := hidentifier s List.mem_cons_self
  unfold isIdentifier at hfirst
  split at hfirst
  · cases hfirst
  · rename_i first word heq
    simp only [Bool.and_eq_true, Bool.or_eq_true, decide_eq_true_eq] at hfirst
    cases rest with
    | nil => exact ⟨first, word, heq, hfirst.1⟩
    | cons t rest => exact ⟨first, _, by rw [toList_join_cons_cons, heq]; rfl, hfirst.1⟩

theorem isWhitespace_of_letter {c : Char} (h : isAsciiAlphabetic c = true ∨ c = '_') :
    isWhitespace c = false := by
  rcases h with h | rfl
  · exact isWhitespace_of_isAsciiAlphanumeric (by simp [isAsciiAlphanumeric, h])
  · decide

/-- An operator is read to its end: neither a space nor the end prolongs it. -/
theorem readToken_op (o : CompareOp) (hrest : Stops rest) (position : Nat) :
    ∃ c cs, o.asStr.toList = c :: cs ∧ isWhitespace c = false ∧
      ∃ after, readToken position c (cs ++ rest) = .ok (.op o, after, rest) := by
  have hspell : ∀ c cs, o.asStr = String.ofList (c :: cs) → isWhitespace c = false →
      (∃ after, readToken position c (cs ++ rest) = .ok (.op o, after, rest)) →
      ∃ c cs, o.asStr.toList = c :: cs ∧ isWhitespace c = false ∧
        ∃ after, readToken position c (cs ++ rest) = .ok (.op o, after, rest) := by
    intro c cs hasStr hc hread
    exact ⟨c, cs, by rw [hasStr, String.toList_ofList], hc, hread⟩
  rcases hrest with rfl | ⟨more, rfl⟩
  all_goals
    cases o with
    | eq => exact hspell '=' [] rfl rfl (by simp [readToken, readOperator])
    | notEq => exact hspell '!' ['='] rfl rfl (by simp [readToken, readOperator])
    | gt => exact hspell '>' [] rfl rfl (by simp [readToken, readOperator])
    | gte => exact hspell '>' ['='] rfl rfl (by simp [readToken, readOperator])
    | lt => exact hspell '<' [] rfl rfl (by simp [readToken, readOperator])
    | lte => exact hspell '<' ['='] rfl rfl (by simp [readToken, readOperator])
    | like => exact hspell '~' [] rfl rfl (by simp [readToken, readOperator])
    | notLike => exact hspell '!' ['~'] rfl rfl (by simp [readToken, readOperator])
    | any => exact hspell '?' ['='] rfl rfl (by simp [readToken, readOperator])
    | notAny => exact hspell '?' ['!', '='] rfl rfl (by simp [readToken, readOperator])

variable {numeral : F64 → List Char}

/-- A legible token is read back from its characters, whatever space or end stands behind them. -/
theorem readToken_chars {t : Token} (h : Legible numeral t) (hrest : Stops rest) (position : Nat) :
    ∃ c cs, t.chars numeral = c :: cs ∧ isWhitespace c = false ∧
      ∃ after, readToken position c (cs ++ rest) = .ok (t, after, rest) := by
  have hconstant : ∀ (word : String) {t : Token} {c : Char} {cs : List Char},
      (word, t) ∈ [("true", Token.bool true), ("false", .bool false), ("null", .null)] →
      word.toList = c :: cs → (isAsciiAlphabetic c = true ∨ c = '_') →
      ∃ after, readToken position c (cs ++ rest) = .ok (t, after, rest) := by
    intro word t c cs hword hcs hc
    obtain ⟨after, hread⟩ := readWord_constant hword hrest position
    rw [hcs] at hread
    exact ⟨after, (readToken_word hc _ _).trans hread⟩
  cases t with
  | path segments =>
    obtain ⟨c, cs, hcs, hc⟩ := join_eq_cons h
    obtain ⟨after, hread⟩ := readWord_path h hrest position
    rw [hcs] at hread
    exact ⟨c, cs, hcs, isWhitespace_of_letter hc, after, (readToken_word hc _ _).trans hread⟩
  | text value =>
    obtain ⟨after, hread⟩ := readString_escaped position (position + 1) [] value.toList rest
    have hchars : (Token.text value).chars numeral =
        '"' :: (value.toList.flatMap escapeChar ++ ['"']) := rfl
    refine ⟨_, _, hchars, by decide, after, ?_⟩
    simp [readToken, hread, bind, Except.bind]
  | number value => exact readToken_number h hrest position
  | bool value =>
    cases value with
    | true => exact ⟨'t', ['r', 'u', 'e'], rfl, by decide,
        hconstant "true" (by simp) (by simp) (by decide)⟩
    | false => exact ⟨'f', ['a', 'l', 's', 'e'], rfl, by decide,
        hconstant "false" (by simp) (by simp) (by decide)⟩
  | null => exact ⟨'n', ['u', 'l', 'l'], rfl, by decide,
      hconstant "null" (by simp) (by simp) (by decide)⟩
  | now =>
    obtain ⟨after, hread⟩ := readAtReference_now hrest position
    refine ⟨'@', "now".toList, rfl, by decide, after, ?_⟩
    simpa [readToken] using hread
  | auth reference =>
    have hclaim : ∀ name, reference = .claim name → isClaim name = true := by
      rintro name rfl
      exact h
    obtain ⟨after, hread⟩ := readAtReference_auth hclaim hrest position
    refine ⟨'@', "request.auth.".toList ++ (AuthRef.property reference).toList,
      rfl, by decide, after, ?_⟩
    simpa [readToken] using hread
  | op o => exact readToken_op o hrest position
  | and =>
    exact ⟨'&', ['&'], rfl, by decide, by simp [readToken, readPunctuation]⟩
  | or =>
    exact ⟨'|', ['|'], rfl, by decide, by simp [readToken, readPunctuation]⟩
  | lparen => exact ⟨'(', [], rfl, by decide, by simp [readToken, readPunctuation]⟩
  | rparen => exact ⟨')', [], rfl, by decide, by simp [readToken, readPunctuation]⟩

/-! ### Reading the whole text -/

/-- The space before the tokens that are left. -/
def gap (tokens : List Token) : List Char := if tokens = [] then [] else [' ']

theorem spaced_cons (numeral : F64 → List Char) (t : Token) (ts : List Token) :
    spaced numeral (t :: ts) = t.chars numeral ++ (gap ts ++ spaced numeral ts) := by
  cases ts with
  | nil => simp [spaced, gap]
  | cons u us => rfl

theorem stops_gap (numeral : F64 → List Char) (ts : List Token) :
    Stops (gap ts ++ spaced numeral ts) := by
  cases ts with
  | nil => exact .inl rfl
  | cons u us => exact .inr ⟨_, rfl⟩

theorem readRun_gap {space : List Char} (hspace : space = [] ∨ space = [' ']) {c : Char}
    (hc : isWhitespace c = false) (cs : List Char) (position : Nat) :
    ∃ after, readRun isWhitespace position (space ++ c :: cs) = (space, after, c :: cs) := by
  have hblank : isWhitespace ' ' = true := by decide
  rcases hspace with rfl | rfl
  · exact ⟨position + charsLen [], by simp [readRun, hc]⟩
  · exact ⟨position + charsLen [' '], by simp [readRun, hc, hblank]⟩

/-- **The tokenizer reads tokens written with spaces between them.** -/
theorem tokenize_spaced {tokens : List Token}
    (h : ∀ t ∈ tokens, Legible numeral t) {space : List Char} (hspace : space = [] ∨ space = [' '])
    {fuel : Nat} (hfuel : tokens.length < fuel) (position : Nat) :
    tokenize fuel position (space ++ spaced numeral tokens) = .ok tokens := by
  induction tokens generalizing space fuel position with
  | nil =>
    obtain ⟨fuel, rfl⟩ : ∃ f, fuel = f + 1 := ⟨fuel - 1, by omega⟩
    have hblank : isWhitespace ' ' = true := by decide
    rcases hspace with rfl | rfl <;> simp [tokenize, readRun, spaced, hblank]
  | cons t ts ih =>
    obtain ⟨fuel, rfl⟩ : ∃ f, fuel = f + 1 := ⟨fuel - 1, by simp at hfuel; omega⟩
    obtain ⟨c, cs, hchars, hc, hread⟩ :=
      readToken_chars (h t List.mem_cons_self) (stops_gap numeral ts)
        (readRun isWhitespace position (space ++ spaced numeral (t :: ts))).2.1
    obtain ⟨after, hread⟩ := hread
    have hwhole : space ++ spaced numeral (t :: ts) =
        space ++ c :: (cs ++ (gap ts ++ spaced numeral ts)) := by
      rw [spaced_cons, hchars, List.cons_append]
    obtain ⟨start, hgap⟩ := readRun_gap hspace hc (cs ++ (gap ts ++ spaced numeral ts)) position
    have hnext : gap ts = [] ∨ gap ts = [' '] := by
      unfold gap
      split <;> simp
    have htail := ih (fun u hu => h u (List.mem_cons_of_mem _ hu)) hnext
      (Nat.lt_of_succ_lt_succ hfuel) after
    rw [hwhole, hgap] at hread
    rw [hwhole, tokenize, hgap]
    simp only [hread, bind, Except.bind, htail]

/-! ### The tokens of a filter -/

/-- How many parentheses stand around each other in a printed filter. -/
@[grind =]
def height (grouped : Bool) : Expr → Nat
  | .and left right | .or left right => max (height grouped left) (height grouped right) + 1
  | .compare _ _ _ => if grouped then 1 else 0

theorem le_nesting (inside : Nat) (tokens : List Token) : inside ≤ nesting inside tokens := by
  induction tokens generalizing inside with
  | nil => exact Nat.le_refl _
  | cons t ts ih =>
    cases t with
    | lparen => exact Nat.le_of_succ_le (ih (inside + 1))
    | rparen => exact Nat.le_max_left _ _
    | _ => exact ih inside

theorem nesting_operand (inside : Nat) (side : Side) (rest : List Token) :
    nesting inside (sideToken side :: rest) = nesting inside rest := by
  cases side with
  | path segments => rfl
  | value operand => cases operand <;> rfl

theorem nesting_printTokens (grouped : Bool) (expr : Expr) (inside : Nat) (rest : List Token) :
    nesting inside (printTokens grouped expr ++ rest) =
      max (inside + height grouped expr) (nesting inside rest) := by
  induction expr generalizing inside rest with
  | and left right ihl ihr =>
    have hle := le_nesting inside rest
    simp only [printTokens, List.cons_append, List.append_assoc, List.nil_append, nesting, ihl, ihr,
      height, Nat.add_sub_cancel]
    omega
  | or left right ihl ihr =>
    have hle := le_nesting inside rest
    simp only [printTokens, List.cons_append, List.append_assoc, List.nil_append, nesting, ihl, ihr,
      height, Nat.add_sub_cancel]
    omega
  | compare left op right =>
    have hle := le_nesting inside rest
    cases grouped
    · simp only [printTokens, Bool.false_eq_true, if_false, List.cons_append, List.nil_append,
        nesting_operand, nesting, height]
      omega
    · simp only [printTokens, if_true, List.cons_append, List.nil_append, nesting_operand, nesting,
        height, Nat.add_sub_cancel]

theorem derives_and_of_cmp {depth : Nat} {tokens : List Token} {expr : Expr}
    (h : Derives depth .cmp tokens expr) : Derives depth .and tokens expr := by
  have hand := @Derives.and depth (tokens, expr) [] (by simpa using h)
  simpa using hand

theorem derives_or_of_and {depth : Nat} {tokens : List Token} {expr : Expr}
    (h : Derives depth .and tokens expr) : Derives depth .or tokens expr := by
  have hor := @Derives.or depth (tokens, expr) [] (by simpa using h)
  simpa using hor

theorem derives_or_of_cmp {depth : Nat} {tokens : List Token} {expr : Expr}
    (h : Derives depth .cmp tokens expr) : Derives depth .or tokens expr :=
  derives_or_of_and (derives_and_of_cmp h)

theorem derives_cmp_join {depth : Nat} {left right : List Token} {a b : Expr}
    (hl : Derives depth .cmp left a) (hr : Derives depth .cmp right b) :
    Derives depth .or (left ++ .and :: right) (.and a b) ∧
      Derives depth .or (left ++ .or :: right) (.or a b) := by
  constructor
  · have hand := @Derives.and depth (left, a) [(right, b)] (by simpa using ⟨hl, hr⟩)
    exact derives_or_of_and (by simpa using hand)
  · have hor := @Derives.or depth (left, a) [(right, b)]
      (by simpa using ⟨derives_and_of_cmp hl, derives_and_of_cmp hr⟩)
    simpa using hor

theorem anySide_sideToken (side : Side) : AnySide (sideToken side) side := by
  cases side with
  | path segments => exact .path segments
  | value operand => cases operand <;> constructor

theorem leadingSide_sideToken {left : Side} {op : CompareOp} {right : Side}
    (h : Leads (.compare left op right)) : LeadingSide (sideToken left) left := by
  cases left with
  | path segments => exact .path segments
  | value operand =>
    cases operand with
    | now => exact .now
    | auth reference => exact .auth reference
    | _ => exact h.elim

/-- **The tokens of a filter derive it**, as one comparison in parentheses. -/
theorem derives_printTokens {expr : Expr}
    (h : Printable numeral expr) {grouped : Bool} {depth : Nat}
    (hheight : height grouped expr ≤ depth) :
    Derives depth .cmp (printTokens grouped expr) expr := by
  induction expr generalizing depth with
  | and left right ihl ihr =>
    obtain ⟨depth, rfl⟩ : ∃ d, depth = d + 1 := ⟨depth - 1, by rw [height] at hheight; omega⟩
    rw [height] at hheight
    have hl : Derives depth .cmp _ left := ihl h.1 (by omega)
    have hr : Derives depth .cmp _ right := ihr h.2 (by omega)
    exact .parens (derives_cmp_join hl hr).1
  | or left right ihl ihr =>
    obtain ⟨depth, rfl⟩ : ∃ d, depth = d + 1 := ⟨depth - 1, by rw [height] at hheight; omega⟩
    rw [height] at hheight
    have hl : Derives depth .cmp _ left := ihl h.1 (by omega)
    have hr : Derives depth .cmp _ right := ihr h.2 (by omega)
    exact .parens (derives_cmp_join hl hr).2
  | compare left op right =>
    have hcompare : ∀ depth, Derives depth .cmp [sideToken left, .op op, sideToken right]
        (.compare left op right) := fun depth =>
      .compare op (leadingSide_sideToken h.1) (anySide_sideToken right)
    cases grouped with
    | false => exact hcompare depth
    | true =>
      obtain ⟨depth, rfl⟩ : ∃ d, depth = d + 1 := ⟨depth - 1, by simp [height] at hheight; omega⟩
      exact .parens (derives_or_of_cmp (hcompare depth))

theorem legible_printTokens {expr : Expr} (h : Printable numeral expr)
    (grouped : Bool) : ∀ t ∈ printTokens grouped expr, Legible numeral t := by
  induction expr with
  | and left right ihl ihr =>
    have hl := ihl h.1
    have hr := ihr h.2
    intro t ht
    simp only [printTokens, List.mem_cons, List.mem_append, List.not_mem_nil, or_false] at ht
    rcases ht with rfl | (ht | rfl | ht) | rfl
    · trivial
    · exact hl t ht
    · trivial
    · exact hr t ht
    · trivial
  | or left right ihl ihr =>
    have hl := ihl h.1
    have hr := ihr h.2
    intro t ht
    simp only [printTokens, List.mem_cons, List.mem_append, List.not_mem_nil, or_false] at ht
    rcases ht with rfl | (ht | rfl | ht) | rfl
    · trivial
    · exact hl t ht
    · trivial
    · exact hr t ht
    · trivial
  | compare left op right =>
    cases grouped <;> simp only [printTokens, Bool.false_eq_true, if_false, if_true,
      List.forall_mem_cons]
    · exact ⟨h.2.1, trivial, h.2.2, by simp⟩
    · exact ⟨trivial, h.2.1, trivial, h.2.2, trivial, by simp⟩

theorem trim_ne_empty {s : String} {c : Char} {cs : List Char} (hs : s.toList = c :: cs)
    (hc : isWhitespace c = false) : trim s ≠ "" := by
  intro htrim
  have hnil := congrArg String.toList htrim
  simp only [trim, hs, List.dropWhile_cons, hc, String.toList_ofList, String.toList_empty] at hnil
  have hall : ∀ x, x ∈ cs ∨ x = c → isWhitespace x = true := by simpa using hnil
  rw [hall c (.inr rfl)] at hc
  cases hc

/-- **Printing, then parsing, is the identity.** -/
theorem parse_print {numeral : F64 → List Char} {expr : Expr} (h : Printable numeral expr)
    (grouped : Bool) (htokens : (printTokens grouped expr).length ≤ maxTokens)
    (hnesting : nesting 0 (printTokens grouped expr) ≤ maxDepth - 1) :
    parse (print numeral grouped expr) = .ok expr := by
  have hheight : height grouped expr ≤ maxDepth - 1 := by
    have heq := nesting_printTokens grouped expr 0 []
    rw [List.append_nil] at heq
    simp only [nesting] at heq
    omega
  have hlegible := legible_printTokens h grouped
  have hderives : Derives (maxDepth - 1) .or (printTokens grouped expr) expr :=
    derives_or_of_cmp (derives_printTokens h hheight)
  have hparser : parseTokens (printTokens grouped expr) = .ok expr :=
    parseTokens_eq_ok_iff.mpr
      (((parseOr_exact (maxDepth - 1)).whole_iff (by simp [EndsOr])).mpr hderives)
  have htext : (print numeral grouped expr).toList = spaced numeral (printTokens grouped expr) :=
    String.toList_ofList
  have hread : tokenize ((print numeral grouped expr).toList.length + 1) 0
      (print numeral grouped expr).toList = .ok (printTokens grouped expr) := by
    have hread := tokenize_spaced hlegible (.inl rfl)
      (show _ < (spaced numeral (printTokens grouped expr)).length + 1 +
        (printTokens grouped expr).length by omega) 0
    rw [List.nil_append, tokenize_add (Nat.lt_succ_self _)] at hread
    rw [htext]
    exact hread
  have htrim : trim (print numeral grouped expr) ≠ "" := by
    cases hprinted : printTokens grouped expr with
    | nil => cases expr <;> cases grouped <;> cases hprinted
    | cons t ts =>
      obtain ⟨c, cs, hchars, hc, -⟩ := readToken_chars
        (hlegible t (by simp [hprinted])) (stops_gap numeral ts) 0
      rw [hprinted, spaced_cons, hchars, List.cons_append] at htext
      exact trim_ne_empty htext hc
  rw [parse, parseOptional_eq_ok_some_iff.mpr ⟨htrim, _, hread, htokens, hparser⟩]
  rfl

/-- A filter with every kind of side, and a number that is printed as the server prints it. -/
theorem parse_print_note :
    let numeral := fun x : F64 => x.display.toList
    let expr := Expr.or
      (.and (.compare (.path ["author", "name"]) .like (.value (.text "say \"hi\" \\ é")))
        (.compare (.value (.auth (.claim "role"))) .notEq (.value .null)))
      (.compare (.value .now) .gte (.value (.number (.ofRatio true 3 2))))
    parse (print numeral false expr) = .ok expr := by
  intro numeral expr
  have hnumber : ReadsBack (numeral (.ofRatio true 3 2)) (.ofRatio true 3 2) :=
    ⟨by decide, '1', ['.', '5'], by decide, by decide, .inr (by decide)⟩
  have hpath : isFieldPath ["author", "name"] = true := by decide
  have hclaim : isClaim "role" = true := by decide
  have hprintable : Printable numeral expr :=
    ⟨⟨⟨trivial, hpath, trivial⟩, trivial, hclaim, trivial⟩, trivial, trivial, hnumber⟩
  exact parse_print hprintable false (by decide) (by decide)

end LazyPock.Filter
