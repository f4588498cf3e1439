import LazyPock.Core.Text

/-!
# The lexical rules of SQL

A tokenizer for SQL text with `standard_conforming_strings` on, as a machine that reads one
character at a time. It covers identifiers and keywords, quoted identifiers, string constants,
numbers, parameters `$n`, operators, the punctuation characters and both kinds of comment. What it
does not cover (constants with a prefix such as `E'…'`, dollar quoting, a string constant continued
on another line) it refuses, so a text it accepts is read the same way by the server.

A text `a` *lexes to* `ts` (`Sql.Lexes`) when the machine reads `ts` from it and stops
between tokens as soon as a delimiter follows. Texts that lex can be put together: one after another
when the second starts with a delimiter (`Lexes.append`), and behind an opening that leaves the
machine between tokens (`Lexes.after`).

## Main definitions

* `Sql.Token`, `Sql.lex`.
* `Sql.Lexes`, `Sql.Delim`.

## Main results

* `Sql.Lexes.append`, `Sql.Lexes.after`: composing texts.
* `Sql.Lexes.lex_eq`: the tokens of a whole text.
* `Sql.lexes_str`, `Sql.lexes_quoted`: a string constant or a quoted identifier is
  one token, whatever it holds.
-/

namespace LazyPock.Sql

/-- A token of SQL. -/
inductive Token where
  /-- An identifier or a keyword. -/
  | word (text : String)
  /-- A quoted identifier, by its name. -/
  | quoted (name : String)
  /-- A string constant, by its value. -/
  | str (value : String)
  /-- A numeric constant. -/
  | num (text : String)
  /-- A parameter `$n`. -/
  | param (index : Nat)
  /-- Punctuation or an operator. -/
  | sym (text : String)
deriving DecidableEq, Repr

/-- The parameter a token is, if it is one. -/
@[grind =]
def Token.paramIndex? : Token → Option Nat
  | .param n => some n
  | _ => none

section ParamIndex

@[simp] theorem Token.paramIndex_word (t : String) : (word t).paramIndex? = none := rfl

@[simp] theorem Token.paramIndex_quoted (t : String) : (quoted t).paramIndex? = none := rfl

@[simp] theorem Token.paramIndex_str (t : String) : (str t).paramIndex? = none := rfl

@[simp] theorem Token.paramIndex_num (t : String) : (num t).paramIndex? = none := rfl

@[simp] theorem Token.paramIndex_sym (t : String) : (sym t).paramIndex? = none := rfl

@[simp] theorem Token.paramIndex_param (n : Nat) : (param n).paramIndex? = some n := rfl

end ParamIndex

/-- The parameters of a token list, left to right. -/
def params (ts : List Token) : List Nat := ts.filterMap Token.paramIndex?

@[simp] theorem params_nil : params [] = [] := rfl

@[simp] theorem params_append (ts us : List Token) : params (ts ++ us) = params ts ++ params us :=
  List.filterMap_append ..

@[simp] theorem params_cons (t : Token) (ts : List Token) :
    params (t :: ts) = (t.paramIndex?).toList ++ params ts := by
  cases h : t.paramIndex? <;> simp [params, h]

/-! ### The machine -/

/-- Where the machine stands. -/
inductive LexState where
  /-- Between tokens. -/
  | start
  /-- Between tokens, only blanks after a string constant. -/
  | gap
  /-- As `gap`, with a line break among the blanks: a quote here would continue the constant. -/
  | gapLine
  | word (acc : List Char)
  | quoted (acc : List Char)
  /-- After a double quote inside a quoted identifier: its end, or the first of two. -/
  | quotedEnd (acc : List Char)
  | str (acc : List Char)
  | strEnd (acc : List Char)
  | num (acc : List Char)
  | param (acc : List Char)
  | op (acc : List Char)
  | dot
  | colon
  | lineComment
  | blockComment (depth : Nat)
  | blockStar (depth : Nat)
  | blockSlash (depth : Nat)
  | fail
deriving DecidableEq, Repr

def isBlank (c : Char) : Bool :=
  c = ' ' || c = '\t' || c = '\n' || c = '\r' || c.toNat = 11 || c.toNat = 12

def isLineBreak (c : Char) : Bool := c = '\n' || c = '\r'

def isIdentStart (c : Char) : Bool := Text.isAsciiAlphabetic c || c = '_' || 128 ≤ c.toNat

def isIdentPart (c : Char) : Bool := isIdentStart c || Text.isAsciiDigit c || c = '$'

def isOpChar (c : Char) : Bool := c ∈ "+-*/<>=~!@#%^&|`?".toList

def isPunct (c : Char) : Bool := c ∈ "(),;[]".toList

/-- The tokens of a run of operator characters: a multi-character operator does not end in `+` or
`-` unless it holds one of the special characters. -/
def opTokens (acc : List Char) : List Token :=
  let core := (acc.reverse.dropWhile fun c => c = '+' || c = '-').reverse
  if acc.any (fun c => c ∈ "~!@#%^&|`?".toList) || core = acc then [.sym (String.ofList acc)]
  else (if core = [] then [] else [.sym (String.ofList core)]) ++
    (acc.drop core.length).map fun c => .sym (String.ofList [c])

/-- Read one character between tokens. -/
def fresh (c : Char) : List Token × LexState :=
  if isBlank c then ([], .start)
  else if isIdentStart c then ([], .word [c])
  else if Text.isAsciiDigit c then ([], .num [c])
  else if c = '"' then ([], .quoted [])
  else if c = '\'' then ([], .str [])
  else if c = '$' then ([], .param [])
  else if c = ':' then ([], .colon)
  else if c = '.' then ([], .dot)
  else if isPunct c then ([.sym (String.ofList [c])], .start)
  else if isOpChar c then ([], .op [c])
  else ([], .fail)

/-- The machine leaves the tokens `ts` behind and reads `c` between tokens. -/
def emit (ts : List Token) (c : Char) : List Token × LexState :=
  let (out, st) := fresh c
  (ts ++ out, st)

/-- Read one character. -/
@[grind =]
def step : LexState → Char → List Token × LexState
  | .start, c => fresh c
  | .gap, c => if isLineBreak c then ([], .gapLine) else if isBlank c then ([], .gap) else fresh c
  | .gapLine, c =>
    if isBlank c then ([], .gapLine) else if c = '\'' then ([], .fail) else fresh c
  | .word acc, c =>
    if isIdentPart c then ([], .word (acc ++ [c]))
    else if c = '\'' || (c = '&' && (acc = ['u'] || acc = ['U'])) then ([], .fail)
    else emit [.word (String.ofList acc)] c
  | .quoted acc, c => if c = '"' then ([], .quotedEnd acc) else ([], .quoted (acc ++ [c]))
  | .quotedEnd acc, c =>
    if c = '"' then ([], .quoted (acc ++ [c])) else emit [.quoted (String.ofList acc)] c
  | .str acc, c => if c = '\'' then ([], .strEnd acc) else ([], .str (acc ++ [c]))
  | .strEnd acc, c =>
    if c = '\'' then ([], .str (acc ++ [c]))
    else if isLineBreak c then ([.str (String.ofList acc)], .gapLine)
    else if isBlank c then ([.str (String.ofList acc)], .gap)
    else emit [.str (String.ofList acc)] c
  | .num acc, c =>
    if Text.isAsciiDigit c || c = '.' then ([], .num (acc ++ [c]))
    else if isIdentStart c then ([], .fail)
    else emit [.num (String.ofList acc)] c
  | .param acc, c =>
    if Text.isAsciiDigit c then ([], .param (acc ++ [c]))
    else if acc = [] || isIdentStart c then ([], .fail)
    else emit [.param (Nat.ofDigitChars 10 acc 0)] c
  | .op acc, c =>
    if c = '-' && acc.getLast? = some '-' then
      (if acc = ['-'] then [] else opTokens acc.dropLast, .lineComment)
    else if c = '*' && acc.getLast? = some '/' then
      (if acc = ['/'] then [] else opTokens acc.dropLast, .blockComment 0)
    else if isOpChar c then ([], .op (acc ++ [c]))
    else emit (opTokens acc) c
  | .dot, c => if Text.isAsciiDigit c then ([], .num ['.', c]) else emit [.sym "."] c
  | .colon, c => if c = ':' then ([.sym "::"], .start) else emit [.sym ":"] c
  | .lineComment, c => if isLineBreak c then ([], .start) else ([], .lineComment)
  | .blockComment d, c =>
    if c = '*' then ([], .blockStar d)
    else if c = '/' then ([], .blockSlash d) else ([], .blockComment d)
  | .blockStar d, c =>
    if c = '/' then ([], if d = 0 then .start else .blockComment (d - 1))
    else if c = '*' then ([], .blockStar d) else ([], .blockComment d)
  | .blockSlash d, c =>
    if c = '*' then ([], .blockComment (d + 1))
    else if c = '/' then ([], .blockSlash d) else ([], .blockComment d)
  | .fail, _ => ([], .fail)

/-- Read a text. -/
@[grind =]
def run : LexState → List Char → List Token × LexState
  | st, [] => ([], st)
  | st, c :: cs =>
    let (out, st') := step st c
    let (rest, last) := run st' cs
    (out ++ rest, last)

/-- The token still open where a text ends; nothing when the text stops inside one. -/
@[grind =]
def flush : LexState → Option (List Token)
  | .start | .gap | .gapLine | .lineComment => some []
  | .word acc => some [.word (String.ofList acc)]
  | .quotedEnd acc => some [.quoted (String.ofList acc)]
  | .strEnd acc => some [.str (String.ofList acc)]
  | .num acc => some [.num (String.ofList acc)]
  | .param acc => if acc = [] then none else some [.param (Nat.ofDigitChars 10 acc 0)]
  | .op acc => some (opTokens acc)
  | .dot => some [.sym "."]
  | .colon => some [.sym ":"]
  | .quoted _ | .str _ | .blockComment _ | .blockStar _ | .blockSlash _ | .fail => none

/-- The tokens of a text. -/
def lex (cs : List Char) : Option (List Token) :=
  let (out, st) := run .start cs
  (flush st).map (out ++ ·)

theorem run_append (st : LexState) (a b : List Char) :
    run st (a ++ b) =
      ((run st a).1 ++ (run (run st a).2 b).1, (run (run st a).2 b).2) := by
  induction a generalizing st with
  | nil => simp [run]
  | cons c cs ih => simp [run, ih, List.append_assoc]

/-! ### Texts that lex -/

/-- The machine ends the current token as soon as a delimiter follows. -/
@[grind =]
def LexState.Closable : LexState → Prop
  | .start | .gap | .word _ | .quotedEnd _ | .strEnd _ | .num _ | .op _ => True
  | .param acc => acc ≠ []
  | _ => False

instance : DecidablePred LexState.Closable
  | .start | .gap | .word _ | .quotedEnd _ | .strEnd _ | .num _ | .op _ => isTrue trivial
  | .param acc => inferInstanceAs (Decidable (acc ≠ []))
  | .gapLine | .quoted _ | .str _ | .dot | .colon | .lineComment | .blockComment _ | .blockStar _
  | .blockSlash _ | .fail => isFalse id

/-- A text that ends the token before it: empty, or starting with punctuation, or starting with a
single blank. -/
@[grind =]
def Delim : List Char → Prop
  | [] => True
  | [c] => c ∈ " (),;:[".toList
  | c :: d :: _ => c ∈ "(),;:[".toList ∨ (c = ' ' ∧ isBlank d = false)

instance : DecidablePred Delim
  | [] => isTrue trivial
  | [c] => inferInstanceAs (Decidable (c ∈ " (),;:[".toList))
  | c :: d :: _ =>
    inferInstanceAs (Decidable (c ∈ "(),;:[".toList ∨ (c = ' ' ∧ isBlank d = false)))

/-- The text `cs` reads as the tokens `ts`, up to the delimiter that follows it. -/
def Lexes (cs : List Char) (ts : List Token) : Prop :=
  ∃ last, flush (run .start cs).2 = some last ∧ (run .start cs).1 ++ last = ts ∧
    (run .start cs).2.Closable

theorem lexes_iff {cs : List Char} {ts : List Token} :
    Lexes cs ts ↔ lex cs = some ts ∧ (run .start cs).2.Closable := by
  simp only [Lexes, lex, Option.map_eq_some_iff]
  constructor
  · rintro ⟨last, hlast, hts, hst⟩
    exact ⟨⟨last, hlast, hts⟩, hst⟩
  · rintro ⟨⟨last, hlast, hts⟩, hst⟩
    exact ⟨last, hlast, hts, hst⟩

theorem Lexes.lex_eq {cs : List Char} {ts : List Token} (h : Lexes cs ts) : lex cs = some ts :=
  (lexes_iff.mp h).1

instance (cs : List Char) (ts : List Token) : Decidable (Lexes cs ts) :=
  decidable_of_iff _ lexes_iff.symm

/-- Reading a delimiter in a closable state ends the open token. -/
theorem step_of_closable {st : LexState} {c : Char} {last : List Token} (hst : st.Closable)
    (hc : c ∈ "(),;:[".toList) (hlast : flush st = some last) : step st c = emit last c := by
  have hcases : c = '(' ∨ c = ')' ∨ c = ',' ∨ c = ';' ∨ c = ':' ∨ c = '[' := by simpa using hc
  cases st with
  | start => simp_all [flush, step, emit]
  | gap =>
    simp only [flush, Option.some.injEq] at hlast
    subst hlast
    rcases hcases with rfl | rfl | rfl | rfl | rfl | rfl <;> rfl
  | word acc =>
    simp only [flush, Option.some.injEq] at hlast
    subst hlast
    rcases hcases with rfl | rfl | rfl | rfl | rfl | rfl <;> simp [step, isIdentPart, isIdentStart,
      Text.isAsciiAlphabetic, Text.isAsciiLower, Text.isAsciiUpper, Text.isAsciiDigit]
  | quotedEnd acc =>
    simp only [flush, Option.some.injEq] at hlast
    subst hlast
    rcases hcases with rfl | rfl | rfl | rfl | rfl | rfl <;> simp [step]
  | strEnd acc =>
    simp only [flush, Option.some.injEq] at hlast
    subst hlast
    rcases hcases with rfl | rfl | rfl | rfl | rfl | rfl <;> simp [step, isLineBreak, isBlank]
  | num acc =>
    simp only [flush, Option.some.injEq] at hlast
    subst hlast
    rcases hcases with rfl | rfl | rfl | rfl | rfl | rfl <;> simp [step, isIdentStart,
      Text.isAsciiAlphabetic, Text.isAsciiLower, Text.isAsciiUpper, Text.isAsciiDigit]
  | param acc =>
    have hne : acc ≠ [] := hst
    simp only [flush, hne, ↓reduceIte, Option.some.injEq] at hlast
    subst hlast
    rcases hcases with rfl | rfl | rfl | rfl | rfl | rfl <;> simp [step, hne, isIdentStart,
      Text.isAsciiAlphabetic, Text.isAsciiLower, Text.isAsciiUpper, Text.isAsciiDigit]
  | op acc =>
    simp only [flush, Option.some.injEq] at hlast
    subst hlast
    rcases hcases with rfl | rfl | rfl | rfl | rfl | rfl <;> simp [step, isOpChar]
  | _ => exact absurd hst (by simp [LexState.Closable])

/-- Reading a blank in a closable state ends the open token; the state after it differs from
`start` only in how it takes another blank. -/
theorem step_blank_of_closable {st : LexState} {last : List Token} (hst : st.Closable)
    (hlast : flush st = some last) :
    step st ' ' = (last, .start) ∨ step st ' ' = (last, .gap) := by
  cases st with
  | start => simp_all [flush, step, fresh, isBlank]
  | gap => simp_all [flush, step, isBlank, isLineBreak]
  | word acc =>
    simp_all [flush, step, emit, fresh, isBlank, isIdentPart, isIdentStart,
      Text.isAsciiAlphabetic, Text.isAsciiLower, Text.isAsciiUpper, Text.isAsciiDigit]
  | quotedEnd acc => simp_all [flush, step, emit, fresh, isBlank]
  | strEnd acc => simp_all [flush, step, isBlank, isLineBreak]
  | num acc =>
    simp_all [flush, step, emit, fresh, isBlank, isIdentStart,
      Text.isAsciiAlphabetic, Text.isAsciiLower, Text.isAsciiUpper, Text.isAsciiDigit]
  | param acc =>
    have hne : acc ≠ [] := hst
    simp_all [flush, step, emit, fresh, isBlank, isIdentStart,
      Text.isAsciiAlphabetic, Text.isAsciiLower, Text.isAsciiUpper, Text.isAsciiDigit]
  | op acc => simp_all [flush, step, emit, fresh, isBlank, isOpChar]
  | _ => exact absurd hst (by simp [LexState.Closable])

theorem step_gap_of_not_blank {c : Char} (hc : isBlank c = false) : step .gap c = fresh c := by
  have hline : isLineBreak c = false := by
    simp only [isBlank, Bool.or_eq_false_iff, decide_eq_false_iff_not] at hc
    simp [isLineBreak, hc]
  simp [step, hc, hline]

/-- A delimiter cuts a text: what follows is read as from the start. -/
theorem run_of_closable {st : LexState} {last : List Token} {b : List Char} (hst : st.Closable)
    (hlast : flush st = some last) (hb : Delim b) (hne : b ≠ [] ∧ b ≠ [' ']) :
    run st b = (last ++ (run .start b).1, (run .start b).2) := by
  have hfresh : ∀ c, step .start c = fresh c := fun _ => rfl
  match b, hb with
  | [], _ => exact absurd rfl hne.1
  | [c], hc =>
    have hc' : c ∈ "(),;:[".toList := by
      have hspace : c ≠ ' ' := fun h => hne.2 (by rw [h])
      have hmem : c ∈ " (),;:[".toList := hc
      simpa [hspace] using hmem
    simp [run, step_of_closable hst hc' hlast, emit, hfresh c]
  | c :: d :: rest, hc =>
    rcases hc with hc | ⟨rfl, hd⟩
    · simp only [run, step_of_closable hst hc hlast, emit, hfresh c, List.append_assoc]
    · have hstart : step .start ' ' = ([], .start) := by simp [step, fresh, isBlank]
      rcases step_blank_of_closable hst hlast with h | h
      · simp [run, h, hstart]
      · simp only [run, h, hstart, step_gap_of_not_blank hd, List.nil_append]
        rfl

/-- Two texts that lex, the second one starting with a delimiter. -/
theorem Lexes.append {a b : List Char} {ts us : List Token} (ha : Lexes a ts) (hb : Delim b)
    (hne : b ≠ [] ∧ b ≠ [' ']) (hbs : Lexes b us) : Lexes (a ++ b) (ts ++ us) := by
  obtain ⟨last, hlast, rfl, hst⟩ := ha
  obtain ⟨last', hlast', rfl, hst'⟩ := hbs
  have hrun := run_of_closable hst hlast hb hne
  refine ⟨last', ?_, ?_, ?_⟩
  · rw [run_append, hrun]
    exact hlast'
  · rw [run_append, hrun]
    simp [List.append_assoc]
  · rw [run_append, hrun]
    exact hst'

/-- An opening that leaves the machine between tokens. -/
theorem Lexes.after {p b : List Char} {ts us : List Token} (hp : run .start p = (ts, .start))
    (hb : Lexes b us) : Lexes (p ++ b) (ts ++ us) := by
  obtain ⟨last, hlast, rfl, hst⟩ := hb
  refine ⟨last, ?_, ?_, ?_⟩
  · rw [run_append, hp]
    exact hlast
  · rw [run_append, hp]
    simp [List.append_assoc]
  · rw [run_append, hp]
    exact hst

theorem Delim.append {mid b : List Char} (h : Delim mid) (hlen : 2 ≤ mid.length) :
    Delim (mid ++ b) := by
  match mid, hlen with
  | c :: d :: rest, _ => exact h

/-- Two texts with a separator between them that ends the first and leaves the machine between
tokens. -/
theorem Lexes.between {a b mid : List Char} {ts us ms : List Token} (ha : Lexes a ts)
    (hdelim : Delim mid) (hlen : 2 ≤ mid.length) (hmid : run .start mid = (ms, .start))
    (hb : Lexes b us) : Lexes (a ++ (mid ++ b)) (ts ++ (ms ++ us)) := by
  refine ha.append (hdelim.append hlen) ⟨?_, ?_⟩ (Lexes.after hmid hb)
  · intro h
    simp_all
  · intro h
    have := congrArg List.length h
    simp only [List.length_append, List.length_singleton] at this
    omega

/-! ### String constants and quoted identifiers -/

/-- Inside a string constant whose quotes are doubled, every character is part of its value. -/
theorem run_str (acc v : List Char) :
    run (.str acc) (Text.doubleChars '\'' v) = ([], .str (acc ++ v)) := by
  induction v generalizing acc with
  | nil => simp [run]
  | cons c cs ih =>
    by_cases hc : c = '\''
    · subst hc
      rw [Text.doubleChars_cons_self]
      simp [run, step, ih]
    · rw [Text.doubleChars_cons_of_ne hc]
      simp [run, step, hc, ih]

theorem run_quoted (acc v : List Char) :
    run (.quoted acc) (Text.doubleChars '"' v) = ([], .quoted (acc ++ v)) := by
  induction v generalizing acc with
  | nil => simp [run]
  | cons c cs ih =>
    by_cases hc : c = '"'
    · subst hc
      rw [Text.doubleChars_cons_self]
      simp [run, step, ih]
    · rw [Text.doubleChars_cons_of_ne hc]
      simp [run, step, hc, ih]

theorem run_quote_str (v : List Char) :
    run .start ('\'' :: (Text.doubleChars '\'' v ++ ['\''])) = ([], .strEnd v) := by
  have hopen : step .start '\'' = ([], .str []) := by
    simp [step, fresh, isBlank, isIdentStart, Text.isAsciiAlphabetic, Text.isAsciiLower,
      Text.isAsciiUpper, Text.isAsciiDigit]
  simp only [run, hopen, run_append, run_str, List.nil_append]
  simp [step]

theorem run_quote_quoted (v : List Char) :
    run .start ('"' :: (Text.doubleChars '"' v ++ ['"'])) = ([], .quotedEnd v) := by
  have hopen : step .start '"' = ([], .quoted []) := by
    simp [step, fresh, isBlank, isIdentStart, Text.isAsciiAlphabetic, Text.isAsciiLower,
      Text.isAsciiUpper, Text.isAsciiDigit]
  simp only [run, hopen, run_append, run_quoted, List.nil_append]
  simp [step]

/-- **A string constant is one token.** Quotes inside are doubled, so nothing in the value can end
it. -/
theorem lexes_str (v : String) :
    Lexes ('\'' :: (Text.doubleChars '\'' v.toList ++ ['\''])) [.str v] := by
  refine ⟨[.str v], ?_, ?_, ?_⟩ <;> rw [run_quote_str]
  · simp [flush]
  · rfl
  · trivial

/-- **A quoted identifier is one token.** -/
theorem lexes_quoted (v : String) :
    Lexes ('"' :: (Text.doubleChars '"' v.toList ++ ['"'])) [.quoted v] := by
  refine ⟨[.quoted v], ?_, ?_, ?_⟩ <;> rw [run_quote_quoted]
  · simp [flush]
  · rfl
  · trivial

/-- A quoted identifier behind a qualifier and a point. -/
theorem lexes_dot_quoted {a : List Char} {t : Token} (v : String)
    (ha : (∃ name, a = '"' :: (Text.doubleChars '"' name ++ ['"']) ∧ t = .quoted (String.ofList name)) ∨
      (∃ name, run .start a = ([], .word name) ∧ t = .word (String.ofList name))) :
    Lexes (a ++ '.' :: '"' :: (Text.doubleChars '"' v.toList ++ ['"'])) [t, .sym ".", .quoted v] := by
  have hdot : step .dot '"' = ([.sym "."], .quoted []) := by
    simp [step, emit, fresh, isBlank, isIdentStart, Text.isAsciiAlphabetic, Text.isAsciiLower,
      Text.isAsciiUpper, Text.isAsciiDigit]
  have hclose : run (.quoted []) (Text.doubleChars '"' v.toList ++ ['"']) =
      ([], .quotedEnd v.toList) := by
    rw [run_append, run_quoted]
    simp [run, step]
  have hrun : run .start (a ++ '.' :: '"' :: (Text.doubleChars '"' v.toList ++ ['"'])) =
      ([t, .sym "."], .quotedEnd v.toList) := by
    rw [run_append]
    rcases ha with ⟨name, rfl, rfl⟩ | ⟨name, hname, rfl⟩
    · rw [run_quote_quoted]
      have hend : step (.quotedEnd name) '.' = ([.quoted (String.ofList name)], .dot) := by
        simp [step, emit, fresh, isBlank, isIdentStart, Text.isAsciiAlphabetic, Text.isAsciiLower,
          Text.isAsciiUpper, Text.isAsciiDigit]
      simp [run, hend, hdot, hclose]
    · rw [hname]
      have hend : step (.word name) '.' = ([.word (String.ofList name)], .dot) := by
        simp [step, emit, fresh, isBlank, isIdentPart, isIdentStart, Text.isAsciiAlphabetic,
          Text.isAsciiLower, Text.isAsciiUpper, Text.isAsciiDigit]
      simp [run, hend, hdot, hclose]
  refine ⟨[.quoted v], ?_, ?_, ?_⟩ <;> rw [hrun]
  · simp [flush]
  · rfl
  · trivial

/-! ### Words, numbers and parameters -/

theorem isBlank_of_isIdentStart {c : Char} (h : isIdentStart c = true) : isBlank c = false := by
  have hge : 65 ≤ c.toNat := by
    simp only [isIdentStart, Text.isAsciiAlphabetic, Text.isAsciiLower, Text.isAsciiUpper,
      Bool.or_eq_true, Bool.and_eq_true, decide_eq_true_eq, Char.le_def,
      UInt32.le_iff_toNat_le] at h
    rcases h with (((h | h) | h) | h)
    · exact Nat.le_trans (by decide) h.1
    · exact h.1
    · subst h
      decide
    · omega
  by_contra hb
  have hle : c.toNat ≤ 32 := by
    simp only [isBlank, Bool.not_eq_false, Bool.or_eq_true, decide_eq_true_eq] at hb
    rcases hb with ((((rfl | rfl) | rfl) | rfl) | h) | h <;> first | decide | omega
  omega

/-- A digit is read between tokens as the start of a number. -/
theorem fresh_of_isAsciiDigit {c : Char} (h : Text.isAsciiDigit c = true) :
    fresh c = ([], .num [c]) := by
  have hrange : 48 ≤ c.toNat ∧ c.toNat ≤ 57 := by
    simpa [Text.isAsciiDigit, Char.le_def, UInt32.le_iff_toNat_le] using h
  have hblank : isBlank c = false := by
    by_contra hb
    simp only [isBlank, Bool.not_eq_false, Bool.or_eq_true, decide_eq_true_eq] at hb
    rcases hb with ((((rfl | rfl) | rfl) | rfl) | h) | h <;>
      first | exact absurd hrange (by decide) | omega
  have hident : isIdentStart c = false := by
    by_contra hb
    simp only [isIdentStart, Text.isAsciiAlphabetic, Text.isAsciiLower, Text.isAsciiUpper,
      Bool.not_eq_false, Bool.or_eq_true, Bool.and_eq_true, decide_eq_true_eq, Char.le_def,
      UInt32.le_iff_toNat_le] at hb
    rcases hb with (((hb | hb) | rfl) | hb)
    · exact absurd (Nat.le_trans hb.1 hrange.2) (by decide)
    · exact absurd (Nat.le_trans hb.1 hrange.2) (by decide)
    · exact absurd hrange (by decide)
    · omega
  simp [fresh, hblank, hident, h]

theorem run_word (acc v : List Char) (hv : v.all isIdentPart) :
    run (.word acc) v = ([], .word (acc ++ v)) := by
  induction v generalizing acc with
  | nil => simp [run]
  | cons c cs ih =>
    simp only [List.all_cons, Bool.and_eq_true] at hv
    simp [run, step, hv.1, ih _ hv.2]

theorem run_num (acc v : List Char) (hv : ∀ c ∈ v, Text.isAsciiDigit c || c = '.') :
    run (.num acc) v = ([], .num (acc ++ v)) := by
  induction v generalizing acc with
  | nil => simp [run]
  | cons c cs ih =>
    have hc := hv c (by simp)
    have hcs := ih (acc ++ [c]) fun d hd => hv d (List.mem_cons_of_mem _ hd)
    simp only [run, step, hc, ↓reduceIte, hcs]
    simp

theorem run_param (acc v : List Char) (hv : ∀ c ∈ v, Text.isAsciiDigit c) :
    run (.param acc) v = ([], .param (acc ++ v)) := by
  induction v generalizing acc with
  | nil => simp [run]
  | cons c cs ih =>
    have hc := hv c (by simp)
    have hcs := ih (acc ++ [c]) fun d hd => hv d (List.mem_cons_of_mem _ hd)
    simp [run, step, hc, hcs]

/-! ### Texts by their parameters

The same rules for a text of which only the parameters matter. What stands between the variable
pieces of a statement is a fixed text, checked by evaluation. -/

/-- The text lexes, and its parameters are `ps`, left to right. -/
def Reads (s : String) (ps : List Nat) : Prop := ∃ ts, Lexes s.toList ts ∧ params ts = ps

/-- A fixed text without parameters that leaves the machine between tokens. -/
def isOpening (s : String) : Bool :=
  (run .start s.toList).2 = .start && params (run .start s.toList).1 = []

/-- An opening that also ends the token before it. -/
def isSeparator (s : String) : Bool :=
  decide (Delim s.toList) && 2 ≤ s.toList.length && isOpening s

/-- A fixed text without parameters that ends the token before it and lexes. -/
def isClosing (s : String) : Bool :=
  decide (Delim s.toList) && s.toList ≠ [] && s.toList ≠ [' '] &&
    ((lex s.toList).any fun ts => params ts = []) && decide (run .start s.toList).2.Closable

section Reads

variable {a b m : String} {ps qs : List Nat}

theorem exists_run_of_isOpening (h : isOpening m = true) :
    ∃ ms, run .start m.toList = (ms, .start) ∧ params ms = [] := by
  simp only [isOpening, Bool.and_eq_true, decide_eq_true_eq] at h
  exact ⟨_, Prod.ext rfl h.1, h.2⟩

theorem Reads.opening (h : isOpening m = true) (hb : Reads b ps) : Reads (m ++ b) ps := by
  obtain ⟨ms, hrun, hparams⟩ := exists_run_of_isOpening h
  obtain ⟨ts, hts, rfl⟩ := hb
  refine ⟨ms ++ ts, ?_, by simp [hparams]⟩
  rw [String.toList_append]
  exact Lexes.after hrun hts

theorem Reads.separated (ha : Reads a ps) (h : isSeparator m = true) (hb : Reads b qs) :
    Reads (a ++ m ++ b) (ps ++ qs) := by
  simp only [isSeparator, Bool.and_eq_true, decide_eq_true_eq] at h
  obtain ⟨ms, hrun, hparams⟩ := exists_run_of_isOpening h.2
  obtain ⟨ts, hts, rfl⟩ := ha
  obtain ⟨us, hus, rfl⟩ := hb
  refine ⟨ts ++ (ms ++ us), ?_, by simp [hparams]⟩
  rw [String.toList_append, String.toList_append, List.append_assoc]
  exact hts.between h.1.1 h.1.2 hrun hus

/-- A text and a separator leave the machine between tokens. -/
theorem Reads.opens (ha : Reads a ps) (h : isSeparator m = true) :
    ∃ ts, run .start (a ++ m).toList = (ts, .start) ∧ params ts = ps := by
  simp only [isSeparator, Bool.and_eq_true, decide_eq_true_eq] at h
  obtain ⟨ms, hrun, hparams⟩ := exists_run_of_isOpening h.2
  obtain ⟨ts, ⟨last, hlast, rfl, hclosable⟩, rfl⟩ := ha
  have hne : m.toList ≠ [] ∧ m.toList ≠ [' '] := by
    constructor <;> intro hm <;> simp [hm] at h
  refine ⟨(run .start a.toList).1 ++ last ++ ms, ?_, by simp [hparams]⟩
  rw [String.toList_append, run_append, run_of_closable hclosable hlast h.1.1 hne, hrun]
  simp

theorem Reads.closing (ha : Reads a ps) (h : isClosing m = true) : Reads (a ++ m) ps := by
  simp only [isClosing, Bool.and_eq_true, decide_eq_true_eq] at h
  obtain ⟨⟨⟨⟨hdelim, hne⟩, hblank⟩, hlex⟩, hclosable⟩ := h
  obtain ⟨ts, hts, rfl⟩ := ha
  obtain ⟨us, hus, hparams⟩ := (Option.any_eq_true _ _).mp hlex
  refine ⟨ts ++ us, ?_, by simpa using hparams⟩
  rw [String.toList_append]
  exact hts.append hdelim ⟨hne, hblank⟩ (lexes_iff.mpr ⟨hus, hclosable⟩)

end Reads

end LazyPock.Sql
