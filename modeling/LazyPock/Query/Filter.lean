import LazyPock.Core.Error
import LazyPock.Core.Float

/-!
# Filter expressions

The filter language of `crates/db/src/query/filter.rs`: its syntax tree, the tokenizer and the
precedence-climbing parser, bounded in tokens and in nesting depth.

The tokenizer runs on a fuel of one step per character, which `Filter.tokenize_add` shows to be
enough. The nesting bound makes the parser structurally recursive: it descends in the levels of
nesting that are left.

## Main definitions

* `CompareOp`, `AuthRef`, `Operand`, `Side`, `Expr`.
* `Filter.tokenize`, `Filter.parseOr`.
* `Filter.parse`, `Filter.parseOptional`.

## Main results

* `Filter.tokenize_add`: the fuel of the tokenizer is enough.
-/

namespace LazyPock

open Text

/-! ### Syntax trees -/

/-- Comparison operators. -/
inductive CompareOp where
  | eq
  | notEq
  | gt
  | gte
  | lt
  | lte
  /-- `~`: case-insensitive contains. -/
  | like
  /-- `!~` -/
  | notLike
  /-- `?=`: any of the multiple values equals the operand. -/
  | any
  /-- `?!=` -/
  | notAny
deriving DecidableEq, Repr

/-- Wire syntax. -/
def CompareOp.asStr : CompareOp → String
  | eq => "="
  | notEq => "!="
  | gt => ">"
  | gte => ">="
  | lt => "<"
  | lte => "<="
  | like => "~"
  | notLike => "!~"
  | any => "?="
  | notAny => "?!="

/-- A reference to the authenticated request context. -/
inductive AuthRef where
  | id
  | email
  | collectionId
  | collectionName
  /-- `@request.auth.<claim>` -/
  | claim (name : String)
deriving DecidableEq, Repr

/-- A value in a comparison. -/
inductive Operand where
  | text (value : String)
  | number (value : F64)
  | bool (value : Bool)
  | null
  /-- `@now` -/
  | now
  | auth (reference : AuthRef)
deriving DecidableEq, Repr

/-- One side of a comparison. -/
inductive Side where
  /-- A dotted field path. -/
  | path (segments : List String)
  | value (operand : Operand)
deriving DecidableEq, Repr

/-- A filter expression. -/
inductive Expr where
  | and (left right : Expr)
  | or (left right : Expr)
  | compare (left : Side) (op : CompareOp) (right : Side)
deriving DecidableEq, Repr

namespace Filter

/-- `MAX_TOKENS` -/
def maxTokens : Nat := 512

/-- `MAX_DEPTH` -/
def maxDepth : Nat := 32

/-! ### Tokenizer

A reader returns what it read, and where reading goes on: the byte position and the characters
left. -/

inductive Token where
  | path (segments : List String)
  | text (value : String)
  | number (value : F64)
  | bool (value : Bool)
  | null
  | now
  | auth (reference : AuthRef)
  | op (op : CompareOp)
  | and
  | or
  | lparen
  | rparen
deriving DecidableEq, Repr

/-- A token as an error message shows it. -/
def Token.display : Token → String
  | path segments => "field `" ++ join "." segments ++ "`"
  | text value => "string " ++ debug value
  | number value => "number " ++ value.display
  | bool value => if value then "true" else "false"
  | null => "null"
  | now => "@now"
  | auth _ => "auth reference"
  | op o => "operator `" ++ o.asStr ++ "`"
  | and => "`&&`"
  | or => "`||`"
  | lparen => "`(`"
  | rparen => "`)`"

/-- An error at a byte position. -/
def errorAt (position : Nat) (message : String) : Error :=
  .invalid ("invalid filter at byte " ++ toString position ++ ": " ++ message)

def charsLen (cs : List Char) : Nat := (cs.map Char.utf8Size).sum

/-- The value of an escape sequence. -/
def escapeValue (c : Char) : Option Char :=
  if c = '\\' ∨ c = '\'' ∨ c = '"' then some c
  else if c = 'n' then some '\n'
  else if c = 'r' then some '\r'
  else if c = 't' then some '\t'
  else none

/-- The rest of a string literal opened at byte `start`. -/
def readString (start : Nat) (quote : Char) (position : Nat) (out : List Char) :
    List Char → Result (String × Nat × List Char)
  | [] => .error (errorAt start "unterminated string literal")
  | c :: cs =>
    if c = quote then .ok (String.ofList out, position + c.utf8Size, cs)
    else if c = '\\' then
      match cs with
      | [] => .error (errorAt (position + 1) "unterminated escape sequence")
      | e :: rest =>
        match escapeValue e with
        | some value => readString start quote (position + 1 + e.utf8Size) (out ++ [value]) rest
        | none =>
          .error (errorAt (position + 1 + e.utf8Size) ("unsupported escape sequence `\\" ++
            String.ofList [e] ++ "`; supported escapes are \\\\ \\' \\\" \\n \\r \\t"))
    else readString start quote (position + c.utf8Size) (out ++ [c]) cs

/-- The characters of a word, dots included. -/
def isWordChar (c : Char) : Bool := isAsciiAlphanumeric c || c = '_' || c = '.'

def isNumberChar (c : Char) : Bool := isAsciiDigit c || c = '.'

/-- The longest run of characters of one kind. -/
def readRun (kind : Char → Bool) (position : Nat) (cs : List Char) :
    List Char × Nat × List Char :=
  let word := cs.takeWhile kind
  (word, position + charsLen word, cs.dropWhile kind)

def authRef (property : String) : AuthRef :=
  match property with
  | "id" => .id
  | "email" => .email
  | "collectionId" => .collectionId
  | "collectionName" => .collectionName
  | claim => .claim claim

/-- The reference behind an `@`. -/
def readAtReference (start : Nat) (cs : List Char) : Result (Token × Nat × List Char) :=
  let (word, position, rest) := readRun isWordChar (start + 1) cs
  let shown := "`@" ++ String.ofList word ++ "`"
  match (splitOn '.' (String.ofList word)).filter fun s => s ≠ "" with
  | ["now"] => .ok (.now, position, rest)
  | ["request", "auth", property] => .ok (.auth (authRef property), position, rest)
  | ["request", "auth"] =>
    .error (errorAt start ("`@request.auth` needs a property " ++
      "(id, email, collectionId, collectionName, or a claim name)"))
  | "request" :: _ =>
    .error (errorAt start ("only `@request.auth.*` is supported, got " ++ shown))
  | _ =>
    .error (errorAt start ("unsupported reference " ++ shown ++
      "; supported references are `@now` and `@request.auth.*`"))

def parseNumber (digits : List Char) (position : Nat) : Result F64 :=
  okOr (errorAt position ("`" ++ String.ofList digits ++ "` is not a valid number"))
    (F64.parse digits)

/-- Check one segment of a field path. -/
def checkSegment (word : String) (position : Nat) (segment : String) : Result Unit :=
  match segment.toList with
  | [] => .error (errorAt position ("malformed field path `" ++ word ++ "`"))
  | first :: rest =>
    if !(isAsciiAlphabetic first || first = '_') then
      .error (errorAt position ("malformed field path `" ++ word ++ "`: `" ++ segment ++
        "` must start with a letter"))
    else match rest.find? fun c => !(isAsciiAlphanumeric c || c = '_') with
      | some bad =>
        .error (errorAt position ("malformed field path `" ++ word ++ "`: unexpected " ++
          debugQuoted bad))
      | none => .ok ()

def checkSegments (word : String) (position : Nat) : List String → Result Unit
  | [] => .ok ()
  | s :: rest => do
    checkSegment word position s
    checkSegments word position rest

/-- A word: a constant or a field path. -/
def readWord (position : Nat) (cs : List Char) : Result (Token × Nat × List Char) :=
  let (chars, position, rest) := readRun isWordChar position cs
  let word := String.ofList chars
  match word with
  | "true" => .ok (.bool true, position, rest)
  | "false" => .ok (.bool false, position, rest)
  | "null" => .ok (.null, position, rest)
  | _ => do
    let segments := splitOn '.' word
    checkSegments word position segments
    .ok (.path segments, position, rest)

/-- A parenthesis or a connective that starts with `c`; `next` is the byte behind it. -/
def readPunctuation (next : Nat) (c : Char) (cs : List Char) : Result (Token × Nat × List Char) :=
  if c = '(' then .ok (.lparen, next, cs)
  else if c = ')' then .ok (.rparen, next, cs)
  else if c = '&' then
    match cs with
    | '&' :: rest => .ok (.and, next + 1, rest)
    | _ => .error (errorAt next "expected `&&`")
  else
    match cs with
    | '|' :: rest => .ok (.or, next + 1, rest)
    | _ => .error (errorAt next "expected `||`")

/-- A comparison operator that starts with `c`; `next` is the byte behind it. -/
def readOperator (next : Nat) (c : Char) (cs : List Char) : Result (Token × Nat × List Char) :=
  if c = '~' then .ok (.op .like, next, cs)
  else if c = '=' then .ok (.op .eq, next, cs)
  else if c = '!' then
    match cs with
    | '=' :: rest => .ok (.op .notEq, next + 1, rest)
    | '~' :: rest => .ok (.op .notLike, next + 1, rest)
    | _ => .error (errorAt next "expected `!=` or `!~`")
  else if c = '>' then
    match cs with
    | '=' :: rest => .ok (.op .gte, next + 1, rest)
    | _ => .ok (.op .gt, next, cs)
  else if c = '<' then
    match cs with
    | '=' :: rest => .ok (.op .lte, next + 1, rest)
    | _ => .ok (.op .lt, next, cs)
  else
    match cs with
    | '=' :: rest => .ok (.op .any, next + 1, rest)
    | '!' :: '=' :: rest => .ok (.op .notAny, next + 2, rest)
    | '!' :: _ => .error (errorAt (next + 1) "expected `?!=`")
    | _ => .error (errorAt next "expected `?=` or `?!=`")

/-- Read one token that starts with `c` at byte `position`. -/
def readToken (position : Nat) (c : Char) (cs : List Char) : Result (Token × Nat × List Char) :=
  if c ∈ ['(', ')', '&', '|'] then readPunctuation (position + 1) c cs
  else if c = '"' ∨ c = '\'' then do
    let (value, position, rest) ← readString position c (position + 1) [] cs
    .ok (.text value, position, rest)
  else if c = '@' then readAtReference position cs
  else if c ∈ ['~', '=', '!', '>', '<', '?'] then readOperator (position + 1) c cs
  else if c = '-' ∧ (cs.head?.any isAsciiDigit) then do
    let (digits, position, rest) := readRun isNumberChar (position + 1) cs
    let value ← parseNumber ('-' :: digits) position
    .ok (.number value, position, rest)
  else if isAsciiDigit c then do
    let (digits, after, rest) := readRun isNumberChar position (c :: cs)
    let value ← parseNumber digits position
    .ok (.number value, after, rest)
  else if isAsciiAlphabetic c ∨ c = '_' then readWord position (c :: cs)
  else .error (errorAt position ("unexpected character " ++ debugQuoted c))

/-- The tokens of the characters left. -/
def tokenize : (fuel position : Nat) → List Char → Result (List Token)
  | 0, _, _ => .ok []
  | fuel + 1, position, cs =>
    let (_, position, cs) := readRun isWhitespace position cs
    match cs with
    | [] => .ok []
    | c :: rest => do
      let (token, position, rest) ← readToken position c rest
      let tokens ← tokenize fuel position rest
      .ok (token :: tokens)

/-! ### Parser

A parser returns what it parsed and the tokens left. -/

/-- Read one comparison side that is not the leading one. -/
def parseSide : List Token → Result (Side × List Token)
  | .path path :: rest => .ok (.path path, rest)
  | .text value :: rest => .ok (.value (.text value), rest)
  | .number value :: rest => .ok (.value (.number value), rest)
  | .bool value :: rest => .ok (.value (.bool value), rest)
  | .null :: rest => .ok (.value .null, rest)
  | .now :: rest => .ok (.value .now, rest)
  | .auth reference :: rest => .ok (.value (.auth reference), rest)
  | other :: _ =>
    .error (.invalid ("expected a value after the operator, found " ++ other.display ++
      " in the filter"))
  | [] => .error (.invalid "filter ended where a value was expected")

/-- The error for a left side that no operator follows. -/
def operatorExpected (left : Side) (description : String) : Error :=
  match left with
  | .path path =>
    .invalid ("field `" ++ join "." path ++
      "` must be followed by a comparison operator (= != > >= < <= ~ !~ ?= ?!=)")
  | .value _ =>
    .invalid (description ++ " must be followed by a comparison operator (= != > >= < <= ~ !~)")

/-- Read the operator and the right side for a left side already read. -/
def parseCompareFrom (left : Side) (description : String) :
    List Token → Result (Expr × List Token)
  | .op op :: rest => do
    let (right, rest) ← parseSide rest
    .ok (.compare left op right, rest)
  | _ => .error (operatorExpected left description)

/-- A comparison, or an expression in parentheses read by `inner`. -/
def parseComparison (inner : List Token → Result (Expr × List Token)) :
    List Token → Result (Expr × List Token)
  | .lparen :: rest => do
    let (expr, rest) ← inner rest
    match rest with
    | .rparen :: rest => .ok (expr, rest)
    | other :: _ =>
      .error (.invalid ("expected `)` but found " ++ other.display ++ " in the filter"))
    | [] => .error (.invalid "unbalanced `(` in the filter")
  | .path path :: rest => parseCompareFrom (.path path) "" rest
  | .auth reference :: rest =>
    parseCompareFrom (.value (.auth reference)) "the request reference" rest
  | .now :: rest => parseCompareFrom (.value .now) "`@now`" rest
  | other :: _ =>
    .error (.invalid ("expected a field or `(`, found " ++ other.display ++ " in the filter"))
  | [] => .error (.invalid "filter ended where a field or `(` was expected")

/-- A left-associative chain: `item (separator item)*`, the first item already read. -/
def parseChain (separator : Token) (build : Expr → Expr → Expr)
    (item : List Token → Result (Expr × List Token)) :
    (fuel : Nat) → Expr → List Token → Result (Expr × List Token)
  | 0, left, tokens => .ok (left, tokens)
  | _ + 1, left, [] => .ok (left, [])
  | fuel + 1, left, t :: rest =>
    if t = separator then do
      let (right, rest) ← item rest
      parseChain separator build item fuel (build left right) rest
    else .ok (left, t :: rest)

def parseAnd (comparison : List Token → Result (Expr × List Token)) (tokens : List Token) :
    Result (Expr × List Token) := do
  let (left, rest) ← comparison tokens
  parseChain .and .and comparison rest.length left rest

/-- Parse a disjunction with `levels` levels of nesting left. -/
def parseOr : (levels : Nat) → List Token → Result (Expr × List Token)
  | 0, _ =>
    .error (.invalid ("filter is too complex: more than " ++ toString maxDepth ++
      " levels of nesting"))
  | levels + 1, tokens => do
    let conjunction := parseAnd (parseComparison (parseOr levels))
    let (left, rest) ← conjunction tokens
    parseChain .or .or conjunction rest.length left rest

/-- Parse a filter expression, blank input being no filter. -/
def parseOptional (input : String) : Result (Option Expr) :=
  if trim input = "" then .ok none
  else do
    let tokens ← tokenize (input.toList.length + 1) 0 input.toList
    failIf (maxTokens < tokens.length)
      (.invalid ("filter is too complex: " ++ toString tokens.length ++ " tokens (maximum " ++
        toString maxTokens ++ ")"))
    let (expr, rest) ← parseOr maxDepth tokens
    match rest with
    | token :: _ =>
      .error (.invalid ("unexpected " ++ token.display ++ " after the end of the filter"))
    | [] => .ok (some expr)

/-- Parse a filter expression. -/
def parse (input : String) : Result Expr := do
  match ← parseOptional input with
  | some expr => .ok expr
  | none => .error (.invalid "filter must not be empty")

/-! ### Fuel -/

theorem readRun_length_le (kind : Char → Bool) (position : Nat) (cs : List Char) :
    (readRun kind position cs).2.2.length ≤ cs.length :=
  (List.dropWhile_sublist kind).length_le

variable {cs : List Char}

theorem readString_length_le {start position : Nat} {quote : Char} {out : List Char}
    {r : String × Nat × List Char} (h : readString start quote position out cs = .ok r) :
    r.2.2.length ≤ cs.length := by
  fun_induction readString start quote position out cs with
  | case1 => cases h
  | case2 => cases h; simp
  | case3 => cases h
  | case4 _ _ _ _ _ _ _ ih => have := ih h; simp; omega
  | case5 => cases h
  | case6 _ _ _ _ _ _ ih => have := ih h; simp; omega

variable {r : Token × Nat × List Char}

theorem readAtReference_length_le {start : Nat}
    (h : readAtReference start cs = .ok r) : r.2.2.length ≤ cs.length := by
  have hrun := readRun_length_le isWordChar (start + 1) cs
  simp only [readAtReference] at h
  split at h
  · cases h; exact hrun
  · cases h; exact hrun
  · cases h
  · cases h
  · cases h

theorem readWord_rest {position : Nat}
    (h : readWord position cs = .ok r) : r.2.2 = cs.dropWhile isWordChar := by
  simp only [readWord] at h
  split at h
  · cases h; rfl
  · cases h; rfl
  · cases h; rfl
  · obtain ⟨_, -, h⟩ := bind_eq_ok.mp h
    cases h
    rfl

theorem dropWhile_cons_length_le {kind : Char → Bool} {c : Char} (hc : kind c = true)
    (cs : List Char) : ((c :: cs).dropWhile kind).length ≤ cs.length := by
  rw [List.dropWhile_cons_of_pos hc]
  exact (List.dropWhile_sublist kind).length_le

theorem readPunctuation_length_le {next : Nat} {c : Char} (h : readPunctuation next c cs = .ok r) :
    r.2.2.length ≤ cs.length := by
  unfold readPunctuation at h
  split at h
  · cases h; exact Nat.le_refl _
  split at h
  · cases h; exact Nat.le_refl _
  split at h <;> split at h <;> cases h <;> simp

theorem readOperator_length_le {next : Nat} {c : Char} (h : readOperator next c cs = .ok r) :
    r.2.2.length ≤ cs.length := by
  unfold readOperator at h
  split at h
  · cases h; exact Nat.le_refl _
  split at h
  · cases h; exact Nat.le_refl _
  split at h
  · split at h <;> cases h <;> simp
  split at h
  · split at h <;> cases h <;> simp
  split at h
  · split at h <;> cases h <;> simp
  · split at h <;> cases h <;> simp
    omega

/-- A token takes at least the character it starts with. -/
theorem readToken_length_le {position : Nat} {c : Char} (h : readToken position c cs = .ok r) :
    r.2.2.length ≤ cs.length := by
  unfold readToken at h
  split at h
  · exact readPunctuation_length_le h
  split at h
  · obtain ⟨⟨value, after, rest⟩, hread, h⟩ := bind_eq_ok.mp h
    cases h
    exact readString_length_le hread
  split at h
  · exact readAtReference_length_le h
  split at h
  · exact readOperator_length_le h
  split at h
  · obtain ⟨value, -, h⟩ := bind_eq_ok.mp h
    cases h
    exact readRun_length_le _ _ _
  split at h
  next hdigit =>
    obtain ⟨value, -, h⟩ := bind_eq_ok.mp h
    cases h
    exact dropWhile_cons_length_le (by simp [isNumberChar, hdigit]) cs
  split at h
  next hword =>
    rw [readWord_rest h]
    refine dropWhile_cons_length_le ?_ cs
    rcases hword with hword | hword <;> simp [isWordChar, isAsciiAlphanumeric, hword]
  cases h

/-- With a step per character left, another step of fuel changes nothing. -/
theorem tokenize_succ {fuel position : Nat} (h : cs.length < fuel) :
    tokenize (fuel + 1) position cs = tokenize fuel position cs := by
  induction fuel generalizing position cs with
  | zero => omega
  | succ fuel ih =>
    have hrun := readRun_length_le isWhitespace position cs
    rw [tokenize, tokenize]
    rcases hread : readRun isWhitespace position cs with ⟨word, after, rest⟩
    rw [hread] at hrun
    cases rest with
    | nil => rfl
    | cons c rest =>
      simp only [List.length_cons] at hrun
      cases htoken : readToken after c rest with
      | error e => simp [htoken, bind, Except.bind]
      | ok r =>
        have hle := readToken_length_le htoken
        have hrest : tokenize (fuel + 1) r.2.1 r.2.2 = tokenize fuel r.2.1 r.2.2 :=
          ih (by omega)
        simp [htoken, bind, Except.bind, hrest]

/-- **The fuel of the tokenizer is enough.** -/
theorem tokenize_add {fuel extra position : Nat} (h : cs.length < fuel) :
    tokenize (fuel + extra) position cs = tokenize fuel position cs := by
  induction extra with
  | zero => rfl
  | succ extra ih => rw [← Nat.add_assoc, tokenize_succ (by omega), ih]

/-! ### The left side -/

/-- The left side of every comparison is a path, a request reference or `@now`. -/
def Leads : Expr → Prop
  | .and left right => Leads left ∧ Leads right
  | .or left right => Leads left ∧ Leads right
  | .compare (.path _) _ _ | .compare (.value (.auth _)) _ _ | .compare (.value .now) _ _ => True
  | _ => False

variable {tokens : List Token}

end Filter

end LazyPock
