import LazyPock.Core.Float
import LazyPock.Sql.Lexer

/-!
# SQL expressions and their text

The boolean expressions the server writes into a statement, as syntax trees. The text of a tree is
what the server writes; the tree is what Postgres reads from it, so a unary minus stands outside the
cast it was written before and a chain of `||` associates to the left.

A token of a tree is either part of the fixed frame of the expression or stands in a *slot* that
holds one value; a text value is one string constant. `Scalar.lexes` and `Pred.lexes` tie the text
to the tokens, for every value.

## Main definitions

* `Sql.PgType`, `Sql.Ident`, `Sql.Ref`.
* `Sql.Scalar`, `Sql.Pred`, with `text` and `marks`.
* `Sql.Mark`: a token of the frame, or a slot.
* `Sql.Pred.skeleton`, `Sql.Pred.values`: the frame and what its slots hold.
* `Sql.nesting`: the parentheses a token list opens and closes.

## Main results

* `Sql.Pred.lexes`: the text of an expression reads as its tokens.
* `Sql.Pred.semicolon_notMem`: none of them ends the statement.
* `Sql.Pred.nesting_tokens`: their parentheses match.
-/

namespace LazyPock.Sql

/-! ### Names -/

/-- The column types of the server. -/
inductive PgType where
  | text
  | bigint
  | doublePrecision
  | boolean
  | timestamptz
  | jsonb
  | textArray
deriving DecidableEq, Repr

def PgType.sql : PgType → String
  | text => "text"
  | bigint => "bigint"
  | doublePrecision => "double precision"
  | boolean => "boolean"
  | timestamptz => "timestamptz"
  | jsonb => "jsonb"
  | textArray => "text[]"

/-- Whether a text reads as one identifier without quotes. -/
def isIdent (s : String) : Bool :=
  match s.toList with
  | [] => false
  | c :: cs => isIdentStart c && cs.all isIdentPart

/-- A name that needs no quotes. -/
structure Ident where
  name : String
  valid : isIdent name = true
deriving DecidableEq

/-- What a column may be qualified with: a quoted table name, or an alias. -/
inductive Ref where
  | quoted (name : String)
  | bare (ident : Ident)
deriving DecidableEq

/-- A double-quoted identifier, inner quotes doubled. -/
def quoteIdent (name : String) : String := "\"" ++ Text.double '"' name ++ "\""

/-- A string constant, inner quotes doubled. -/
def stringConstant (value : String) : String := "'" ++ Text.double '\'' value ++ "'"

def Ref.text : Ref → String
  | quoted name => quoteIdent name
  | bare ident => ident.name

def Ref.token : Ref → Token
  | quoted name => .quoted name
  | bare ident => .word ident.name

/-! ### Trees -/

/-- A scalar expression. -/
inductive Scalar where
  | column (table : Option Ref) (name : String)
  /-- `$n` -/
  | param (index : Nat)
  /-- A string constant of the frame. -/
  | lit (value : String)
  /-- A string constant that holds a value. -/
  | str (value : String)
  /-- `-1.5::type`: Postgres applies the minus to the converted number. -/
  | number (negative : Bool) (magnitude : Decimal) (type : PgType)
  | bool (value : Bool)
  /-- `now()` -/
  | now
  /-- `schema.name()` -/
  | call (schema name : Ident)
  /-- `schema.name('argument')` -/
  | callWith (schema name : Ident) (argument : Scalar)
  /-- `current_setting('name', true)` -/
  | setting (name : String)
  | cast (inner : Scalar) (type : PgType)
  | concat (left right : Scalar)
deriving DecidableEq

/-- A comparison operator. -/
inductive CmpOp where
  | eq
  | ne
  | gt
  | ge
  | lt
  | le
deriving DecidableEq, Repr

def CmpOp.sql : CmpOp → String
  | eq => "="
  | ne => "<>"
  | gt => ">"
  | ge => ">="
  | lt => "<"
  | le => "<="

/-- A boolean expression. -/
inductive Pred where
  | true
  | isNull (value : Scalar)
  | isNotNull (value : Scalar)
  | compare (left : Scalar) (op : CmpOp) (right : Scalar)
  /-- `left [not] ilike pattern escape '\'` -/
  | ilike (negated : Bool) (left pattern : Scalar)
  /-- `left = any(array)` -/
  | eqAny (left array : Scalar)
  /-- `not (inner)` -/
  | not (inner : Pred)
  /-- `(left and right)` -/
  | and (left right : Pred)
  /-- `(left or right)` -/
  | or (left right : Pred)
  /-- `guard and (inner)` -/
  | guarded (guard inner : Pred)
  /-- `exists (select 1 from "table" row where join and inner)` -/
  | existsIn (table : String) (row : Ident) (join inner : Pred)
deriving DecidableEq

/-! ### Text -/

def Scalar.text : Scalar → String
  | column none name => quoteIdent name
  | column (some table) name => table.text ++ "." ++ quoteIdent name
  | param index => "$" ++ toString index
  | lit value | str value => stringConstant value
  | number negative magnitude type =>
    (if negative then "-" else "") ++ magnitude.text ++ "::" ++ type.sql
  | bool value => if value then "true" else "false"
  | now => "now()"
  | call schema name => schema.name ++ "." ++ name.name ++ "()"
  | callWith schema name argument => schema.name ++ "." ++ name.name ++ "(" ++ argument.text ++ ")"
  | setting name => "current_setting(" ++ stringConstant name ++ ", true)"
  | cast inner type => inner.text ++ "::" ++ type.sql
  | concat left right => left.text ++ " || " ++ right.text

def Pred.text : Pred → String
  | true => "true"
  | isNull value => value.text ++ " is null"
  | isNotNull value => value.text ++ " is not null"
  | compare left op right => left.text ++ " " ++ op.sql ++ " " ++ right.text
  | ilike negated left pattern =>
    left.text ++ (if negated then " not ilike " else " ilike ") ++ pattern.text ++ " escape '\\'"
  | eqAny left array => left.text ++ " = any(" ++ array.text ++ ")"
  | not inner => "not (" ++ inner.text ++ ")"
  | and left right => "(" ++ left.text ++ " and " ++ right.text ++ ")"
  | or left right => "(" ++ left.text ++ " or " ++ right.text ++ ")"
  | guarded guard inner => guard.text ++ " and (" ++ inner.text ++ ")"
  | existsIn table row join inner =>
    "exists (select 1 from " ++ quoteIdent table ++ " " ++ row.name ++ " where " ++ join.text ++
      " and " ++ inner.text ++ ")"

section TextLemmas

@[simp] theorem Scalar.text_column_none (name : String) :
    (column none name).text = quoteIdent name := rfl

@[simp] theorem Scalar.text_column_some (table : Ref) (name : String) :
    (column (some table) name).text = table.text ++ "." ++ quoteIdent name := rfl

@[simp] theorem Scalar.text_param (index : Nat) : (param index).text = "$" ++ toString index := rfl

@[simp] theorem Scalar.text_lit (value : String) : (lit value).text = stringConstant value := rfl

@[simp] theorem Scalar.text_str (value : String) : (str value).text = stringConstant value := rfl

@[simp] theorem Scalar.text_number (negative : Bool) (magnitude : Decimal) (type : PgType) :
    (number negative magnitude type).text =
      (if negative then "-" else "") ++ magnitude.text ++ "::" ++ type.sql := rfl

@[simp] theorem Scalar.text_call (schema name : Ident) :
    (call schema name).text = schema.name ++ "." ++ name.name ++ "()" := rfl

@[simp] theorem Scalar.text_callWith (schema name : Ident) (argument : Scalar) :
    (callWith schema name argument).text =
      schema.name ++ "." ++ name.name ++ "(" ++ argument.text ++ ")" := rfl

@[simp] theorem Scalar.text_setting (name : String) :
    (setting name).text = "current_setting(" ++ stringConstant name ++ ", true)" := rfl

@[simp] theorem Scalar.text_cast (inner : Scalar) (type : PgType) :
    (cast inner type).text = inner.text ++ "::" ++ type.sql := rfl

@[simp] theorem Scalar.text_concat (left right : Scalar) :
    (concat left right).text = left.text ++ " || " ++ right.text := rfl

@[simp] theorem Pred.text_isNull (value : Scalar) :
    (isNull value).text = value.text ++ " is null" := rfl

@[simp] theorem Pred.text_isNotNull (value : Scalar) :
    (isNotNull value).text = value.text ++ " is not null" := rfl

@[simp] theorem Pred.text_compare (left : Scalar) (op : CmpOp) (right : Scalar) :
    (compare left op right).text = left.text ++ " " ++ op.sql ++ " " ++ right.text := rfl

@[simp] theorem Pred.text_ilike (negated : Bool) (left pattern : Scalar) :
    (ilike negated left pattern).text =
      left.text ++ (if negated then " not ilike " else " ilike ") ++ pattern.text ++
        " escape '\\'" := rfl

@[simp] theorem Pred.text_eqAny (left array : Scalar) :
    (eqAny left array).text = left.text ++ " = any(" ++ array.text ++ ")" := rfl

@[simp] theorem Pred.text_not (inner : Pred) :
    (Pred.not inner).text = "not (" ++ inner.text ++ ")" := rfl

@[simp] theorem Pred.text_and (left right : Pred) :
    (Pred.and left right).text = "(" ++ left.text ++ " and " ++ right.text ++ ")" := rfl

@[simp] theorem Pred.text_or (left right : Pred) :
    (Pred.or left right).text = "(" ++ left.text ++ " or " ++ right.text ++ ")" := rfl

@[simp] theorem Pred.text_guarded (guard inner : Pred) :
    (guarded guard inner).text = guard.text ++ " and (" ++ inner.text ++ ")" := rfl

@[simp] theorem Pred.text_existsIn (table : String) (row : Ident) (join inner : Pred) :
    (existsIn table row join inner).text =
      "exists (select 1 from " ++ quoteIdent table ++ " " ++ row.name ++ " where " ++ join.text ++
        " and " ++ inner.text ++ ")" := rfl

end TextLemmas

/-! ### Tokens -/

/-- A constant value of an expression. -/
inductive Literal where
  | text (value : String)
  | number (negative : Bool) (magnitude : Decimal)
  | bool (value : Bool)
deriving DecidableEq

/-- The tokens a value is written as: a text is one string constant. -/
def Literal.tokens : Literal → List Token
  | text value => [.str value]
  | number negative magnitude =>
    (if negative then [.sym "-"] else []) ++ [.num magnitude.text]
  | bool value => [.word (if value then "true" else "false")]

/-- A place of an expression: a token of its frame, or a slot that holds a value. -/
inductive Mark where
  | frame (token : Token)
  | slot (value : Literal)
deriving DecidableEq

namespace Mark

def tokens : Mark → List Token
  | frame t => [t]
  | slot v => v.tokens

/-- The mark with its value left out. -/
def blank : Mark → Option Token
  | frame t => some t
  | slot _ => none

def value? : Mark → Option Literal
  | frame _ => none
  | slot v => some v

@[simp] theorem tokens_frame (t : Token) : (frame t).tokens = [t] := rfl

@[simp] theorem tokens_slot (v : Literal) : (slot v).tokens = v.tokens := rfl

@[simp] theorem blank_frame (t : Token) : (frame t).blank = some t := rfl

@[simp] theorem blank_slot (v : Literal) : (slot v).blank = none := rfl

@[simp] theorem value_frame (t : Token) : (frame t).value? = none := rfl

@[simp] theorem value_slot (v : Literal) : (slot v).value? = some v := rfl

end Mark

/-- The tokens of a frame whose slots are filled, left to right, with values. -/
def fill : List (Option Token) → List Literal → List Token
  | [], _ => []
  | some t :: frame, values => t :: fill frame values
  | none :: frame, v :: values => v.tokens ++ fill frame values
  | none :: frame, [] => fill frame []

theorem flatMap_tokens_eq_fill (ms : List Mark) :
    ms.flatMap Mark.tokens = fill (ms.map Mark.blank) (ms.filterMap Mark.value?) := by
  induction ms with
  | nil => rfl
  | cons m ms ih => cases m <;> simp [fill, ih, List.filterMap_cons]

theorem count_blank (ms : List Mark) :
    (ms.map Mark.blank).count none = (ms.filterMap Mark.value?).length := by
  induction ms with
  | nil => rfl
  | cons m ms ih => cases m <;> simp [List.filterMap_cons, ih]

/-- The tokens of the frame. -/
def frames (ts : List Token) : List Mark := ts.map .frame

@[simp] theorem flatMap_tokens_frames (ts : List Token) : (frames ts).flatMap Mark.tokens = ts := by
  induction ts with
  | nil => rfl
  | cons t ts ih => simpa [frames] using ih

@[simp] theorem value_frames (ts : List Token) : (frames ts).filterMap Mark.value? = [] := by
  simp [frames]

def PgType.tokens : PgType → List Token
  | text => [.word "text"]
  | bigint => [.word "bigint"]
  | doublePrecision => [.word "double", .word "precision"]
  | boolean => [.word "boolean"]
  | timestamptz => [.word "timestamptz"]
  | jsonb => [.word "jsonb"]
  | textArray => [.word "text", .sym "[", .sym "]"]

def Scalar.marks : Scalar → List Mark
  | column none name => frames [.quoted name]
  | column (some table) name => frames [table.token, .sym ".", .quoted name]
  | param index => frames [.param index]
  | lit value => frames [.str value]
  | str value => [.slot (.text value)]
  | number negative magnitude type =>
    .slot (.number negative magnitude) :: frames (.sym "::" :: type.tokens)
  | bool value => [.slot (.bool value)]
  | now => frames [.word "now", .sym "(", .sym ")"]
  | call schema name =>
    frames [.word schema.name, .sym ".", .word name.name, .sym "(", .sym ")"]
  | callWith schema name argument =>
    frames [.word schema.name, .sym ".", .word name.name, .sym "("] ++ argument.marks ++
      frames [.sym ")"]
  | setting name =>
    frames [.word "current_setting", .sym "(", .str name, .sym ",", .word "true", .sym ")"]
  | cast inner type => inner.marks ++ frames (.sym "::" :: type.tokens)
  | concat left right => left.marks ++ frames [.sym "||"] ++ right.marks

def Pred.marks : Pred → List Mark
  | true => frames [.word "true"]
  | isNull value => value.marks ++ frames [.word "is", .word "null"]
  | isNotNull value => value.marks ++ frames [.word "is", .word "not", .word "null"]
  | compare left op right => left.marks ++ frames [.sym op.sql] ++ right.marks
  | ilike negated left pattern =>
    left.marks ++ frames (if negated then [.word "not", .word "ilike"] else [.word "ilike"]) ++
      pattern.marks ++ frames [.word "escape", .str "\\"]
  | eqAny left array =>
    left.marks ++ frames [.sym "=", .word "any", .sym "("] ++ array.marks ++ frames [.sym ")"]
  | not inner => frames [.word "not", .sym "("] ++ inner.marks ++ frames [.sym ")"]
  | and left right =>
    frames [.sym "("] ++ left.marks ++ frames [.word "and"] ++ right.marks ++ frames [.sym ")"]
  | or left right =>
    frames [.sym "("] ++ left.marks ++ frames [.word "or"] ++ right.marks ++ frames [.sym ")"]
  | guarded guard inner =>
    guard.marks ++ frames [.word "and", .sym "("] ++ inner.marks ++ frames [.sym ")"]
  | existsIn table row join inner =>
    frames [.word "exists", .sym "(", .word "select", .num "1", .word "from", .quoted table,
      .word row.name, .word "where"] ++ join.marks ++ frames [.word "and"] ++ inner.marks ++
      frames [.sym ")"]

def Scalar.tokens (s : Scalar) : List Token := s.marks.flatMap Mark.tokens

def Pred.tokens (p : Pred) : List Token := p.marks.flatMap Mark.tokens

/-- The frame of a scalar expression: its tokens with the values left out. -/
def Scalar.skeleton (s : Scalar) : List (Option Token) := s.marks.map Mark.blank

/-- The values of a scalar expression, left to right. -/
def Scalar.values (s : Scalar) : List Literal := s.marks.filterMap Mark.value?

/-- The frame of an expression: its tokens with the values left out. -/
def Pred.skeleton (p : Pred) : List (Option Token) := p.marks.map Mark.blank

/-- The values of an expression, left to right. -/
def Pred.values (p : Pred) : List Literal := p.marks.filterMap Mark.value?

/-- The tokens of an expression are its frame with its values put in. -/
theorem Pred.tokens_eq_fill (p : Pred) : p.tokens = fill p.skeleton p.values :=
  flatMap_tokens_eq_fill p.marks

/-- Every slot of an expression holds one value. -/
theorem Pred.count_skeleton (p : Pred) : p.skeleton.count none = p.values.length :=
  count_blank p.marks

section Params

attribute [local simp] Scalar.tokens Scalar.marks Pred.tokens Pred.marks

@[simp] theorem PgType.params_tokens (t : PgType) : params t.tokens = [] := by
  cases t <;> rfl

@[simp] theorem Ref.paramIndex_token (r : Ref) : r.token.paramIndex? = none := by
  cases r <;> rfl

@[simp] theorem Scalar.params_column (table : Option Ref) (name : String) :
    params (column table name).tokens = [] := by
  cases table <;> simp

@[simp] theorem Scalar.params_param (index : Nat) : params (param index).tokens = [index] := rfl

@[simp] theorem Scalar.params_lit (value : String) : params (lit value).tokens = [] := rfl

@[simp] theorem Scalar.params_now : params now.tokens = [] := rfl

@[simp] theorem Scalar.params_cast (inner : Scalar) (type : PgType) :
    params (cast inner type).tokens = params inner.tokens := by
  simp

@[simp] theorem Scalar.params_concat (left right : Scalar) :
    params (concat left right).tokens = params left.tokens ++ params right.tokens := by
  simp

@[simp] theorem Pred.params_isNull (value : Scalar) :
    params (isNull value).tokens = params value.tokens := by
  simp

@[simp] theorem Pred.params_isNotNull (value : Scalar) :
    params (isNotNull value).tokens = params value.tokens := by
  simp

@[simp] theorem Pred.params_compare (left : Scalar) (op : CmpOp) (right : Scalar) :
    params (compare left op right).tokens = params left.tokens ++ params right.tokens := by
  simp

@[simp] theorem Pred.params_ilike (negated : Bool) (left pattern : Scalar) :
    params (ilike negated left pattern).tokens = params left.tokens ++ params pattern.tokens := by
  cases negated <;> simp

@[simp] theorem Pred.params_eqAny (left array : Scalar) :
    params (eqAny left array).tokens = params left.tokens ++ params array.tokens := by
  simp

@[simp] theorem Pred.params_not (inner : Pred) :
    params (Pred.not inner).tokens = params inner.tokens := by
  simp

@[simp] theorem Pred.params_and (left right : Pred) :
    params (Pred.and left right).tokens = params left.tokens ++ params right.tokens := by
  simp

@[simp] theorem Pred.params_or (left right : Pred) :
    params (Pred.or left right).tokens = params left.tokens ++ params right.tokens := by
  simp

@[simp] theorem Pred.params_existsIn (table : String) (row : Ident) (join inner : Pred) :
    params (existsIn table row join inner).tokens = params join.tokens ++ params inner.tokens := by
  simp

end Params

/-! ### Where a statement could end -/

/-- The depth of open parentheses after the tokens, from depth `d`; nothing when one is closed that
was not opened. -/
def nesting : List Token → Nat → Option Nat
  | [], d => some d
  | t :: ts, d =>
    if t = .sym "(" then nesting ts (d + 1)
    else if t = .sym ")" then
      match d with
      | 0 => none
      | d + 1 => nesting ts d
    else nesting ts d

section Nesting

variable {ts us : List Token} {d : Nat}

section Steps

attribute [local simp] nesting

@[simp] theorem nesting_open : nesting (.sym "(" :: ts) d = nesting ts (d + 1) := by
  simp

@[simp] theorem nesting_close : nesting (.sym ")" :: ts) (d + 1) = nesting ts d := by
  simp

@[simp] theorem nesting_word (w : String) : nesting (.word w :: ts) d = nesting ts d := by
  simp

@[simp] theorem nesting_quoted (w : String) : nesting (.quoted w :: ts) d = nesting ts d := by
  simp

@[simp] theorem nesting_str (w : String) : nesting (.str w :: ts) d = nesting ts d := by
  simp

@[simp] theorem nesting_num (w : String) : nesting (.num w :: ts) d = nesting ts d := by
  simp

@[simp] theorem nesting_param (n : Nat) : nesting (.param n :: ts) d = nesting ts d := by
  simp

theorem nesting_sym {w : String} (hopen : w ≠ "(") (hclose : w ≠ ")") :
    nesting (.sym w :: ts) d = nesting ts d := by
  simp [hopen, hclose]

end Steps

@[simp] theorem Ref.nesting_token (r : Ref) : nesting (r.token :: ts) d = nesting ts d := by
  cases r <;> simp [Ref.token]

@[simp] theorem CmpOp.nesting_sql (op : CmpOp) : nesting (.sym op.sql :: ts) d = nesting ts d := by
  cases op <;> exact nesting_sym (by decide) (by decide)

@[simp] theorem PgType.nesting_tokens (t : PgType) : nesting (t.tokens ++ ts) d = nesting ts d := by
  cases t <;> simp [PgType.tokens, nesting_sym]

@[simp] theorem Literal.nesting_tokens (v : Literal) :
    nesting (v.tokens ++ ts) d = nesting ts d := by
  rcases v with _ | ⟨_ | _, _⟩ | _ <;> simp [Literal.tokens, nesting_sym]

theorem Scalar.nesting_append (s : Scalar) : nesting (s.tokens ++ ts) d = nesting ts d := by
  simp only [tokens]
  induction s generalizing ts d with
  | column table name => cases table <;> simp [marks, nesting_sym]
  | callWith schema name argument ih => simp [marks, nesting_sym, ih]
  | cast inner type ih => simp [marks, nesting_sym, ih]
  | concat left right ihl ihr => simp [marks, nesting_sym, ihl, ihr]
  | _ => simp [marks, nesting_sym]

theorem Pred.nesting_append (p : Pred) : nesting (p.tokens ++ ts) d = nesting ts d := by
  have hscalar : ∀ (s : Scalar) {ts d}, nesting (s.marks.flatMap Mark.tokens ++ ts) d =
    nesting ts d := fun s => s.nesting_append
  simp only [tokens]
  induction p generalizing ts d with
  | ilike negated left pattern => cases negated <;> simp [marks, hscalar]
  | not inner ih => simp [marks, ih]
  | and left right ihl ihr => simp [marks, ihl, ihr]
  | or left right ihl ihr => simp [marks, ihl, ihr]
  | guarded guard inner ihg ihi => simp [marks, ihg, ihi]
  | existsIn table row join inner ihj ihi => simp [marks, ihj, ihi]
  | _ => simp [marks, nesting_sym, hscalar]

/-- The parentheses of an expression match. -/
theorem Pred.nesting_tokens (p : Pred) : nesting p.tokens 0 = some 0 := by
  have h : nesting (p.tokens ++ []) 0 = nesting [] 0 := p.nesting_append
  simpa [nesting] using h

end Nesting

theorem PgType.semicolon_notMem (t : PgType) : Token.sym ";" ∉ t.tokens := by
  cases t <;> decide

theorem Literal.semicolon_notMem (v : Literal) : Token.sym ";" ∉ v.tokens := by
  rcases v with _ | ⟨_ | _, _⟩ | _ <;> simp [Literal.tokens]

theorem Ref.semicolon_ne (r : Ref) : Token.sym ";" ≠ r.token := by
  cases r <;> simp [Ref.token]

theorem CmpOp.semicolon_ne (op : CmpOp) : ";" ≠ op.sql := by
  cases op <;> decide

theorem Scalar.semicolon_notMem (s : Scalar) : Token.sym ";" ∉ s.tokens := by
  simp only [tokens]
  induction s with
  | column table name => cases table <;> simp [marks, Ref.semicolon_ne]
  | number negative magnitude type =>
    simp [marks, PgType.semicolon_notMem, Literal.semicolon_notMem]
  | cast inner type ih => simpa [marks, PgType.semicolon_notMem] using ih
  | callWith schema name argument ih => simpa [marks] using ih
  | concat left right ihl ihr => simpa [marks, -List.mem_flatMap] using ⟨ihl, ihr⟩
  | _ => simp [marks, Literal.semicolon_notMem]

/-- No token of an expression is a semicolon, whatever its values and names hold. -/
theorem Pred.semicolon_notMem (p : Pred) : Token.sym ";" ∉ p.tokens := by
  have hscalar : ∀ s : Scalar, Token.sym ";" ∉ s.marks.flatMap Mark.tokens :=
    Scalar.semicolon_notMem
  simp only [tokens]
  induction p with
  | compare left op right => simp [marks, hscalar, CmpOp.semicolon_ne, -List.mem_flatMap]
  | ilike negated left pattern => cases negated <;> simp [marks, hscalar, -List.mem_flatMap]
  | not inner ih => simpa [marks, -List.mem_flatMap] using ih
  | and left right ihl ihr => simpa [marks, -List.mem_flatMap] using ⟨ihl, ihr⟩
  | or left right ihl ihr => simpa [marks, -List.mem_flatMap] using ⟨ihl, ihr⟩
  | guarded guard inner ihg ihi => simpa [marks, -List.mem_flatMap] using ⟨ihg, ihi⟩
  | existsIn table row join inner ihj ihi => simpa [marks, -List.mem_flatMap] using ⟨ihj, ihi⟩
  | _ => simp [marks, hscalar, -List.mem_flatMap]

/-! ### Reading the text back -/

theorem lexes_quoteIdent (name : String) : Lexes (quoteIdent name).toList [.quoted name] := by
  simpa [quoteIdent] using lexes_quoted name

theorem lexes_stringConstant (value : String) :
    Lexes (stringConstant value).toList [.str value] := by
  simpa [stringConstant] using lexes_str value

theorem Ident.exists_toList (i : Ident) :
    ∃ c cs, i.name.toList = c :: cs ∧ isIdentStart c = true ∧ cs.all isIdentPart = true := by
  have hvalid := i.valid
  unfold isIdent at hvalid
  cases h : i.name.toList with
  | nil => simp [h] at hvalid
  | cons c cs =>
    simp only [h, Bool.and_eq_true] at hvalid
    exact ⟨c, cs, rfl, hvalid⟩

theorem Ident.run_eq (i : Ident) : run .start i.name.toList = ([], .word i.name.toList) := by
  obtain ⟨c, cs, h, hc, hcs⟩ := i.exists_toList
  simp [h, run, step, fresh, hc, isBlank_of_isIdentStart hc, run_word [c] cs hcs]

theorem Ident.lexes (i : Ident) : Lexes i.name.toList [.word i.name] := by
  refine ⟨[.word i.name], ?_, ?_, ?_⟩ <;> rw [i.run_eq]
  · simp [flush]
  · rfl
  · trivial

/-- The fixed texts in front of and between the parts of an expression, with their tokens. -/
def fixedTexts : List (String × List Token) :=
  [(" ", []), ("(", [.sym "("]), ("current_setting(", [.word "current_setting", .sym "("]),
    (" || ", [.sym "||"]), (" and ", [.word "and"]), (" or ", [.word "or"]),
    (" ilike ", [.word "ilike"]), (" not ilike ", [.word "not", .word "ilike"]),
    (" = any(", [.sym "=", .word "any", .sym "("]), ("not (", [.word "not", .sym "("]),
    (" and (", [.word "and", .sym "("]),
    ("exists (select 1 from ", [.word "exists", .sym "(", .word "select", .num "1", .word "from"]),
    (" where ", [.word "where"])]

/-- The fixed texts that end an expression, with their tokens. -/
def endings : List (String × List Token) :=
  [(")", [.sym ")"]), ("()", [.sym "(", .sym ")"]), (", true)", [.sym ",", .word "true", .sym ")"]),
    ("true", [.word "true"]), ("false", [.word "false"]), ("now()", [.word "now", .sym "(", .sym ")"]),
    (" is null", [.word "is", .word "null"]),
    (" is not null", [.word "is", .word "not", .word "null"]),
    (" escape '\\'", [.word "escape", .str "\\"])]

/-- The types a column can have. -/
def PgType.all : List PgType :=
  [.text, .bigint, .doublePrecision, .boolean, .timestamptz, .jsonb, .textArray]

theorem lexes_fixed : (∀ f ∈ fixedTexts, run .start f.1.toList = (f.2, .start)) ∧
    (∀ f ∈ endings, Lexes f.1.toList f.2) ∧
    ∀ t ∈ PgType.all, Lexes ("::" ++ t.sql).toList (.sym "::" :: t.tokens) := by
  decide

theorem run_frame {text : String} {tokens : List Token} (h : (text, tokens) ∈ fixedTexts) :
    run .start text.toList = (tokens, .start) :=
  lexes_fixed.1 _ h

theorem lexes_tail {text : String} {tokens : List Token} (h : (text, tokens) ∈ endings) :
    Lexes text.toList tokens :=
  lexes_fixed.2.1 _ h

theorem PgType.lexes (t : PgType) : Lexes ("::" ++ t.sql).toList (.sym "::" :: t.tokens) :=
  lexes_fixed.2.2 t (by cases t <;> decide)

theorem lexes_decimal (d : Decimal) : Lexes d.chars [.num d.text] := by
  obtain ⟨c, cs, hchars, hdigit, hrest⟩ := d.chars_eq_cons
  have hrun : run .start d.chars = ([], .num d.chars) := by
    have hstep : step .start c = ([], .num [c]) := fresh_of_isAsciiDigit hdigit
    rw [hchars]
    simp [run, hstep, run_num [c] cs hrest]
  refine ⟨[.num d.text], ?_, ?_, ?_⟩ <;> rw [hrun]
  · rfl
  · rfl
  · trivial

/-- A minus before a number is a token of its own. -/
theorem Lexes.minus {c : Char} {b : List Char} {us : List Token} (hc : Text.isAsciiDigit c = true)
    (hb : Lexes (c :: b) us) : Lexes ('-' :: c :: b) (.sym "-" :: us) := by
  obtain ⟨last, hlast, rfl, hst⟩ := hb
  have hnum : step .start c = ([], .num [c]) := fresh_of_isAsciiDigit hc
  have hne : c ≠ '-' ∧ c ≠ '*' ∧ isOpChar c = false := by
    have hall : ("+-*/<>=~!@#%^&|`?".toList.all fun x => !Text.isAsciiDigit x) = true := by decide
    refine ⟨?_, ?_, ?_⟩
    · rintro rfl
      exact absurd hc (by decide)
    · rintro rfl
      exact absurd hc (by decide)
    · by_contra hop
      have hmem : c ∈ "+-*/<>=~!@#%^&|`?".toList := by
        simpa only [isOpChar, Bool.not_eq_false, decide_eq_true_eq] using hop
      have hnot := List.all_eq_true.mp hall c hmem
      rw [hc] at hnot
      cases hnot
  have hop : step (.op ['-']) c = ([.sym "-"], .num [c]) := by
    simp only [step, emit, fresh_of_isAsciiDigit hc, hne]
    rfl
  have hminus : step .start '-' = ([], .op ['-']) := by rfl
  have hrun : run .start ('-' :: c :: b) =
      (.sym "-" :: (run .start (c :: b)).1, (run .start (c :: b)).2) := by
    simp only [run, hminus, hop, hnum, List.nil_append]
    rfl
  rw [Lexes, hrun]
  exact ⟨last, hlast, rfl, hst⟩

/-- The digits of a parameter. -/
theorem lexes_param (n : Nat) : Lexes ('$' :: Nat.toDigits 10 n) [.param n] := by
  have hopen : step .start '$' = ([], .param []) := by rfl
  have hrun : run .start ('$' :: Nat.toDigits 10 n) = ([], .param (Nat.toDigits 10 n)) := by
    simp [run, hopen, run_param [] _ fun c hc => Text.isAsciiDigit_of_mem_toDigits hc]
  have hne : Nat.toDigits 10 n ≠ [] := Nat.toDigits_ne_nil
  refine ⟨[.param n], ?_, ?_, ?_⟩ <;> rw [hrun]
  · simp [flush, hne, Nat.ofDigitChars_ten_toDigits]
  · rfl
  · exact hne

/-- A name behind a schema and a point. -/
theorem lexes_dotted (schema name : Ident) :
    Lexes (schema.name.toList ++ '.' :: name.name.toList)
      [.word schema.name, .sym ".", .word name.name] := by
  obtain ⟨c, cs, h, hc, hcs⟩ := name.exists_toList
  have hdigit : Text.isAsciiDigit c = false := by
    by_contra hd
    have := fresh_of_isAsciiDigit (c := c) (by simpa using hd)
    simp [fresh, isBlank_of_isIdentStart hc, hc] at this
  have hword : step (.word schema.name.toList) '.' = ([.word schema.name], .dot) := by
    simp [step, emit, fresh, isBlank, isIdentPart, isIdentStart, Text.isAsciiAlphabetic,
      Text.isAsciiLower, Text.isAsciiUpper, Text.isAsciiDigit]
  have hdot : step .dot c = ([.sym "."], .word [c]) := by
    simp [step, emit, fresh, hdigit, isBlank_of_isIdentStart hc, hc]
  have hrun : run .start (schema.name.toList ++ '.' :: name.name.toList) =
      ([.word schema.name, .sym "."], .word name.name.toList) := by
    rw [run_append, schema.run_eq]
    simp [h, run, hword, hdot, run_word [c] cs hcs]
  refine ⟨[.word name.name], ?_, ?_, ?_⟩ <;> rw [hrun]
  · simp [flush]
  · rfl
  · trivial

theorem Ref.lexes_column (r : Ref) (name : String) :
    Lexes (r.text ++ "." ++ quoteIdent name).toList [r.token, .sym ".", .quoted name] := by
  cases r with
  | quoted t =>
    have h := lexes_dot_quoted (t := .quoted t) name (.inl ⟨t.toList, rfl, by simp⟩)
    simpa [Ref.text, Ref.token, quoteIdent] using h
  | bare i =>
    have h := lexes_dot_quoted (t := .word i.name) name (.inr ⟨i.name.toList, i.run_eq, by simp⟩)
    simpa [Ref.text, Ref.token, quoteIdent] using h

theorem Lexes.cast {a : List Char} {ts : List Token} (ha : Lexes a ts) (t : PgType) :
    Lexes (a ++ ("::" ++ t.sql).toList) (ts ++ .sym "::" :: t.tokens) := by
  refine ha.append ?_ ⟨?_, ?_⟩ t.lexes <;> cases t <;> simp [PgType.sql, Delim]

/-- A word after a blank. -/
theorem Lexes.blank {a b : List Char} {ts us : List Token} (ha : Lexes a ts) (hb : Lexes b us)
    (hstart : ∃ c cs, b = c :: cs ∧ isBlank c = false) : Lexes (a ++ ' ' :: b) (ts ++ us) := by
  obtain ⟨c, cs, rfl, hc⟩ := hstart
  have hblank : run .start " ".toList = ([], .start) := run_frame (by simp [fixedTexts])
  exact ha.append (.inr ⟨rfl, hc⟩) (by simp) (Lexes.after hblank hb)

/-- A text in parentheses behind a text that lexes. -/
theorem Lexes.applied {a b : List Char} {ts us : List Token} (ha : Lexes a ts) (hb : Lexes b us) :
    Lexes (a ++ '(' :: (b ++ [')'])) (ts ++ .sym "(" :: (us ++ [.sym ")"])) := by
  have hend : Lexes ")".toList [.sym ")"] := lexes_tail (by simp [endings])
  have hclose : Lexes (b ++ [')']) (us ++ [.sym ")"]) := hb.append (by simp [Delim]) (by simp) hend
  have hopen : Lexes (['('] ++ (b ++ [')'])) ([.sym "("] ++ (us ++ [.sym ")"])) :=
    Lexes.after (by decide) hclose
  refine ha.append ?_ (by simp) hopen
  cases b <;> simp [Delim]

/-- **The text of a scalar expression reads as its tokens.** -/
theorem Scalar.lexes (s : Scalar) : Lexes s.text.toList s.tokens := by
  induction s with
  | column table name =>
    cases table with
    | none => exact lexes_quoteIdent name
    | some table => exact table.lexes_column name
  | param index => simpa [Scalar.tokens, Scalar.marks, Nat.toList_repr] using lexes_param index
  | lit value => exact lexes_stringConstant value
  | str value => exact lexes_stringConstant value
  | number negative magnitude type =>
    have hcast := (lexes_decimal magnitude).cast type
    cases negative with
    | false =>
      simpa [Scalar.tokens, Scalar.marks, Literal.tokens] using hcast
    | true =>
      obtain ⟨c, cs, hchars, hdigit, -⟩ := magnitude.chars_eq_cons
      rw [hchars] at hcast
      simpa [Scalar.tokens, Scalar.marks, Literal.tokens, hchars] using hcast.minus hdigit
  | bool value =>
    have htrue : Lexes "true".toList [.word "true"] := lexes_tail (by simp [endings])
    have hfalse : Lexes "false".toList [.word "false"] := lexes_tail (by simp [endings])
    cases value with
    | true => exact htrue
    | false => exact hfalse
  | now =>
    have h : Lexes "now()".toList [.word "now", .sym "(", .sym ")"] := lexes_tail (by simp [endings])
    exact h
  | call schema name =>
    have hcall : Lexes "()".toList [.sym "(", .sym ")"] := lexes_tail (by simp [endings])
    have h := (lexes_dotted schema name).append (by simp [Delim]) (by simp) hcall
    simpa [Scalar.tokens, Scalar.marks] using h
  | callWith schema name argument ih =>
    have h := (lexes_dotted schema name).applied ih
    simpa [Scalar.tokens, Scalar.marks] using h
  | setting name =>
    have htail : Lexes ", true)".toList [.sym ",", .word "true", .sym ")"] :=
      lexes_tail (by simp [endings])
    have hhead : run .start "current_setting(".toList =
        ([.word "current_setting", .sym "("], .start) :=
      run_frame (by simp [fixedTexts])
    have h := Lexes.after hhead
      ((lexes_stringConstant name).append (by simp [Delim]) (by simp) htail)
    simpa [Scalar.tokens, Scalar.marks] using h
  | cast inner type ih => simpa [Scalar.tokens, Scalar.marks] using ih.cast type
  | concat left right ihl ihr =>
    have hmid : run .start " || ".toList = ([.sym "||"], .start) :=
      run_frame (by simp [fixedTexts])
    have h := ihl.between (by simp [Delim, isBlank]) (by simp) hmid ihr
    simpa [Scalar.tokens, Scalar.marks] using h

theorem reads_stringConstant (v : String) : Reads (stringConstant v) [] :=
  ⟨_, lexes_stringConstant v, rfl⟩

theorem reads_quoteIdent (v : String) : Reads (quoteIdent v) [] := ⟨_, lexes_quoteIdent v, rfl⟩

/-- A text, a blank and an alias. -/
theorem Reads.aliased {a : String} {ps : List Nat} (ha : Reads a ps) (i : Ident) :
    Reads (a ++ " " ++ i.name) ps := by
  obtain ⟨ts, hts, rfl⟩ := ha
  refine ⟨ts ++ [.word i.name], ?_, by simp⟩
  obtain ⟨c, cs, hname, hc, -⟩ := i.exists_toList
  have h := hts.blank i.lexes ⟨c, cs, hname, isBlank_of_isIdentStart hc⟩
  simpa using h

theorem CmpOp.run_eq (op : CmpOp) :
    run .start (' ' :: (op.sql.toList ++ [' '])) = ([.sym op.sql], .start) := by
  cases op <;> decide

theorem Lexes.closed {b : List Char} {us : List Token} (hb : Lexes b us) :
    Lexes (b ++ [')']) (us ++ [.sym ")"]) := by
  have hend : Lexes ")".toList [.sym ")"] := lexes_tail (by simp [endings])
  exact hb.append (by simp [Delim]) (by simp) hend

/-- **The text of a boolean expression reads as its tokens**, for every value in its slots and
every name in its frame. -/
theorem Pred.lexes (p : Pred) : Lexes p.text.toList p.tokens := by
  have hopen : run .start "(".toList = ([.sym "("], .start) := run_frame (by simp [fixedTexts])
  have hand : run .start " and ".toList = ([.word "and"], .start) :=
      run_frame (by simp [fixedTexts])
  have hor : run .start " or ".toList = ([.word "or"], .start) :=
      run_frame (by simp [fixedTexts])
  induction p with
  | true =>
    have h : Lexes "true".toList [.word "true"] := lexes_tail (by simp [endings])
    exact h
  | isNull value =>
    have htail : Lexes " is null".toList [.word "is", .word "null"] :=
      lexes_tail (by simp [endings])
    have h := value.lexes.append (by simp [Delim, isBlank]) (by simp) htail
    simpa [Pred.tokens, Pred.marks, Scalar.tokens] using h
  | isNotNull value =>
    have htail : Lexes " is not null".toList [.word "is", .word "not", .word "null"] :=
      lexes_tail (by simp [endings])
    have h := value.lexes.append (by simp [Delim, isBlank]) (by simp) htail
    simpa [Pred.tokens, Pred.marks, Scalar.tokens] using h
  | compare left op right =>
    have h := left.lexes.between (by cases op <;> simp [Delim, CmpOp.sql, isBlank])
      (by cases op <;> simp [CmpOp.sql]) op.run_eq right.lexes
    simpa [Pred.tokens, Pred.marks, Scalar.tokens] using h
  | ilike negated left pattern =>
    have htail : Lexes " escape '\\'".toList [.word "escape", .str "\\"] :=
      lexes_tail (by simp [endings])
    have hpattern := pattern.lexes.append (by simp [Delim, isBlank]) (by simp) htail
    cases negated with
    | false =>
      have hmid : run .start " ilike ".toList = ([.word "ilike"], .start) :=
      run_frame (by simp [fixedTexts])
      have h := left.lexes.between (by simp [Delim, isBlank]) (by simp) hmid hpattern
      simpa [Pred.tokens, Pred.marks, Scalar.tokens] using h
    | true =>
      have hmid : run .start " not ilike ".toList = ([.word "not", .word "ilike"], .start) :=
      run_frame (by simp [fixedTexts])
      have h := left.lexes.between (by simp [Delim, isBlank]) (by simp) hmid hpattern
      simpa [Pred.tokens, Pred.marks, Scalar.tokens] using h
  | eqAny left array =>
    have hmid : run .start " = any(".toList = ([.sym "=", .word "any", .sym "("], .start) :=
      run_frame (by simp [fixedTexts])
    have h := left.lexes.between (by simp [Delim, isBlank]) (by simp) hmid array.lexes.closed
    simpa [Pred.tokens, Pred.marks, Scalar.tokens] using h
  | not inner ih =>
    have hmid : run .start "not (".toList = ([.word "not", .sym "("], .start) :=
      run_frame (by simp [fixedTexts])
    have h := Lexes.after hmid ih.closed
    simpa [Pred.tokens, Pred.marks] using h
  | and left right ihl ihr =>
    have h := Lexes.after hopen (ihl.between (by simp [Delim, isBlank]) (by simp) hand ihr).closed
    simpa [Pred.tokens, Pred.marks] using h
  | or left right ihl ihr =>
    have h := Lexes.after hopen (ihl.between (by simp [Delim, isBlank]) (by simp) hor ihr).closed
    simpa [Pred.tokens, Pred.marks] using h
  | guarded guard inner ihg ihi =>
    have hmid : run .start " and (".toList = ([.word "and", .sym "("], .start) :=
      run_frame (by simp [fixedTexts])
    have h := ihg.between (by simp [Delim, isBlank]) (by simp) hmid ihi.closed
    simpa [Pred.tokens, Pred.marks] using h
  | existsIn table row join inner ihj ihi =>
    have hhead : run .start "exists (select 1 from ".toList =
        ([.word "exists", .sym "(", .word "select", .num "1", .word "from"], .start) :=
      run_frame (by simp [fixedTexts])
    have hwhere : run .start " where ".toList = ([.word "where"], .start) :=
      run_frame (by simp [fixedTexts])
    have hbody := (ihj.between (by simp [Delim, isBlank]) (by simp) hand ihi).closed
    have hrow := row.lexes.between (by simp [Delim, isBlank]) (by simp) hwhere hbody
    have hstart : ∃ c cs, row.name.toList ++ (" where ".toList ++ (join.text.toList ++
        (" and ".toList ++ inner.text.toList) ++ [')'])) = c :: cs ∧ isBlank c = false := by
      obtain ⟨c, cs, hname, hc, -⟩ := row.exists_toList
      exact ⟨c, cs ++ _, by rw [hname, List.cons_append], isBlank_of_isIdentStart hc⟩
    have h := Lexes.after hhead ((lexes_quoteIdent table).blank hrow hstart)
    simpa [Pred.tokens, Pred.marks] using h

end LazyPock.Sql
