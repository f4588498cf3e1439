import LazyPock.Sql.Syntax

/-!
# What SQL expressions evaluate to

Three-valued evaluation of the expressions of `Sql.Syntax`, with a fourth outcome for a
runtime error. An error fails the whole statement, so it wins over every other operand.

A string constant with a cast is converted when the statement is read, a parameter when it is run;
the two moments differ for a policy, whose text is read once and run with every later request.
Collations, case mapping and the text forms of types that the server only passes through are
parameters (`Sql.Postgres`).

## Main definitions

* `Sql.Value`, `Sql.Outcome`.
* `Sql.Postgres`, `Sql.Env`.
* `Sql.inputValue`, `Sql.castValue`, `Sql.numberValue`: conversions.
* `Sql.likeMatch`: `LIKE` with `\` as the escape character.
* `Sql.Scalar.eval`, `Sql.Pred.eval`.
-/

namespace LazyPock

/-- The order of `double precision`: `NaN` equals itself and is above all other numbers. -/
def F64.order (a b : F64) : Ordering :=
  match a, b with
  | nan, nan => .eq
  | nan, _ => .gt
  | _, nan => .lt
  | a, b => compare a.units b.units

namespace Sql

/-! ### Values -/

/-- A value other than `NULL`. -/
inductive Value where
  | text (value : String)
  | bigint (value : Int)
  | double (value : F64)
  | boolean (value : Bool)
  /-- A point in time, in microseconds. -/
  | timestamptz (micros : Int)
  /-- A document, by its canonical text. -/
  | jsonb (canonical : String)
  /-- An array; an element may be `NULL`. -/
  | textArray (elements : List (Option String))
deriving DecidableEq

/-- What an expression evaluates to. -/
inductive Outcome (α : Type) where
  /-- The statement fails. -/
  | error
  | null
  | val (a : α)
deriving DecidableEq

namespace Outcome

variable {α β : Type}

/-- Strict application. -/
def bind : Outcome α → (α → Outcome β) → Outcome β
  | error, _ => error
  | null, _ => null
  | val a, f => f a

/-- A value, or an error where there is none. -/
def orError : Option α → Outcome α
  | some a => val a
  | none => error

def ofOption : Option α → Outcome α
  | some a => val a
  | none => null

/-- A strict function of two operands. -/
def both (f : α → α → Outcome β) : Outcome α → Outcome α → Outcome β
  | error, _ | _, error => error
  | null, _ | _, null => null
  | val a, val b => f a b

def not : Outcome Bool → Outcome Bool
  | val b => val (!b)
  | x => x

def and : Outcome Bool → Outcome Bool → Outcome Bool
  | error, _ | _, error => error
  | val false, _ | _, val false => val false
  | null, _ | _, null => null
  | val true, val true => val true

def or : Outcome Bool → Outcome Bool → Outcome Bool
  | error, _ | _, error => error
  | val true, _ | _, val true => val true
  | null, _ | _, null => null
  | val false, val false => val false

theorem and_eq_true {x y : Outcome Bool} : x.and y = val true ↔ x = val true ∧ y = val true := by
  rcases x with _ | _ | _ | _ <;> rcases y with _ | _ | _ | _ <;> decide

end Outcome

/-- What the server does not fix about the database. -/
structure Postgres where
  /-- The collation, on texts that differ. -/
  textLess : String → String → Bool
  jsonbLess : String → String → Bool
  arrayLess : List (Option String) → List (Option String) → Bool
  /-- `lower`, which `ILIKE` compares by. -/
  lower : String → String
  /-- Spellings of a `bigint` other than a decimal numeral. -/
  otherInt : String → Option Int
  /-- Spellings of a double other than a decimal numeral. -/
  otherDouble : String → Option F64
  /-- The time a text denotes, read at the given time. -/
  timestamptzIn : Int → String → Option Int
  jsonbIn : String → Option String
  arrayIn : String → Option (List (Option String))
  /-- A truth value is no spelling of a number. -/
  otherInt_bool : ∀ s ∈ ["true", "false"], otherInt s = none
  otherDouble_bool : ∀ s ∈ ["true", "false"], otherDouble s = none

def asciiLower (c : Char) : Char := if Text.isAsciiUpper c then Char.ofNat (c.toNat + 32) else c

/-- A database with the `C` collation that knows no text forms but the plain ones. -/
def Postgres.plain : Postgres where
  textLess := fun a b => a < b
  jsonbLess := fun a b => a < b
  arrayLess := fun a b => a.length < b.length
  lower := fun s => String.ofList (s.toList.map asciiLower)
  otherInt := fun _ => none
  otherDouble := fun _ => none
  timestamptzIn := fun _ _ => none
  jsonbIn := fun _ => none
  arrayIn := fun _ => none
  otherInt_bool := fun _ _ => rfl
  otherDouble_bool := fun _ _ => rfl

/-! ### Conversions -/

/-- A decimal numeral with an optional sign. -/
def plainInt (s : String) : Option Int :=
  let digits (cs : List Char) : Option Nat :=
    if cs ≠ [] ∧ cs.all Text.isAsciiDigit then some (Nat.ofDigitChars 10 cs 0) else none
  match (Text.trim s).toList with
  | '-' :: cs => (digits cs).map fun n => -(n : Int)
  | '+' :: cs => (digits cs).map fun n => (n : Int)
  | cs => (digits cs).map fun n => (n : Int)

/-- A `bigint` in its range. -/
def bigintInRange (n : Int) : Option Int := if -2 ^ 63 ≤ n ∧ n < 2 ^ 63 then some n else none

theorem bigintInRange_of_mem {n : Int} (h : -2 ^ 63 ≤ n ∧ n < 2 ^ 63) :
    bigintInRange n = some n := if_pos h

theorem bigintInRange_of_notMem {n : Int} (h : ¬ (-2 ^ 63 ≤ n ∧ n < 2 ^ 63)) :
    bigintInRange n = none := if_neg h

def int8in (pg : Postgres) (s : String) : Option Int :=
  match plainInt s with
  | some n => bigintInRange n
  | none => pg.otherInt s

/-- A double as a conversion accepts it: an overflow is an error. -/
def doubleInRange : F64 → Option F64
  | .inf _ => none
  | x => some x

def float8in (pg : Postgres) (s : String) : Option F64 :=
  match F64.parse s.toList with
  | some x => doubleInRange x
  | none => pg.otherDouble s

/-- The spellings of the two truth values: unambiguous abbreviations, in any case. -/
def trueWords : List String := ["t", "tr", "tru", "true", "y", "ye", "yes", "on", "1"]

def falseWords : List String := ["f", "fa", "fal", "fals", "false", "n", "no", "of", "off", "0"]

def boolin (s : String) : Option Bool :=
  let word := String.ofList ((Text.trim s).toList.map asciiLower)
  if word ∈ trueWords then some true else if word ∈ falseWords then some false else none

/-- The value of a type that a text denotes, read at the time `clock`. -/
def inputValue (pg : Postgres) (clock : Int) (type : PgType) (s : String) : Outcome Value :=
  match type with
  | .text => .val (.text s)
  | .bigint => .orError ((int8in pg s).map .bigint)
  | .doublePrecision => .orError ((float8in pg s).map .double)
  | .boolean => .orError ((boolin s).map .boolean)
  | .timestamptz => .orError ((pg.timestamptzIn clock s).map .timestamptz)
  | .jsonb => .orError ((pg.jsonbIn s).map .jsonb)
  | .textArray => .orError ((pg.arrayIn s).map .textArray)

/-- A conversion at run time. The server converts texts and truth values only. -/
def castValue (pg : Postgres) (clock : Int) (type : PgType) : Value → Outcome Value
  | .text s => inputValue pg clock type s
  | .boolean b =>
    match type with
    | .boolean => .val (.boolean b)
    | .text => .val (.text (if b then "true" else "false"))
    | _ => .error
  | _ => .error

/-- A decimal rounded to an integer, halves away from zero. -/
def roundHalfUp (d : Decimal) : Nat :=
  match d.frac with
  | [] => d.int
  | digit :: _ => if 5 ≤ digit.val then d.int + 1 else d.int

/-- A numeric constant converted to a type. An integer constant of up to 31 bits is an `integer`,
the only numeric type that converts to a truth value. -/
def numberValue (pg : Postgres) (d : Decimal) : PgType → Outcome Value
  | .text => .val (.text d.text)
  | .bigint => .orError ((bigintInRange (roundHalfUp d)).map .bigint)
  | .doublePrecision => .orError ((float8in pg d.text).map .double)
  | .boolean => if d.frac = [] ∧ d.int < 2 ^ 31 then .val (.boolean (d.int ≠ 0)) else .error
  | _ => .error

/-- The unary minus. -/
def negateValue : Value → Outcome Value
  | .bigint n => .val (.bigint (-n))
  | .double x => .val (.double x.neg)
  | _ => .error

/-! ### Comparisons -/

/-- The order of two values that differ. -/
def orderBy {α : Type} [DecidableEq α] (less : α → α → Bool) (a b : α) : Ordering :=
  if a = b then .eq else if less a b then .lt else .gt

/-- The order of two values of one type; there is none for values of different types. -/
def Value.order (pg : Postgres) : Value → Value → Option Ordering
  | .text a, .text b => some (orderBy pg.textLess a b)
  | .bigint a, .bigint b => some (compare a b)
  | .double a, .double b => some (a.order b)
  | .boolean a, .boolean b => some (compare a b)
  | .timestamptz a, .timestamptz b => some (compare a b)
  | .jsonb a, .jsonb b => some (orderBy pg.jsonbLess a b)
  | .textArray a, .textArray b => some (orderBy pg.arrayLess a b)
  | _, _ => none

def CmpOp.holds : CmpOp → Ordering → Bool
  | eq, o => o = .eq
  | ne, o => o ≠ .eq
  | gt, o => o = .gt
  | ge, o => o ≠ .lt
  | lt, o => o = .lt
  | le, o => o ≠ .gt

def compareValues (pg : Postgres) (op : CmpOp) (a b : Value) : Outcome Bool :=
  .orError ((a.order pg b).map op.holds)

/-- Whether a text matches a pattern; nothing when the pattern ends in its escape character. -/
def likeMatch : List Char → List Char → Option Bool
  | [], s => some s.isEmpty
  | '%' :: p, s => s.tails.foldr (fun t rest =>
      match likeMatch p t with
      | none => none
      | some true => some true
      | some false => rest) (some false)
  | '_' :: p, _ :: s => likeMatch p s
  | ['\\'], _ :: _ => none
  | '\\' :: c :: p, d :: s => if c = d then likeMatch p s else some false
  | c :: p, d :: s => if c = d then likeMatch p s else some false
  | _ :: _, [] => some false

def ilikeValues (pg : Postgres) (negated : Bool) (a b : Value) : Outcome Bool :=
  match a, b with
  | .text s, .text p =>
    .orError ((likeMatch (pg.lower p).toList (pg.lower s).toList).map fun r => r != negated)
  | _, _ => .error

/-- `element = any(array)`: of no element it is false, whatever is compared. -/
def eqAnyValues (element array : Outcome Value) : Outcome Bool :=
  match element, array with
  | .error, _ | _, .error => .error
  | _, .null => .null
  | .null, .val (.textArray elements) => if elements = [] then .val false else .null
  | .val (.text s), .val (.textArray elements) =>
    if some s ∈ elements then .val true else if none ∈ elements then .null else .val false
  | _, _ => .error

def concatValues (a b : Value) : Outcome Value :=
  match a, b with
  | .text s, .text t => .val (.text (s ++ t))
  | _, _ => .error

/-! ### Evaluation -/

/-- The columns of a row. -/
abbrev Row := String → Option Value

/-- What an expression is evaluated in. -/
structure Env where
  pg : Postgres
  /-- The row a column reference reads, by its qualifier. -/
  scope : Option Ref → Row
  /-- The rows of the tables. -/
  tables : String → List Row
  /-- The bind parameters, all sent as text. -/
  params : List String
  /-- `current_setting(name, true)`. -/
  setting : String → Option String
  /-- The functions of the database, by schema and name. -/
  call : String → String → List (Outcome Value) → Outcome Value
  /-- `now()`: the start of the transaction. -/
  now : Int
  /-- When the text of the expression was read. -/
  readAt : Int

def Scalar.eval (env : Env) : Scalar → Outcome Value
  | column table name => .ofOption (env.scope table name)
  | param index => .orError ((env.params[index - 1]?).map .text)
  | lit value | str value => .val (.text value)
  | number negative magnitude type =>
    let value := numberValue env.pg magnitude type
    if negative then value.bind negateValue else value
  | bool value => .val (.boolean value)
  | now => .val (.timestamptz env.now)
  | call schema name => env.call schema.name name.name []
  | callWith schema name argument => env.call schema.name name.name [argument.eval env]
  | setting name => .ofOption ((env.setting name).map .text)
  | cast (lit value) type | cast (str value) type => inputValue env.pg env.readAt type value
  | cast inner type => (inner.eval env).bind (castValue env.pg env.now type)
  | concat left right => Outcome.both concatValues (left.eval env) (right.eval env)

/-- The environment inside a subquery, at one of its rows. -/
def Env.bindRow (env : Env) (table : Ident) (row : Row) : Env :=
  { env with scope := fun ref => if ref = some (.bare table) then row else env.scope ref }

def Pred.eval (env : Env) : Pred → Outcome Bool
  | true => .val Bool.true
  | isNull value => (match value.eval env with
    | .error => .error
    | .null => .val Bool.true
    | .val _ => .val false)
  | isNotNull value => (match value.eval env with
    | .error => .error
    | .null => .val false
    | .val _ => .val Bool.true)
  | compare left op right =>
    Outcome.both (compareValues env.pg op) (left.eval env) (right.eval env)
  | ilike negated left pattern =>
    Outcome.both (ilikeValues env.pg negated) (left.eval env) (pattern.eval env)
  | eqAny left array => eqAnyValues (left.eval env) (array.eval env)
  | not inner => (inner.eval env).not
  | and left right => (left.eval env).and (right.eval env)
  | or left right => (left.eval env).or (right.eval env)
  | guarded guard inner => (guard.eval env).and (inner.eval env)
  | existsIn table row join inner =>
    (env.tables table).foldr (fun r rest =>
      match (join.eval (env.bindRow row r)).and (inner.eval (env.bindRow row r)) with
      | .error => .error
      | .val Bool.true => .val Bool.true
      | _ => rest) (.val false)

end Sql

end LazyPock
