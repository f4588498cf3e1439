import LazyPock.Core.Error
import LazyPock.Sql.Syntax
import Mathlib.Tactic.IntervalCases

/-!
# Pagination

Offset pages and keyset cursors (`crates/db/src/query/pagination.rs`). A cursor is a token over
`(created, id)`: the microseconds since the epoch in hexadecimal, a point and the record id.

## Main definitions

* `PageRequest`, `Cursor`, `Page`.
* `Cursor.fromTime`, `Cursor.encode`, `Cursor.decode`.
* `Cursor.predicate`: the `where` fragment behind a cursor.
* `Page.fromParams`.

## Main results

* `Cursor.decode_encode`: which cursors survive a round trip through their token.
-/

namespace LazyPock

open Text

/-! ### Offset pages -/

/-- `DEFAULT_PER_PAGE` -/
def defaultPerPage : Nat := 30

/-- `MAX_PER_PAGE` -/
def maxPerPage : Nat := 500

/-- Offset pagination. -/
structure PageRequest where
  /-- 1-based page number. -/
  page : Nat
  /-- Rows per page. -/
  perPage : Nat
  /-- Skip the `count(*)` when the client does not need the total. -/
  skipTotal : Bool
deriving DecidableEq

namespace PageRequest

/-- Validate and build an offset page request. -/
def new (page perPage : Option Nat) (skipTotal : Bool) : Result PageRequest := do
  let page := page.getD 1
  failIf (page = 0) (.invalid "page must be at least 1")
  let perPage := perPage.getD defaultPerPage
  failIf (perPage = 0) (.invalid "perPage must be at least 1")
  failIf (maxPerPage < perPage)
    (.invalid ("perPage must be at most " ++ toString maxPerPage))
  .ok ⟨page, perPage, skipTotal⟩

/-- SQL `offset`. -/
def offset (request : PageRequest) : Nat := (request.page - 1) * request.perPage

theorem new_none_some {perPage : Nat} (h₁ : 1 ≤ perPage) (h₂ : perPage ≤ maxPerPage)
    (skipTotal : Bool) : new none (some perPage) skipTotal = .ok ⟨1, perPage, skipTotal⟩ := by
  have hzero : ¬ perPage = 0 := by omega
  have hmax : ¬ maxPerPage < perPage := by omega
  simp [new, failIf, hzero, hmax, bind, Except.bind]

end PageRequest

/-! ### Cursors -/

/-- `MAX_CURSOR_ID_LEN` -/
def maxCursorIdLen : Nat := 64

/-- `value as i64`: the low 64 bits, read with a sign. -/
def toI64 (n : Int) : Int := Int.bmod n (2 ^ 64)

/-- `{:x}` of an `i64`. -/
def hexI64 (n : Int) : List Char := Nat.toDigits 16 (n % 2 ^ 64).toNat

/-- The value of a hexadecimal digit. -/
def hexValue (c : Char) : Option Nat :=
  if isAsciiDigit c then some (c.toNat - '0'.toNat)
  else if 'a' ≤ c ∧ c ≤ 'f' then some (c.toNat - 'a'.toNat + 10)
  else if 'A' ≤ c ∧ c ≤ 'F' then some (c.toNat - 'A'.toNat + 10)
  else none

/-- The value of a run of hexadecimal digits behind `acc`. -/
@[grind =]
def hexDigits (acc : Nat) : List Char → Option Nat
  | [] => some acc
  | c :: cs => (hexValue c).bind fun d => hexDigits (acc * 16 + d) cs

/-- `i64::from_str_radix(_, 16)`: an optional sign, at least one digit, no overflow. -/
def parseHexI64 (cs : List Char) : Option Int :=
  let (negative, digits) := match cs with
    | '-' :: rest => (true, rest)
    | '+' :: rest => (false, rest)
    | _ => (false, cs)
  if digits = [] then none
  else (hexDigits 0 digits).bind fun n =>
    let value : Int := if negative then -n else n
    if -2 ^ 63 ≤ value ∧ value < 2 ^ 63 then some value else none

/-- A keyset position over `(created, id)`. -/
structure Cursor where
  /-- `created` as microseconds since the Unix epoch. -/
  createdMicros : Int
  /-- Tie-breaker record id. -/
  id : String
deriving DecidableEq

namespace Cursor

/-- Build a cursor from a timestamp, in microseconds. -/
def fromTime (created : Int) (id : String) : Result Cursor :=
  if created < 0 then .error (.invalid "record timestamp predates the Unix epoch")
  else .ok ⟨toI64 created, id⟩

/-- Render the opaque token. -/
def encode (cursor : Cursor) : String :=
  String.ofList (hexI64 cursor.createdMicros) ++ "." ++ cursor.id

/-- Parse a token. -/
def decode (raw : String) : Result Cursor := do
  let raw := trim raw
  failIf (raw = "") (.invalid "the pagination cursor is empty")
  let (micros, id) ← okOr (.invalid "the pagination cursor is malformed") (splitOnce '.' raw)
  let createdMicros ←
    okOr (.invalid "the pagination cursor is malformed") (parseHexI64 micros.toList)
  failIf (id = "" ∨ maxCursorIdLen < byteLen id ∨ id.toList.any isControl)
    (.invalid "the pagination cursor does not hold a valid record id")
  .ok ⟨createdMicros, id⟩

/-- The `where` fragment selecting the rows strictly behind this cursor. -/
def predicate (cursor : Cursor) (row : Sql.Ident) (params : List String) : String × List String :=
  let params := params ++ [toString cursor.createdMicros]
  let timestampIndex := params.length
  let params := params ++ [cursor.id]
  let idIndex := params.length
  ("(" ++ row.name ++ ".\"created\", " ++ row.name ++ ".\"id\") < (to_timestamp($" ++
    toString timestampIndex ++ "::text::bigint / 1000000.0), $" ++ toString idIndex ++ "::text)",
    params)

/-! ### Tokens -/

theorem hexDigits_append (acc : Nat) (cs ds : List Char) :
    hexDigits acc (cs ++ ds) = (hexDigits acc cs).bind fun n => hexDigits n ds := by
  induction cs generalizing acc with
  | nil => rfl
  | cons c cs ih =>
    simp only [List.cons_append, hexDigits, ih]
    cases hexValue c <;> rfl

theorem hexValue_digitChar {d : Nat} (h : d < 16) : hexValue (Nat.digitChar d) = some d := by
  interval_cases d <;> rfl

theorem hexDigits_toDigits (n : Nat) : hexDigits 0 (Nat.toDigits 16 n) = some n := by
  induction n using Nat.strong_induction_on with
  | _ n ih =>
    by_cases hn : n < 16
    · rw [Nat.toDigits_of_lt_base hn]
      simp [hexDigits, hexValue_digitChar hn]
    · rw [Nat.toDigits_of_base_le (by decide) (by omega), hexDigits_append,
        ih (n / 16) (by omega)]
      simp only [Option.bind_some, hexDigits, hexValue_digitChar (Nat.mod_lt n (by decide)),
        Option.some.injEq]
      omega

/-- The digits of a number are letters and digits. -/
theorem isAsciiAlphanumeric_of_mem_toDigits {n : Nat} {c : Char} (hc : c ∈ Nat.toDigits 16 n) :
    isAsciiAlphanumeric c = true := by
  have hdigit : ∀ d, d < 16 → isAsciiAlphanumeric (Nat.digitChar d) = true := by decide
  induction n using Nat.strong_induction_on with
  | _ n ih =>
    by_cases hn : n < 16
    · rw [Nat.toDigits_of_lt_base hn, List.mem_singleton] at hc
      rw [hc]
      exact hdigit n hn
    · rw [Nat.toDigits_of_base_le (by decide) (by omega), List.mem_append,
        List.mem_singleton] at hc
      rcases hc with hc | rfl
      · exact ih (n / 16) (by omega) hc
      · exact hdigit _ (Nat.mod_lt n (by decide))

theorem parseHexI64_toDigits (n : Nat) :
    parseHexI64 (Nat.toDigits 16 n) = if n < 2 ^ 63 then some (n : Int) else none := by
  have hsign : ∀ c cs, Nat.toDigits 16 n = c :: cs → c ≠ '-' ∧ c ≠ '+' := by
    intro c cs hcons
    have hc : isAsciiAlphanumeric c = true :=
      isAsciiAlphanumeric_of_mem_toDigits (by rw [hcons]; exact List.mem_cons_self)
    constructor
    · rintro rfl
      exact absurd hc (by decide)
    · rintro rfl
      exact absurd hc (by decide)
  have hdigits : parseHexI64 (Nat.toDigits 16 n) =
      (hexDigits 0 (Nat.toDigits 16 n)).bind fun n : Nat =>
        if -2 ^ 63 ≤ (n : Int) ∧ (n : Int) < 2 ^ 63 then some (n : Int) else none := by
    obtain ⟨c, cs, hcons⟩ := List.exists_cons_of_ne_nil (Nat.toDigits_ne_nil (n := n) (b := 16))
    obtain ⟨hminus, hplus⟩ := hsign c cs hcons
    rw [hcons]
    unfold parseHexI64
    split
    · rename_i heq
      split at heq
      · rename_i h
        exact absurd (List.cons.inj h).1 hminus
      · rename_i h
        exact absurd (List.cons.inj h).1 hplus
      · obtain ⟨rfl, rfl⟩ := Prod.mk.inj heq
        rfl
  rw [hdigits, hexDigits_toDigits, Option.bind_some]
  by_cases hn : n < 2 ^ 63
  · rw [if_pos hn, if_pos (by omega)]
  · rw [if_neg hn, if_neg (by omega)]

theorem hexI64_toI64 {n : Nat} (h : n < 2 ^ 64) : hexI64 (toI64 n) = Nat.toDigits 16 n := by
  have hpow : ((2 ^ 64 : Nat) : Int) = 2 ^ 64 := by norm_num
  have hmod : Int.bmod (n : Int) (2 ^ 64) % 2 ^ 64 = n := by
    rw [← hpow, Int.bmod_emod, Int.emod_eq_of_lt (Int.natCast_nonneg n) (by omega)]
  rw [hexI64, toI64, hmod, Int.toNat_natCast]

section Tokens

variable {n : Nat} {id : String} (hid : isValidId id = true) (hlt : n < 2 ^ 64)

theorem toList_encode (hlt : n < 2 ^ 64) :
    (encode ⟨toI64 n, id⟩).toList = Nat.toDigits 16 n ++ '.' :: id.toList := by
  simp [encode, hexI64_toI64 hlt]

include hid hlt

theorem trim_encode : trim (encode ⟨toI64 n, id⟩) = encode ⟨toI64 n, id⟩ := by
  refine trim_of_forall fun c hc => ?_
  rw [toList_encode hlt, List.mem_append, List.mem_cons] at hc
  rcases hc with hc | rfl | hc
  · exact isWhitespace_of_isAsciiAlphanumeric (isAsciiAlphanumeric_of_mem_toDigits hc)
  · decide
  · exact isWhitespace_of_isAsciiAlphanumeric (isAsciiAlphanumeric_of_isValidId hid hc)

omit hid in
theorem splitOnce_encode : splitOnce '.' (encode ⟨toI64 n, id⟩) =
    some (String.ofList (Nat.toDigits 16 n), id) := by
  have hdot : '.' ∉ Nat.toDigits 16 n := fun hdot =>
    absurd (isAsciiAlphanumeric_of_mem_toDigits hdot) (by decide)
  rw [splitOnce, toList_encode hlt, splitOnceChars_append hdot]
  simp

omit hid in
theorem encode_ne_empty : encode ⟨toI64 n, id⟩ ≠ "" := by
  intro h
  have hlist : (encode ⟨toI64 n, id⟩).toList = _ := toList_encode hlt
  rw [h] at hlist
  simp at hlist

/-- **Which tokens the server reads back.** A cursor behind a record is read back as it was, unless
its time has no place in an `i64`. -/
theorem decode_encode :
    decode (encode ⟨toI64 n, id⟩) =
      if n < 2 ^ 63 then .ok ⟨n, id⟩
      else .error (.invalid "the pagination cursor is malformed") := by
  have hvalid : ¬ (id = "" ∨ maxCursorIdLen < byteLen id ∨ id.toList.any isControl = true) := by
    have hlen := byteLen_of_isValidId hid
    rintro (rfl | hlong | hcontrol)
    · exact absurd hlen (by decide)
    · rw [hlen] at hlong
      exact absurd hlong (by decide)
    · obtain ⟨c, hc, hctl⟩ := List.any_eq_true.mp hcontrol
      rw [isControl_of_isAsciiAlphanumeric (isAsciiAlphanumeric_of_isValidId hid hc)] at hctl
      exact absurd hctl (by decide)
  have hparse := parseHexI64_toDigits n
  have hne : encode ⟨toI64 n, id⟩ ≠ "" := encode_ne_empty hlt
  have hsplit : splitOnce '.' (encode ⟨toI64 n, id⟩) = _ := splitOnce_encode hlt
  unfold decode
  rw [trim_encode hid hlt]
  simp only [failIf, if_neg hne]
  rw [hsplit, okOr_some]
  by_cases hn : n < 2 ^ 63
  · rw [if_pos hn] at hparse ⊢
    simp only [bind, Except.bind, String.toList_ofList, hparse, okOr_some]
    rw [if_neg hvalid]
  · rw [if_neg hn] at hparse ⊢
    simp only [bind, Except.bind, String.toList_ofList, hparse, okOr_none]

end Tokens

end Cursor

/-- How a listing is paged. -/
inductive Page where
  /-- `page` / `perPage`. -/
  | offset (request : PageRequest)
  /-- Keyset paging: the position to continue from, and the rows to return. -/
  | keyset (after : Option Cursor) (limit : Nat)
deriving DecidableEq

namespace Page

/-- Resolve the pagination from request parameters. -/
def fromParams (page perPage : Option Nat) (skipTotal : Bool) (after : Option String) :
    Result Page :=
  match after with
  | some raw => do
    failIf page.isSome (.invalid
      "`page` and `after` cannot be combined; keyset paging continues from `after`")
    let request ← PageRequest.new none perPage skipTotal
    let after ← if trim raw = "" then .ok none else some <$> Cursor.decode raw
    .ok (.keyset after request.perPage)
  | none => do
    let request ← PageRequest.new page perPage skipTotal
    .ok (.offset request)

/-- SQL `limit`. -/
def limit : Page → Nat
  | offset request => request.perPage
  | keyset _ limit => limit

/-- SQL `offset`. -/
def offsetRows : Page → Nat
  | offset request => request.offset
  | keyset _ _ => 0

/-- The cursor a listing continues from. -/
def after? : Page → Option Cursor
  | offset _ => none
  | keyset after _ => after

end Page

end LazyPock
