import LazyPock.Core.Text

/-!
# Double-precision numbers

`f64` as the server uses it: reading a decimal literal (correctly rounded, ties to even), comparing,
testing for a fraction and printing the shortest decimal that reads back as the same number, never
in exponent form. A finite number is `± mantissa · 2 ^ exponent` with a 53-bit mantissa.

## Main definitions

* `Decimal`: an unsigned decimal numeral, an integer part and the digits of its fraction.
* `F64`: a double; `F64.ofRatio` rounds a ratio of naturals, `F64.parse` reads a literal.
* `F64.decimal`, `F64.display`: what `{}` prints.
-/

namespace LazyPock

/-! ### Decimal numerals -/

/-- An unsigned decimal numeral: `int` followed, when `frac` is not empty, by a point and `frac`. -/
structure Decimal where
  int : Nat
  frac : List (Fin 10)
deriving DecidableEq, Repr

namespace Decimal

def digitChar (d : Fin 10) : Char := Nat.digitChar d.val

def chars (d : Decimal) : List Char :=
  Nat.toDigits 10 d.int ++ if d.frac = [] then [] else '.' :: d.frac.map digitChar

def text (d : Decimal) : String := String.ofList d.chars

@[simp] theorem toList_text (d : Decimal) : d.text.toList = d.chars := by simp [text]

theorem chars_of_frac_nil {d : Decimal} (h : d.frac = []) : d.chars = Nat.toDigits 10 d.int := by
  simp [chars, h]

theorem isAsciiDigit_digitChar (d : Fin 10) : Text.isAsciiDigit (digitChar d) = true := by
  revert d
  decide

/-- A numeral starts with a digit and holds only digits and points. -/
theorem chars_eq_cons (d : Decimal) :
    ∃ c cs, d.chars = c :: cs ∧ Text.isAsciiDigit c = true ∧
      ∀ x ∈ cs, Text.isAsciiDigit x || x = '.' := by
  obtain ⟨c, cs, hdigits⟩ : ∃ c cs, Nat.toDigits 10 d.int = c :: cs :=
    List.exists_cons_of_ne_nil Nat.toDigits_ne_nil
  have hmem : ∀ x ∈ c :: cs, Text.isAsciiDigit x = true := fun x hx =>
    Text.isAsciiDigit_of_mem_toDigits (hdigits ▸ hx)
  refine ⟨c, cs ++ if d.frac = [] then [] else '.' :: d.frac.map digitChar, ?_,
    hmem c (by simp), ?_⟩
  · rw [chars, hdigits, List.cons_append]
  · intro x hx
    rcases List.mem_append.mp hx with hx | hx
    · simp [hmem x (List.mem_cons_of_mem _ hx)]
    · split at hx
      · simp at hx
      · rcases List.mem_cons.mp hx with rfl | hx
        · simp
        · obtain ⟨y, -, rfl⟩ := List.mem_map.mp hx
          simp [isAsciiDigit_digitChar]

theorem mem_chars {d : Decimal} {c : Char} (h : c ∈ d.chars) :
    Text.isAsciiDigit c = true ∨ c = '.' := by
  obtain ⟨c', cs, hchars, hfirst, hrest⟩ := d.chars_eq_cons
  rw [hchars] at h
  rcases List.mem_cons.mp h with rfl | h
  · exact .inl hfirst
  · simpa using hrest c h

/-- The numeral of `digits · 10 ^ (-scale)`, trailing zeros of the fraction left out. -/
def ofScaled (digits scale : Nat) : Decimal where
  int := digits / 10 ^ scale
  frac :=
    let rest := digits % 10 ^ scale
    (((List.range scale).map fun i => Fin.ofNat 10 (rest / 10 ^ i)).dropWhile (· = 0)).reverse

end Decimal

/-! ### Doubles -/

/-- A double. -/
inductive F64 where
  /-- `± mantissa · 2 ^ exponent`. -/
  | finite (neg : Bool) (mantissa : Nat) (exponent : Int)
  | inf (neg : Bool)
  | nan
deriving DecidableEq, Repr

namespace F64

def isFinite : F64 → Bool
  | finite .. => true
  | _ => false

/-- Division rounded to the nearest integer, ties to even. -/
def divRound (num den : Nat) : Nat :=
  let q := num / den
  let r := num % den
  if den < 2 * r || (2 * r == den && q % 2 == 1) then q + 1 else q

/-- The double nearest to `± num / den`, for `0 < den`. -/
def ofRatio (neg : Bool) (num den : Nat) : F64 :=
  if num = 0 then finite neg 0 (-1074)
  else
    let guess : Int := (Nat.log2 num : Int) - Nat.log2 den
    -- `2 ^ guess` is within a factor two of the ratio; `low` is the binary exponent itself.
    let below := if 0 ≤ guess then num < den * 2 ^ guess.toNat else num * 2 ^ (-guess).toNat < den
    let low : Int := if below then guess - 1 else guess
    let e : Int := max (-1074) (low - 52)
    let m := if 0 ≤ e then divRound num (den * 2 ^ e.toNat) else divRound (num * 2 ^ (-e).toNat) den
    let (m, e) := if m = 2 ^ 53 then (2 ^ 52, e + 1) else (m, e)
    if 971 < e then inf neg else finite neg m e

/-- The double with the sign changed. -/
def neg : F64 → F64
  | finite s m e => finite (!s) m e
  | inf s => inf (!s)
  | nan => nan

theorem ofRatio_true (num den : Nat) : ofRatio true num den = (ofRatio false num den).neg := by
  unfold ofRatio
  by_cases h : num = 0
  · simp [h, neg]
  · simp only [h, ↓reduceIte]
    rw [apply_ite neg]
    rfl

def ofNat (n : Nat) : F64 := ofRatio false n 1

/-- The value in units of `2 ^ (-1074)`, the least positive double. -/
def units : F64 → Int
  | finite neg m e => (if neg then -1 else 1) * (m * 2 ^ (e + 1074).toNat : Nat)
  | inf neg => if neg then -(2 ^ 2200 : Nat) else (2 ^ 2200 : Nat)
  | nan => 0

/-- `a > b` on `f64`: false when either side is not a number. -/
def gt (a b : F64) : Bool := a ≠ nan && b ≠ nan && b.units < a.units

/-- `fract() != 0.0` on a finite double. -/
def hasFraction : F64 → Bool
  | finite _ m e => e < 0 && m % 2 ^ (-e).toNat ≠ 0
  | _ => false

/-! ### Reading -/

/-- The value of a run of decimal digits. -/
def digitsVal (cs : List Char) : Nat := Nat.ofDigitChars 10 cs 0

/-- Digits with at most one point, and a sign read before them. -/
def parseUnsigned (neg : Bool) (body : List Char) : Option F64 :=
  match Text.splitChars '.' body with
  | [whole] =>
    if whole ≠ [] ∧ whole.all Text.isAsciiDigit then some (ofRatio neg (digitsVal whole) 1) else none
  | [whole, frac] =>
    if (whole ≠ [] ∨ frac ≠ []) ∧ whole.all Text.isAsciiDigit ∧ frac.all Text.isAsciiDigit then
      some (ofRatio neg (digitsVal (whole ++ frac)) (10 ^ frac.length))
    else none
  | _ => none

/-- `str::parse::<f64>` on a text made of digits and points, with an optional leading minus. -/
def parse (cs : List Char) : Option F64 :=
  match cs with
  | '-' :: rest => parseUnsigned true rest
  | _ => parseUnsigned false cs

/-- A decimal numeral reads as a number, and with a minus before it as its negation. -/
theorem parse_decimal (d : Decimal) :
    ∃ x, parse d.chars = some x ∧ parse ('-' :: d.chars) = some x.neg := by
  have hdigits : ∀ n, (Nat.toDigits 10 n).all Text.isAsciiDigit = true := by
    intro n
    rw [List.all_eq_true]
    exact fun c hc => Text.isAsciiDigit_of_mem_toDigits hc
  have hfrac : (d.frac.map Decimal.digitChar).all Text.isAsciiDigit = true := by
    simp [Decimal.isAsciiDigit_digitChar]
  have hdot : ∀ cs : List Char, cs.all Text.isAsciiDigit = true → '.' ∉ cs := by
    intro cs hcs hmem
    have := List.all_eq_true.mp hcs '.' hmem
    simp [Text.isAsciiDigit] at this
  have hunsigned : ∃ num den, ∀ neg, parseUnsigned neg d.chars = some (ofRatio neg num den) := by
    unfold parseUnsigned
    by_cases hnil : d.frac = []
    · refine ⟨digitsVal (Nat.toDigits 10 d.int), 1, fun neg => ?_⟩
      rw [d.chars_of_frac_nil hnil, Text.splitChars_of_notMem (hdot _ (hdigits _))]
      simp [hdigits, Nat.toDigits_ne_nil]
    · refine ⟨digitsVal (Nat.toDigits 10 d.int ++ d.frac.map Decimal.digitChar),
        10 ^ (d.frac.map Decimal.digitChar).length, fun neg => ?_⟩
      rw [Decimal.chars, if_neg hnil, Text.splitChars_append (hdot _ (hdigits _)),
        Text.splitChars_of_notMem (hdot _ hfrac)]
      simp only [hdigits, hfrac]
      simp
  obtain ⟨num, den, hnum⟩ := hunsigned
  refine ⟨ofRatio false num den, ?_, ?_⟩
  · obtain ⟨c, cs, hchars, hdigit, -⟩ := d.chars_eq_cons
    have hne : c ≠ '-' := by
      rintro rfl
      simp [Text.isAsciiDigit] at hdigit
    rw [← hnum false, hchars]
    simp [parse, hne]
  · rw [← ofRatio_true, ← hnum true]
    rfl

/-! ### Printing -/

/-- The decimal exponent `k` with `10 ^ (k - 1) ≤ num / den < 10 ^ k`. -/
def decimalExponent (num den : Nat) : Int :=
  if den ≤ num then ((Nat.toDigits 10 (num / den)).length : Int)
  else 1 - ((Nat.toDigits 10 ((den + num - 1) / num - 1)).length : Int)

/-- The decimals `d · 10 ^ (k - n)` next to `num / den`, nearest first. -/
def candidates (num den : Nat) (k : Int) (n : Nat) : List (Nat × Int) :=
  let shift : Int := n - k
  let (scaledNum, scaledDen) :=
    if 0 ≤ shift then (num * 10 ^ shift.toNat, den) else (num, den * 10 ^ (-shift).toNat)
  let d := scaledNum / scaledDen
  if 2 * (scaledNum % scaledDen) < scaledDen then [(d, -shift), (d + 1, -shift)]
  else [(d + 1, -shift), (d, -shift)]

/-- `d · 10 ^ p` as a ratio. -/
def scaledRatio (d : Nat) (p : Int) : Nat × Nat :=
  if 0 ≤ p then (d * 10 ^ p.toNat, 1) else (d, 10 ^ (-p).toNat)

/-- The shortest decimal that reads back as `mantissa · 2 ^ exponent`, with at most `17` digits. -/
def shortest (m : Nat) (e : Int) : Nat × Int :=
  let (num, den) := if 0 ≤ e then (m * 2 ^ e.toNat, 1) else (m, 2 ^ (-e).toNat)
  let k := decimalExponent num den
  let all := (List.range 17).flatMap fun n => candidates num den k (n + 1)
  (all.find? fun (d, p) =>
    let (num', den') := scaledRatio d p
    ofRatio false num' den' = finite false m e).getD (0, 0)

/-- The magnitude of a finite double as a decimal numeral. -/
def decimal : F64 → Decimal
  | finite _ m e =>
    if m = 0 then ⟨0, []⟩
    else
      let (d, p) := shortest m e
      if 0 ≤ p then ⟨d * 10 ^ p.toNat, []⟩ else Decimal.ofScaled d (-p).toNat
  | _ => ⟨0, []⟩

/-- Whether a double prints with a leading minus. -/
def isNegative : F64 → Bool
  | finite neg _ _ => neg
  | inf neg => neg
  | nan => false

/-- `{}` on an `f64`. -/
def display (x : F64) : String :=
  match x with
  | nan => "NaN"
  | inf neg => if neg then "-inf" else "inf"
  | finite neg _ _ => (if neg then "-" else "") ++ x.decimal.text

theorem display_of_isFinite {x : F64} (h : x.isFinite) :
    x.display = (if x.isNegative then "-" else "") ++ x.decimal.text := by
  cases x with
  | finite neg m e => rfl
  | inf neg => simp [isFinite] at h
  | nan => simp [isFinite] at h

example : (parse "0.1".toList).map display = some "0.1" := by decide

example : (parse "-1500".toList).map display = some "-1500" := by decide

end F64

end LazyPock
