import LazyPock.Core.WholeDoubles
import LazyPock.Files.Config
import LazyPock.Records.Validation

/-!
# Whole numbers in a number field

The way of a whole number into a `bigint` column (`validate_number`, `parse_number` and `encode_value` of
`crates/db/src/validation.rs`): it is read as a double, tested for a fraction and printed again. Neither the
digits that the double has lost nor the range of the column is looked at.

A value is compared with what is stored for it through the number it denotes. A numeric string denotes the
fraction its digits spell, a JSON number itself.

## Main definitions

* `Validation.numeral`: the fraction that `str::parse::<f64>` rounds.
* `Validation.denoted`: the number that a JSON value denotes.
* `Validation.encodeNumber`: the text of a number, with the printing of doubles as a parameter.
* `Validation.StoredExactly`, `Validation.Storable`.

## Main results

* `Validation.parseNumber_eq`: a number is read as the nearest double.
* `Validation.storedExactly_iff`: which whole numbers are stored exactly.
-/

namespace LazyPock.Validation

open Text F64
open Files (parseI64)

/-! ### The number a value denotes -/

/-- A numeral without its sign, as a fraction. -/
def numeralFraction (neg : Bool) (cs : List Char) : Option Fraction := do
  let (body, exponent) ←
    match splitOnceChars 'e' (cs.map Char.toLower) with
    | some (body, rest) => (parseExponent rest).map fun e => (body, e)
    | none => some (cs, 0)
  let (whole, frac) ← parseMantissa body
  let digits := digitsVal (whole ++ frac)
  let shift : Int := exponent - frac.length
  some (if 0 ≤ shift then ⟨neg, digits * 10 ^ shift.toNat, 1, Nat.one_pos⟩
    else ⟨neg, digits, 10 ^ (-shift).toNat, Nat.pow_pos (by decide)⟩)

/-- Whether a numeral is negative, and what is behind its sign. -/
@[grind =]
def signOf : List Char → Bool × List Char
  | '-' :: rest => (true, rest)
  | '+' :: rest => (false, rest)
  | cs => (false, cs)

/-- The fraction that a text spells; an infinity and no number spell none. -/
def numeral (s : String) : Option Fraction :=
  let (neg, body) := signOf s.toList
  let word := String.ofList (body.map Char.toLower)
  if word = "inf" ∨ word = "infinity" ∨ word = "nan" then none else numeralFraction neg body

/-- The fraction that an integer or a numeric string is. -/
def fractionOf (value : Json) : Option Fraction :=
  match value with
  | .number (.posInt n) => some ⟨false, n, 1, Nat.one_pos⟩
  | .number (.negInt n) => some ⟨true, n + 1, 1, Nat.one_pos⟩
  | .string text => numeral (trim text)
  | _ => none

/-- The number that a JSON value denotes. -/
def denoted (value : Json) : Option ℚ :=
  match value with
  | .number (.float x) => some x.value
  | _ => (fractionOf value).map Fraction.value

/-- **A numeral is read as the nearest double** to its fraction. -/
theorem parseNumeral_eq (neg : Bool) (cs : List Char) :
    parseNumeral neg cs = (numeralFraction neg cs).map Fraction.rounded := by
  have hround (digits : ℕ) (shift : Int) :
      (if 0 ≤ shift then ofRatio neg (digits * 10 ^ shift.toNat) 1
        else ofRatio neg digits (10 ^ (-shift).toNat)) =
      Fraction.rounded (if 0 ≤ shift then ⟨neg, digits * 10 ^ shift.toNat, 1, Nat.one_pos⟩
        else ⟨neg, digits, 10 ^ (-shift).toNat, Nat.pow_pos (by decide)⟩) := by
    split_ifs <;> rfl
  simp only [parseNumeral, numeralFraction, hround, Option.bind_eq_bind]
  cases splitOnceChars 'e' (cs.map Char.toLower) <;>
    simp only [Option.map_bind, Function.comp_def, Option.map_some]

theorem parseF64_eq {s : String} {x : F64} (h : parseF64 s = some x) (hfinite : x.isFinite = true) :
    ∃ f, numeral s = some f ∧ x = f.rounded := by
  have hsteps : parseF64 s =
      let word := String.ofList ((signOf s.toList).2.map Char.toLower)
      if word = "inf" ∨ word = "infinity" then some (.inf (signOf s.toList).1)
      else if word = "nan" then some .nan
      else parseNumeral (signOf s.toList).1 (signOf s.toList).2 := by
    unfold parseF64 signOf
    rfl
  rw [hsteps] at h
  dsimp only at h
  split_ifs at h with hinf hnan
  · obtain rfl := Option.some.inj h
    cases hfinite
  · obtain rfl := Option.some.inj h
    cases hfinite
  · rw [parseNumeral_eq, Option.map_eq_some_iff] at h
    obtain ⟨f, hf, rfl⟩ := h
    refine ⟨f, ?_, rfl⟩
    rw [numeral]
    dsimp only
    rw [if_neg (by tauto), hf]

/-- **A JSON number or a numeric string is read as the nearest double.** -/
theorem parseNumber_eq {value : Json} {x : F64} (h : parseNumber value = some x) (hfinite : x.isFinite = true) :
    value = .number (.float x) ∨
      ∃ f, fractionOf value = some f ∧ denoted value = some f.value ∧ x = f.rounded := by
  cases value with
  | number number =>
    rw [parseNumber] at h
    cases number with
    | posInt n =>
      rw [Json.asF64, Option.some_inj] at h
      exact .inr ⟨⟨false, n, 1, Nat.one_pos⟩, rfl, rfl, h.symm⟩
    | negInt n =>
      rw [Json.asF64, Option.some_inj] at h
      exact .inr ⟨⟨true, n + 1, 1, Nat.one_pos⟩, rfl, rfl, h.symm⟩
    | float y =>
      rw [Json.asF64, Option.some_inj] at h
      rw [h]
      exact .inl rfl
  | string text =>
    rw [parseNumber] at h
    obtain ⟨f, hf, hx⟩ := parseF64_eq h hfinite
    have hfraction : fractionOf (.string text) = some f := by rw [fractionOf, hf]
    refine .inr ⟨f, hfraction, ?_, hx⟩
    rw [denoted, hfraction, Option.map_some]
    simp
  | null | bool | array | object => cases h

/-! ### What a number is stored as -/

/-- The text that a number is bound as, with a way to print doubles. -/
def encodeNumber (toText : F64 → String) (field : Field) (value : Json) : Result (Option String) := do
  let number ← okOr (.invalid (field.name ++ " must be a number")) (parseNumber value)
  .ok (some (toText number))

/-- A value is bound as a whole number of 64 bits, and as the one it denotes if it denotes one. -/
def StoredExactly (encoded : Result (Option String)) (value : Json) : Prop :=
  ∃ text n, encoded = .ok (some text) ∧ parseI64 text = some n ∧ ∀ k : ℤ, denoted value = some (k : ℚ) → n = k

/-- A double that is in the range; a fraction that is whole, has at most 53 significant bits and is in the
range, or is not whole and is not rounded out of the range. -/
def Storable (value : Json) : Prop :=
  match value with
  | .number (.float x) => InRange x.value
  | _ => ∃ f, fractionOf value = some f ∧
    if f.value.den = 1 then Fits f.value.num.natAbs ∧ InRange f.value
    else -(2 ^ 63 + 1024) ≤ f.value ∧ f.value < 2 ^ 63 - 512

section Encode

variable {field : Field} {value : Json} {x : F64}

/-- The text of a number is the one that `{}` prints. -/
theorem encodeValue_number (htype : field.fieldType = .number) (h : parseNumber value = some x) :
    encodeValue field value = encodeNumber display field value := by
  have hnull : value.isNull = false := by
    cases value <;> first | rfl | cases h
  have hempty : value ≠ .string "" := by
    rintro rfl
    cases h
  rw [encodeValue, if_neg (by simp [hnull]), if_neg (by simp [hempty]), htype]
  rfl

/-- What is accepted in a field of whole numbers. -/
theorem whole_of_validateNumber (hwhole : optionBool field.options "onlyInt" = true)
    (h : validateNumber field value = .ok ()) :
    ∃ x, parseNumber value = some x ∧ x.isFinite = true ∧ x.hasFraction = false := by
  obtain ⟨x, hx, h⟩ := bind_eq_ok.mp h
  obtain ⟨u, hu, -⟩ := bind_eq_ok.mp h
  have hkept := refuse_eq_ok.mp hu
  refine ⟨x, demand_eq_ok.mp hx, ?_, ?_⟩
  · by_contra hfinite
    exact hkept ⟨hwhole, .inr hfinite⟩
  · by_contra hfraction
    exact hkept ⟨hwhole, .inl (by simpa using hfraction)⟩

theorem inRange_intCast {k : ℤ} : InRange (k : ℚ) ↔ -2 ^ 63 ≤ k ∧ k < 2 ^ 63 := by
  rw [InRange]
  norm_cast

theorem signOf_digits {cs : List Char} (h : cs.all isAsciiDigit = true) : signOf cs = (false, cs) := by
  have hne (c : Char) (hc : isAsciiDigit c = false) (rest : List Char) (hcs : cs = c :: rest) : False := by
    rw [hcs, List.all_cons, hc, Bool.false_and] at h
    cases h
  exact signOf.eq_3 cs (hne '-' rfl) (hne '+' rfl)

/-- An integer in its decimal digits reads as itself, if it has 64 bits. -/
theorem parseI64_decimal (neg : Bool) (n : ℕ) :
    parseI64 ((if neg then "-" else "") ++ (Decimal.mk n []).text) =
      let k : ℤ := if neg then -n else n
      if -2 ^ 63 ≤ k ∧ k < 2 ^ 63 then some k else none := by
  have hdigits : (Nat.toDigits 10 n).all isAsciiDigit = true :=
    List.all_eq_true.mpr fun c hc => isAsciiDigit_of_mem_toDigits hc
  have hsteps (s : String) : parseI64 s =
      if (signOf s.toList).2 = [] ∨ ¬ (signOf s.toList).2.all isAsciiDigit then none
      else
        let k : ℤ := Nat.ofDigitChars 10 (signOf s.toList).2 0
        let k := if (signOf s.toList).1 then -k else k
        if -2 ^ 63 ≤ k ∧ k < 2 ^ 63 then some k else none := by
    unfold parseI64 signOf
    rfl
  have hsign : signOf ((if neg then "-" else "") ++ (Decimal.mk n []).text).toList = (neg, Nat.toDigits 10 n) := by
    cases neg with
    | true => simp [Decimal.chars, signOf]
    | false => simp [Decimal.chars, signOf_digits hdigits]
  rw [hsteps, hsign, if_neg (by simp [hdigits, Nat.toDigits_ne_nil]), Nat.ofDigitChars_ten_toDigits]

/-- **A whole double is bound as its value**, if it is in the range. -/
theorem parseI64_exactText (hfinite : x.isFinite = true) (hwhole : x.hasFraction = false) :
    ∃ k : ℤ, x.value = k ∧ parseI64 x.exactText = if InRange (k : ℚ) then some k else none := by
  cases x with
  | inf | nan => cases hfinite
  | finite neg m e =>
    obtain ⟨n, hvalue, hdecimal⟩ := exists_whole hwhole
    refine ⟨if neg then -n else n, ?_, ?_⟩
    · rw [hvalue, signed]
      split_ifs <;> simp
    · rw [exactText, hdecimal, parseI64_decimal]
      simp only [inRange_intCast]

/-- What is stored for a whole number, when every digit is printed. -/
theorem storedExactly_iff_value (h : parseNumber value = some x) (hfinite : x.isFinite = true)
    (hwhole : x.hasFraction = false) :
    StoredExactly (encodeNumber exactText field value) value ↔
      InRange x.value ∧ ∀ k : ℤ, denoted value = some (k : ℚ) → x.value = k := by
  obtain ⟨k, hk, hread⟩ := parseI64_exactText hfinite hwhole
  have hencoded : encodeNumber exactText field value = .ok (some x.exactText) := by
    rw [encodeNumber, h]
    rfl
  rw [hk]
  constructor
  · rintro ⟨text, n, htext, hn, hdenoted⟩
    obtain rfl : x.exactText = text := Option.some.inj (Except.ok.inj (hencoded.symm.trans htext))
    rw [hread] at hn
    split_ifs at hn with hrange
    obtain rfl := Option.some.inj hn
    exact ⟨hrange, fun n hn => by exact_mod_cast hdenoted n hn⟩
  · rintro ⟨hrange, hdenoted⟩
    exact ⟨x.exactText, k, hencoded, by rw [hread, if_pos hrange], fun n hn => by exact_mod_cast hdenoted n hn⟩

theorem storable_fraction {f : Fraction} (hf : fractionOf value = some f) :
    Storable value ↔ if f.value.den = 1 then Fits f.value.num.natAbs ∧ InRange f.value
      else -(2 ^ 63 + 1024) ≤ f.value ∧ f.value < 2 ^ 63 - 512 := by
  have hother (x : F64) : value ≠ .number (.float x) := by
    rintro rfl
    cases hf
  have hunfold : Storable value ↔ ∃ f, fractionOf value = some f ∧
      if f.value.den = 1 then Fits f.value.num.natAbs ∧ InRange f.value
      else -(2 ^ 63 + 1024) ≤ f.value ∧ f.value < 2 ^ 63 - 512 := by
    rw [Storable.eq_2 value hother]
  rw [hunfold, hf]
  constructor
  · rintro ⟨g, hg, hstorable⟩
    obtain rfl := Option.some.inj hg
    exact hstorable
  · exact fun hstorable => ⟨f, rfl, hstorable⟩

/-- A fraction that is rounded into the range, and to itself if it is whole. -/
theorem fraction_iff {f : Fraction} (hfinite : f.rounded.isFinite = true) :
    (InRange f.rounded.value ∧ ∀ k : ℤ, some f.value = some (k : ℚ) → f.rounded.value = k) ↔
      if f.value.den = 1 then Fits f.value.num.natAbs ∧ InRange f.value
      else -(2 ^ 63 + 1024) ≤ f.value ∧ f.value < 2 ^ 63 - 512 := by
  split_ifs with hden
  · have hint : f.value = f.value.num := (Rat.den_eq_one_iff _).mp hden |>.symm
    constructor
    · rintro ⟨hrange, hsame⟩
      have hrounded := hsame f.value.num (congrArg some hint)
      obtain ⟨m, e, hx, hm, -⟩ := Fraction.rounded_eq hfinite
      rw [hrounded, ← hint] at hrange
      rw [hx] at hrounded
      exact ⟨fits_of_value hm.1 hrounded, hrange⟩
    · rintro ⟨hfits, hrange⟩
      have hrounded := Fraction.value_rounded_of_fits hfinite hint hfits
      refine ⟨by rwa [hrounded, ← hint], fun k hk => ?_⟩
      rw [hrounded, ← hint, Option.some.inj hk]
  · rw [Fraction.inRange_rounded_iff hfinite]
    refine and_iff_left fun k hk => ?_
    rw [Option.some.inj hk] at hden
    exact absurd (Rat.den_intCast k) hden

/-- **Which whole numbers are stored exactly**: in a field of whole numbers a value that is accepted is bound
as a whole number of 64 bits, the one it denotes if it denotes one, if and only if it is storable, given that
every digit of a double is printed. It is so too of what `{}` prints where `{}` prints every digit. -/
theorem storedExactly_iff (field : Field) (value : Json) (htype : field.fieldType = .number)
    (hwhole : optionBool field.options "onlyInt" = true) (h : validateNumber field value = .ok ()) :
    (StoredExactly (encodeNumber exactText field value) value ↔ Storable value) ∧
      ((∀ x, parseNumber value = some x → x.display = x.exactText) →
        (StoredExactly (encodeValue field value) value ↔ Storable value)) := by
  obtain ⟨x, hx, hfinite, hfraction⟩ := whole_of_validateNumber hwhole h
  have hexact : StoredExactly (encodeNumber exactText field value) value ↔ Storable value := by
    rw [storedExactly_iff_value hx hfinite hfraction]
    obtain rfl | ⟨f, hf, hdenoted, rfl⟩ := parseNumber_eq hx hfinite
    · exact and_iff_left fun k hk => Option.some.inj hk
    · rw [hdenoted, storable_fraction hf, fraction_iff hfinite]
  refine ⟨hexact, fun hdisplay => ?_⟩
  have hencoded : encodeValue field value = encodeNumber exactText field value := by
    rw [encodeValue_number htype hx, encodeNumber, encodeNumber, hx]
    change Except.ok (some x.display) = Except.ok (some x.exactText)
    rw [hdisplay x hx]
  rw [hencoded, hexact]

/-- A field of whole numbers. -/
def quantity : Field :=
  { id := "q", collectionId := "c", name := "quantity", fieldType := .number, required := false, isUnique := false,
    options := .object [("onlyInt", .bool true)], position := 0 }

/-- An even number behind `2 ^ 53` is stored exactly. -/
theorem storedExactly_quantity :
    StoredExactly (encodeNumber exactText quantity (.number (.posInt 9007199254740994)))
      (.number (.posInt 9007199254740994)) := by
  refine (storedExactly_iff quantity (.number (.posInt 9007199254740994)) rfl (by decide)
    (by decide)).1.mpr ((storable_fraction rfl).mpr ?_)
  have hvalue : (Fraction.mk false 9007199254740994 1 Nat.one_pos).value = (9007199254740994 : ℤ) := by
    norm_num [Fraction.value, signed]
  rw [hvalue, if_pos (Rat.den_intCast _), Rat.num_intCast, inRange_intCast]
  exact ⟨⟨4503599627370497, 1, by norm_num, by norm_num⟩, by norm_num⟩

/-- **An odd number behind `2 ^ 53` is stored as its neighbour**, and `2 ^ 63` is accepted. -/
theorem neighbours_stored_alike :
    validateNumber quantity (.number (.posInt 9007199254740993)) = .ok () ∧
      validateNumber quantity (.number (.posInt 9007199254740992)) = .ok () ∧
      encodeNumber exactText quantity (.number (.posInt 9007199254740993)) = .ok (some "9007199254740992") ∧
      encodeNumber exactText quantity (.number (.posInt 9007199254740992)) = .ok (some "9007199254740992") ∧
      encodeValue quantity (.number (.posInt 9007199254740993)) = .ok (some "9007199254740992") ∧
      encodeValue quantity (.number (.posInt 9007199254740992)) = .ok (some "9007199254740992") ∧
      ¬ StoredExactly (encodeValue quantity (.number (.posInt 9007199254740993)))
        (.number (.posInt 9007199254740993)) ∧
      validateNumber quantity (.number (.posInt 9223372036854775808)) = .ok () ∧
      encodeNumber exactText quantity (.number (.posInt 9223372036854775808)) =
        .ok (some "9223372036854775808") ∧
      parseI64 "9223372036854775808" = none := by
  have hodd : encodeValue quantity (.number (.posInt 9007199254740993)) = .ok (some "9007199254740992") := by
    decide
  refine ⟨by decide, by decide, by decide, by decide, hodd, by decide, ?_,
    by decide, by decide, by decide⟩
  rintro ⟨text, n, htext, hn, hdenoted⟩
  obtain rfl := Option.some.inj (Except.ok.inj (hodd.symm.trans htext))
  have hread : parseI64 "9007199254740992" = some 9007199254740992 := by decide
  obtain rfl := Option.some.inj (hread.symm.trans hn)
  have hvalue : denoted (.number (.posInt 9007199254740993)) = some ((9007199254740993 : ℤ) : ℚ) := by
    norm_num [denoted, fractionOf, Fraction.value, signed]
  have := hdenoted _ hvalue
  norm_num at this

end Encode

end LazyPock.Validation
