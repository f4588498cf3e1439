import LazyPock.Sql.Semantics

/-!
# Numerals as texts

A decimal numeral reaches the database as a constant of the statement or as the text of a parameter.
What the text conversions of `Sql.Semantics` make of it is worked out here, type by type.

## Main definitions

* `Sql.numeral`: a decimal with its sign.

## Main results

* `Sql.int8in_numeral`, `Sql.float8in_numeral`, `Sql.boolin_numeral`.
-/

namespace LazyPock.Sql

/-- A decimal numeral with its sign. -/
def numeral (negative : Bool) (d : Decimal) : String := (if negative then "-" else "") ++ d.text

section Numerals

variable (pg : Postgres) (negative : Bool) (d : Decimal)

theorem mem_numeral {c : Char} (h : c ∈ (numeral negative d).toList) :
    Text.isAsciiDigit c = true ∨ c = '.' ∨ c = '-' := by
  cases negative with
  | false =>
    have hmem : c ∈ d.chars := by simpa [numeral] using h
    exact (Decimal.mem_chars hmem).imp id .inl
  | true =>
    have hmem : c = '-' ∨ c ∈ d.chars := by simpa [numeral] using h
    rcases hmem with rfl | hmem
    · exact .inr (.inr rfl)
    · exact (Decimal.mem_chars hmem).imp id .inl

theorem trim_numeral : Text.trim (numeral negative d) = numeral negative d := by
  refine Text.trim_of_forall fun c hc => ?_
  rcases mem_numeral negative d hc with hdigit | rfl | rfl
  · exact Text.isWhitespace_of_isAsciiDigit hdigit
  · decide
  · decide

theorem int8in_numeral (hfrac : d.frac = []) :
    int8in pg (numeral negative d) =
      bigintInRange (if negative then -(d.int : Int) else (d.int : Int)) := by
  have hdigits : (Nat.toDigits 10 d.int).all Text.isAsciiDigit = true := by
    rw [List.all_eq_true]
    exact fun c hc => Text.isAsciiDigit_of_mem_toDigits hc
  have hplain : plainInt (numeral negative d) =
      some (if negative then -(d.int : Int) else (d.int : Int)) := by
    unfold plainInt
    rw [trim_numeral]
    cases negative with
    | true =>
      have hlist : (numeral true d).toList = '-' :: Nat.toDigits 10 d.int := by
        simp [numeral, d.chars_of_frac_nil hfrac]
      simp [hlist, hdigits, Nat.toDigits_ne_nil, Nat.ofDigitChars_ten_toDigits]
    | false =>
      have hlist : (numeral false d).toList = Nat.toDigits 10 d.int := by
        simp [numeral, d.chars_of_frac_nil hfrac]
      obtain ⟨c, cs, hcs⟩ : ∃ c cs, Nat.toDigits 10 d.int = c :: cs :=
        List.exists_cons_of_ne_nil Nat.toDigits_ne_nil
      have hc : Text.isAsciiDigit c = true :=
        Text.isAsciiDigit_of_mem_toDigits (n := d.int) (by rw [hcs]; simp)
      have hminus : c ≠ '-' := by
        rintro rfl
        simp [Text.isAsciiDigit] at hc
      have hplus : c ≠ '+' := by
        rintro rfl
        simp [Text.isAsciiDigit] at hc
      rw [hlist]
      split
      · rename_i heq
        rw [hcs] at heq
        exact absurd (List.cons.inj heq).1 hminus
      · rename_i heq
        rw [hcs] at heq
        exact absurd (List.cons.inj heq).1 hplus
      · simp [hdigits, Nat.toDigits_ne_nil, Nat.ofDigitChars_ten_toDigits]
  simp [int8in, hplain]

theorem float8in_numeral :
    float8in pg (numeral negative d) =
      (float8in pg d.text).map fun x => if negative then x.neg else x := by
  obtain ⟨x, hx, hneg⟩ := F64.parse_decimal d
  cases negative with
  | false =>
    have hnumeral : numeral false d = d.text := by simp [numeral]
    simp [hnumeral]
  | true =>
    have hlist : (numeral true d).toList = '-' :: d.chars := by simp [numeral]
    simp only [float8in, hlist, hneg, Decimal.toList_text, hx, ↓reduceIte]
    cases x <;> rfl

theorem asciiLower_of_isAsciiDigit {c : Char} (h : Text.isAsciiDigit c = true) :
    asciiLower c = c := by
  have hupper : Text.isAsciiUpper c = false := by
    by_contra hu
    simp only [Text.isAsciiDigit, Text.isAsciiUpper, Bool.not_eq_false, Bool.and_eq_true,
      decide_eq_true_eq] at h hu
    exact absurd (Nat.le_trans hu.1 h.2) (by decide)
  simp [asciiLower, hupper]

/-- A numeral is the plain one of a natural number only when it has no sign and no fraction. -/
theorem numeral_eq_iff (n : Nat) :
    numeral negative d = String.ofList (Nat.toDigits 10 n) ↔
      negative = false ∧ d.frac = [] ∧ d.int = n := by
  have hmem : ∀ c ∈ Nat.toDigits 10 n, c ≠ '-' ∧ c ≠ '.' := by
    intro c hc
    have hdigit := Text.isAsciiDigit_of_mem_toDigits hc
    constructor <;> rintro rfl <;> simp [Text.isAsciiDigit] at hdigit
  constructor
  · intro h
    have hlist : (numeral negative d).toList = Nat.toDigits 10 n := by simp [h]
    have hneg : negative = false := by
      by_contra hneg
      rw [Bool.not_eq_false] at hneg
      have : '-' ∈ Nat.toDigits 10 n := by
        rw [← hlist]
        simp [numeral, hneg]
      exact (hmem _ this).1 rfl
    subst hneg
    have hchars : d.chars = Nat.toDigits 10 n := by simpa [numeral] using hlist
    have hfrac : d.frac = [] := by
      by_contra hfrac
      have : '.' ∈ Nat.toDigits 10 n := by
        rw [← hchars]
        simp [Decimal.chars, hfrac]
      exact (hmem _ this).2 rfl
    refine ⟨rfl, hfrac, ?_⟩
    rw [d.chars_of_frac_nil hfrac] at hchars
    rw [← Nat.ofDigitChars_ten_toDigits (n := d.int), hchars, Nat.ofDigitChars_ten_toDigits]
  · rintro ⟨rfl, hfrac, rfl⟩
    simp [numeral, Decimal.text, d.chars_of_frac_nil hfrac]

/-- Of the numerals only `0` and `1` are truth values. -/
theorem boolin_numeral :
    boolin (numeral negative d) =
      if negative = false ∧ d.frac = [] ∧ d.int < 2 then some (decide (d.int ≠ 0)) else none := by
  have hlower : (numeral negative d).toList.map asciiLower = (numeral negative d).toList := by
    conv_rhs => rw [← List.map_id (numeral negative d).toList]
    refine List.map_congr_left fun c hc => ?_
    rcases mem_numeral negative d hc with hdigit | rfl | rfl
    · exact asciiLower_of_isAsciiDigit hdigit
    · decide
    · decide
  have hone := numeral_eq_iff negative d 1
  have hzero := numeral_eq_iff negative d 0
  -- Every other spelling of a truth value holds a letter.
  have hwords : ∀ w ∈ trueWords ++ falseWords,
      (w.toList.all fun c => Text.isAsciiDigit c || c = '.' || c = '-') = true →
        w = "1" ∨ w = "0" := by
    decide
  have hchars : ((numeral negative d).toList.all
      fun c => Text.isAsciiDigit c || c = '.' || c = '-') = true := by
    rw [List.all_eq_true]
    intro c hc
    simpa [or_assoc] using mem_numeral negative d hc
  have htrue : numeral negative d ∈ trueWords ↔ numeral negative d = "1" := by
    constructor
    · intro h
      rcases hwords _ (List.mem_append_left _ h) hchars with h1 | h0
      · exact h1
      · rw [h0] at h
        exact absurd h (by decide)
    · intro h
      rw [h]
      decide
  have hfalse : numeral negative d ∈ falseWords ↔ numeral negative d = "0" := by
    constructor
    · intro h
      rcases hwords _ (List.mem_append_right _ h) hchars with h1 | h0
      · rw [h1] at h
        exact absurd h (by decide)
      · exact h0
    · intro h
      rw [h]
      decide
  rw [show String.ofList (Nat.toDigits 10 1) = "1" from by decide] at hone
  rw [show String.ofList (Nat.toDigits 10 0) = "0" from by decide] at hzero
  simp only [boolin, trim_numeral, hlower, String.ofList_toList, htrue, hfalse, hone, hzero]
  by_cases hplain : negative = false ∧ d.frac = []
  · simp only [hplain, true_and]
    by_cases h1 : d.int = 1
    · simp [h1]
    · by_cases h0 : d.int = 0
      · simp [h0]
      · have : ¬ d.int < 2 := by omega
        simp [h1, h0, this]
  · have hone' : ¬ (negative = false ∧ d.frac = [] ∧ d.int = 1) := fun h => hplain ⟨h.1, h.2.1⟩
    have hzero' : ¬ (negative = false ∧ d.frac = [] ∧ d.int = 0) := fun h => hplain ⟨h.1, h.2.1⟩
    have hlt : ¬ (negative = false ∧ d.frac = [] ∧ d.int < 2) := fun h => hplain ⟨h.1, h.2.1⟩
    simp only [hone', hzero', hlt, ↓reduceIte]

end Numerals

end LazyPock.Sql
