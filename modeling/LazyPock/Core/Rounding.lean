import LazyPock.Core.Float
import Mathlib.Algebra.Order.Field.Power
import Mathlib.Tactic.FieldSimp
import Mathlib.Tactic.Linarith
import Mathlib.Tactic.NormNum
import Mathlib.Tactic.Positivity
import Mathlib.Tactic.Ring

/-!
# What rounding does to a whole number

`F64.ofRatio` in exact rational arithmetic. A whole number is the value of a double exactly when it has at
most 53 significant bits; then it is its own nearest double. At the ends of the range of `i64` the doubles
are 1024 and 2048 apart, so what is rounded into the range is told by two bounds half-way between them.

## Main definitions

* `F64.binaryExponent`, `F64.unit`, `F64.mantissa`: the steps of `ofRatio`.
* `F64.value`, `F64.magnitude`: the value of a double, the number a ratio is rounded to.
* `F64.Fits`: at most 53 significant bits.
* `F64.Fraction`: a fraction with a sign, and the double nearest to it.

## Main results

* `F64.binaryExponent_spec`, `F64.divRound_lt_iff`, `F64.divRound_le_iff`.
* `F64.magnitude_of_fits`: a number that fits is not changed.
* `F64.magnitude_lt_iff`, `F64.magnitude_le_iff`: the ends of the range of `i64`.
* `F64.Fraction.inRange_rounded_iff`: what is rounded into the range.
* `F64.fits_of_value`: only a number that fits is the value of a double.
-/

namespace LazyPock.F64

/-! ### Rounded division -/

section Division

variable {a b c : ℕ}

theorem divRound_of_dvd (hb : 0 < b) (h : b ∣ a) : divRound a b = a / b := by
  have hmod : a % b = 0 := Nat.mod_eq_zero_of_dvd h
  simp [divRound, hmod, hb.ne]

theorem two_mul_divRound (a b : ℕ) :
    (divRound a b = a / b ∧ 2 * (a % b) ≤ b ∧ (2 * (a % b) = b → a / b % 2 = 0)) ∨
      (divRound a b = a / b + 1 ∧ b ≤ 2 * (a % b) ∧ (2 * (a % b) = b → a / b % 2 = 1)) := by
  rw [divRound]
  by_cases h : (b < 2 * (a % b) || (2 * (a % b) == b && a / b % 2 == 1)) = true
  · rw [if_pos h]
    simp only [Bool.or_eq_true, decide_eq_true_eq, Bool.and_eq_true, beq_iff_eq] at h
    exact .inr ⟨rfl, by omega, by omega⟩
  · rw [if_neg h]
    simp only [Bool.or_eq_true, decide_eq_true_eq, Bool.and_eq_true, beq_iff_eq] at h
    exact .inl ⟨rfl, by omega, by omega⟩

/-- A rounded quotient stays below an even number as the quotient stays below the half in front of it. -/
theorem divRound_lt_iff_nat (hb : 0 < b) (hc : c % 2 = 0) : divRound a b < c ↔ 2 * a + b < 2 * (c * b) := by
  have hdiv := Nat.div_add_mod' a b
  have hmod := Nat.mod_lt a hb
  have hround := two_mul_divRound a b
  rcases Nat.lt_trichotomy c (a / b + 1) with hlt | rfl | hlt
  · have hle : c * b ≤ a / b * b := Nat.mul_le_mul_right b (by omega)
    omega
  · have hexpand : (a / b + 1) * b = a / b * b + b := by ring
    rw [hexpand]
    omega
  · obtain ⟨d, rfl⟩ : ∃ d, c = a / b + 2 + d := ⟨c - (a / b + 2), by omega⟩
    have hexpand : (a / b + 2 + d) * b = a / b * b + 2 * b + d * b := by ring
    rw [hexpand]
    omega

/-- A rounded quotient is at most an even number as the quotient is at most the half behind it. -/
theorem divRound_le_iff_nat (hb : 0 < b) (hc : c % 2 = 0) : divRound a b ≤ c ↔ 2 * a ≤ 2 * (c * b) + b := by
  have hdiv := Nat.div_add_mod' a b
  have hmod := Nat.mod_lt a hb
  have hround := two_mul_divRound a b
  rcases Nat.lt_trichotomy c (a / b) with hlt | rfl | hlt
  · obtain ⟨d, hd⟩ : ∃ d, a / b = c + 1 + d := ⟨a / b - (c + 1), by omega⟩
    have hexpand : a / b * b = c * b + b + d * b := by
      rw [hd]
      ring
    omega
  · omega
  · have hle : (a / b + 1) * b ≤ c * b := Nat.mul_le_mul_right b (by omega)
    rw [Nat.add_one_mul] at hle
    omega

theorem divRound_lt_iff (hb : 0 < b) (hc : c % 2 = 0) : divRound a b < c ↔ (a / b : ℚ) < c - 1 / 2 := by
  have hb' : (0 : ℚ) < b := by exact_mod_cast hb
  rw [divRound_lt_iff_nat hb hc, div_lt_iff₀ hb', ← Nat.cast_lt (α := ℚ)]
  push_cast
  constructor <;> intro h <;> linarith

theorem divRound_le_iff (hb : 0 < b) (hc : c % 2 = 0) : divRound a b ≤ c ↔ (a / b : ℚ) ≤ c + 1 / 2 := by
  have hb' : (0 : ℚ) < b := by exact_mod_cast hb
  rw [divRound_le_iff_nat hb hc, div_le_iff₀ hb', ← Nat.cast_le (α := ℚ)]
  push_cast
  constructor <;> intro h <;> linarith

end Division

/-! ### The steps of `ofRatio` -/

section Steps

variable {num den : ℕ}

/-- The exponent of the binary digit that a ratio begins with. -/
def binaryExponent (num den : ℕ) : Int :=
  let guess : Int := (Nat.log2 num : Int) - Nat.log2 den
  let below := if 0 ≤ guess then num < den * 2 ^ guess.toNat else num * 2 ^ (-guess).toNat < den
  if below then guess - 1 else guess

/-- The exponent of the last digit of the mantissa. -/
def unit (num den : ℕ) : Int := max (-1074) (binaryExponent num den - 52)

/-- The mantissa, before a carry. -/
def mantissa (num den : ℕ) : ℕ :=
  if 0 ≤ unit num den then divRound num (den * 2 ^ (unit num den).toNat)
  else divRound (num * 2 ^ (-unit num den).toNat) den

theorem ofRatio_eq (neg : Bool) (hnum : num ≠ 0) :
    ofRatio neg num den =
      if mantissa num den = 2 ^ 53 then
        if 971 < unit num den + 1 then inf neg else finite neg (2 ^ 52) (unit num den + 1)
      else if 971 < unit num den then inf neg else finite neg (mantissa num den) (unit num den) := by
  have hsteps : ofRatio neg num den =
      let p := if mantissa num den = 2 ^ 53 then (2 ^ 52, unit num den + 1)
        else (mantissa num den, unit num den)
      if 971 < p.2 then inf neg else finite neg p.1 p.2 := by
    rw [ofRatio, if_neg hnum]
    rfl
  rw [hsteps]
  split_ifs <;> simp_all

theorem zpow_toNat (e : Int) : (2 : ℚ) ^ e = 2 ^ e.toNat / 2 ^ (-e).toNat := by
  rcases Int.le_total 0 e with h | h
  · obtain ⟨n, rfl⟩ := Int.eq_ofNat_of_zero_le h
    simp
  · obtain ⟨n, hn⟩ := Int.eq_ofNat_of_zero_le (Int.neg_nonneg.mpr h)
    obtain rfl : e = -n := by omega
    simp

/-- A ratio is compared with a power of two. -/
theorem lt_zpow_iff (hden : 0 < den) (e : Int) :
    (num / den : ℚ) < 2 ^ e ↔ if 0 ≤ e then num < den * 2 ^ e.toNat else num * 2 ^ (-e).toNat < den := by
  have hden' : (0 : ℚ) < den := by exact_mod_cast hden
  rw [div_lt_iff₀ hden', zpow_toNat]
  split_ifs with h
  · have hzero : (-e).toNat = 0 := by omega
    rw [hzero, pow_zero, div_one, mul_comm, ← Nat.cast_lt (α := ℚ)]
    push_cast
    rfl
  · have hzero : e.toNat = 0 := by omega
    have hpos : (0 : ℚ) < 2 ^ (-e).toNat := by positivity
    rw [hzero, pow_zero, one_div, inv_mul_eq_div, lt_div_iff₀ hpos, ← Nat.cast_lt (α := ℚ)]
    push_cast
    rfl

theorem log2_bounds {n : ℕ} (hn : n ≠ 0) :
    (2 : ℚ) ^ (Nat.log2 n : Int) ≤ n ∧ (n : ℚ) < 2 ^ ((Nat.log2 n : Int) + 1) := by
  constructor
  · rw [zpow_natCast]
    exact_mod_cast Nat.log2_self_le hn
  · have hlt : n < 2 ^ (Nat.log2 n + 1) := Nat.lt_log2_self
    rw [← Nat.cast_add_one, zpow_natCast]
    exact_mod_cast hlt

/-- **Where a ratio begins**: it is between a power of two and the next one. -/
theorem binaryExponent_spec (hnum : num ≠ 0) (hden : 0 < den) :
    (2 : ℚ) ^ binaryExponent num den ≤ num / den ∧ (num / den : ℚ) < 2 ^ (binaryExponent num den + 1) := by
  obtain ⟨hnum_le, hnum_lt⟩ := log2_bounds hnum
  obtain ⟨hden_le, hden_lt⟩ := log2_bounds hden.ne'
  have hden' : (0 : ℚ) < den := by exact_mod_cast hden
  have hlow : (2 : ℚ) ^ ((Nat.log2 num : Int) - Nat.log2 den - 1) ≤ num / den := by
    rw [le_div_iff₀ hden']
    calc (2 : ℚ) ^ ((Nat.log2 num : Int) - Nat.log2 den - 1) * den
        ≤ 2 ^ ((Nat.log2 num : Int) - Nat.log2 den - 1) * 2 ^ ((Nat.log2 den : Int) + 1) := by gcongr
      _ = 2 ^ (Nat.log2 num : Int) := by
        rw [← zpow_add₀ (by norm_num)]
        congr 1
        omega
      _ ≤ num := hnum_le
  have hhigh : (num / den : ℚ) < 2 ^ ((Nat.log2 num : Int) - Nat.log2 den + 1) := by
    rw [div_lt_iff₀ hden']
    calc (num : ℚ) < 2 ^ ((Nat.log2 num : Int) + 1) := hnum_lt
      _ = 2 ^ ((Nat.log2 num : Int) - Nat.log2 den + 1) * 2 ^ (Nat.log2 den : Int) := by
        rw [← zpow_add₀ (by norm_num)]
        congr 1
        omega
      _ ≤ 2 ^ ((Nat.log2 num : Int) - Nat.log2 den + 1) * den := by gcongr
  have hexponent : binaryExponent num den =
      if (num / den : ℚ) < 2 ^ ((Nat.log2 num : Int) - Nat.log2 den) then
        (Nat.log2 num : Int) - Nat.log2 den - 1 else (Nat.log2 num : Int) - Nat.log2 den :=
    if_congr (lt_zpow_iff hden _).symm rfl rfl
  rw [hexponent]
  split_ifs with h
  · exact ⟨hlow, by rwa [Int.sub_add_cancel]⟩
  · exact ⟨not_lt.mp h, hhigh⟩

/-- The ratio in units of the last digit. -/
def scaled (num den : ℕ) : ℚ := num / den / 2 ^ unit num den

/-- The mantissa is a rounded quotient. -/
theorem exists_mantissa (hden : 0 < den) :
    ∃ a b : ℕ, 0 < b ∧ mantissa num den = divRound a b ∧ (a / b : ℚ) = scaled num den := by
  rw [mantissa, scaled, zpow_toNat]
  split_ifs with h
  · have hzero : (-unit num den).toNat = 0 := by omega
    refine ⟨num, den * 2 ^ (unit num den).toNat, by positivity, rfl, ?_⟩
    rw [hzero]
    push_cast
    rw [pow_zero, div_one, div_div]
  · have hzero : (unit num den).toNat = 0 := by omega
    refine ⟨num * 2 ^ (-unit num den).toNat, den, hden, rfl, ?_⟩
    rw [hzero]
    push_cast
    rw [pow_zero, one_div, div_inv_eq_mul, mul_div_right_comm]

/-- The mantissa stays below an even number as the ratio stays below the half in front of it. -/
theorem mantissa_lt_iff (hden : 0 < den) {c : ℕ} (hc : c % 2 = 0) :
    mantissa num den < c ↔ scaled num den < c - 1 / 2 := by
  obtain ⟨a, b, hb, hmantissa, hscaled⟩ := @exists_mantissa num den hden
  rw [hmantissa, divRound_lt_iff hb hc, hscaled]

theorem mantissa_le_iff (hden : 0 < den) {c : ℕ} (hc : c % 2 = 0) :
    mantissa num den ≤ c ↔ scaled num den ≤ c + 1 / 2 := by
  obtain ⟨a, b, hb, hmantissa, hscaled⟩ := @exists_mantissa num den hden
  rw [hmantissa, divRound_le_iff hb hc, hscaled]

theorem scaled_lt (hnum : num ≠ 0) (hden : 0 < den) : scaled num den < 2 ^ 53 := by
  have hunit : binaryExponent num den + 1 ≤ 53 + unit num den := by
    rw [unit]
    omega
  rw [scaled, div_lt_iff₀ (by positivity)]
  calc (num / den : ℚ) < 2 ^ (binaryExponent num den + 1) := (binaryExponent_spec hnum hden).2
    _ ≤ 2 ^ (53 + unit num den) := zpow_le_zpow_right₀ (by norm_num) hunit
    _ = 2 ^ 53 * 2 ^ unit num den := by
      rw [zpow_add₀ (by norm_num)]
      norm_num

theorem le_scaled (hnum : num ≠ 0) (hden : 0 < den) (h : -1022 ≤ binaryExponent num den) :
    2 ^ 52 ≤ scaled num den := by
  have hunit : 52 + unit num den = binaryExponent num den := by
    rw [unit]
    omega
  rw [scaled, le_div_iff₀ (by positivity)]
  calc (2 : ℚ) ^ 52 * 2 ^ unit num den = 2 ^ (52 + unit num den) := by
        rw [zpow_add₀ (by norm_num)]
        norm_num
    _ ≤ num / den := by
      rw [hunit]
      exact (binaryExponent_spec hnum hden).1

theorem mantissa_le (hnum : num ≠ 0) (hden : 0 < den) : mantissa num den ≤ 2 ^ 53 := by
  refine (mantissa_le_iff hden (by norm_num)).mpr ?_
  have hlt := scaled_lt hnum hden
  push_cast
  linarith

end Steps

/-! ### Values -/

/-- A number with a sign in front of it. -/
def signed (neg : Bool) (q : ℚ) : ℚ := if neg then -q else q

theorem eq_natAbs_of_signed {neg : Bool} {q : ℚ} {k : ℤ} (hq : 0 ≤ q) (h : signed neg q = k) : q = k.natAbs := by
  rw [Nat.cast_natAbs, Int.cast_abs, ← h, signed]
  split_ifs
  · rw [abs_neg, abs_of_nonneg hq]
  · rw [abs_of_nonneg hq]

/-- The value of a double; the infinities and no number have none. -/
def value : F64 → ℚ
  | finite neg m e => signed neg (m * 2 ^ e)
  | _ => 0

/-- The number that a ratio is rounded to, where it is not too large. -/
def magnitude (num den : ℕ) : ℚ := mantissa num den * 2 ^ unit num den

section Values

variable {num den : ℕ} {neg : Bool}

theorem mantissa_zero : mantissa 0 den = 0 := by
  rw [mantissa]
  split_ifs <;> simp [divRound]

theorem le_mantissa (hnum : num ≠ 0) (hden : 0 < den) (h : -1022 ≤ binaryExponent num den) :
    2 ^ 52 ≤ mantissa num den := by
  have hscaled := le_scaled hnum hden h
  rw [← Nat.not_lt, mantissa_lt_iff hden (by norm_num), not_lt]
  push_cast
  linarith

/-- A mantissa of 53 bits, or of less at the least exponent. -/
def Canonical (m : ℕ) (e : Int) : Prop := m < 2 ^ 53 ∧ -1074 ≤ e ∧ (2 ^ 52 ≤ m ∨ e = -1074)

/-- What `ofRatio` gives, when it is finite. -/
theorem ofRatio_finite (hden : 0 < den) (h : (ofRatio neg num den).isFinite = true) :
    ∃ m e, ofRatio neg num den = finite neg m e ∧ Canonical m e ∧ (m * 2 ^ e : ℚ) = magnitude num den := by
  rcases Nat.eq_zero_or_pos num with rfl | hpos
  · refine ⟨0, -1074, rfl, ⟨by norm_num, by norm_num, .inr rfl⟩, ?_⟩
    rw [magnitude, mantissa_zero]
    simp
  have hnum := hpos.ne'
  have hle := mantissa_le hnum hden
  have hunit : -1074 ≤ unit num den := le_max_left _ _
  have hfirst : 2 ^ 52 ≤ mantissa num den ∨ unit num den = -1074 := by
    by_cases hexponent : -1022 ≤ binaryExponent num den
    · exact .inl (le_mantissa hnum hden hexponent)
    · exact .inr (by rw [unit]; omega)
  rw [ofRatio_eq neg hnum] at h ⊢
  by_cases hcarry : mantissa num den = 2 ^ 53
  · rw [if_pos hcarry] at h ⊢
    by_cases hinf : 971 < unit num den + 1
    · rw [if_pos hinf] at h
      cases h
    · rw [if_neg hinf]
      refine ⟨2 ^ 52, unit num den + 1, rfl, ⟨by norm_num, by omega, .inl le_rfl⟩, ?_⟩
      rw [magnitude, hcarry, zpow_add_one₀ (by norm_num)]
      push_cast
      ring
  · rw [if_neg hcarry] at h ⊢
    by_cases hinf : 971 < unit num den
    · rw [if_pos hinf] at h
      cases h
    · rw [if_neg hinf]
      exact ⟨mantissa num den, unit num den, rfl, ⟨by omega, hunit, hfirst⟩, rfl⟩

/-- At most 53 significant bits. -/
def Fits (k : ℕ) : Prop := ∃ m e : ℕ, m < 2 ^ 53 ∧ k = m * 2 ^ e

theorem mantissa_of_scaled (hden : 0 < den) {s : ℕ} (h : scaled num den = s) : mantissa num den = s := by
  obtain ⟨a, b, hb, hmantissa, hscaled⟩ := @exists_mantissa num den hden
  have hb' : (0 : ℚ) < b := by exact_mod_cast hb
  rw [h, div_eq_iff hb'.ne'] at hscaled
  have ha : a = s * b := by exact_mod_cast hscaled
  rw [hmantissa, ha, divRound_of_dvd hb (Nat.dvd_mul_left b s), Nat.mul_div_cancel s hb]

/-- **A number that fits is not changed** by rounding. -/
theorem magnitude_of_fits {k : ℕ} (hfits : Fits k) (hden : 0 < den) (hnum : num = k * den) :
    magnitude num den = k := by
  rcases Nat.eq_zero_or_pos k with rfl | hk
  · rw [hnum, Nat.zero_mul, magnitude, mantissa_zero]
    simp
  obtain ⟨m, e, hm, hke⟩ := hfits
  have hden' : (den : ℚ) ≠ 0 := by exact_mod_cast hden.ne'
  have hratio : (num / den : ℚ) = m * 2 ^ (e : Int) := by
    rw [hnum, hke, zpow_natCast]
    push_cast
    field_simp
  have hne : num ≠ 0 := by
    rw [hnum]
    exact Nat.mul_ne_zero hk.ne' hden.ne'
  have hspec := binaryExponent_spec hne hden
  rw [hratio] at hspec
  -- The last digit of the mantissa is not behind the last digit of the number.
  have hlow : (2 : ℚ) ^ binaryExponent num den < 2 ^ (53 + e : Int) := by
    calc (2 : ℚ) ^ binaryExponent num den ≤ m * 2 ^ (e : Int) := hspec.1
      _ < 2 ^ 53 * 2 ^ (e : Int) := by
        have : (m : ℚ) < 2 ^ 53 := by exact_mod_cast hm
        gcongr
      _ = 2 ^ (53 + e : Int) := by
        rw [zpow_add₀ (by norm_num)]
        norm_num
  have hexponent := (zpow_lt_zpow_iff_right₀ (by norm_num : (1 : ℚ) < 2)).mp hlow
  have hunit : unit num den ≤ e := by
    rw [unit]
    omega
  have hscaled : scaled num den = (m * 2 ^ ((e : Int) - unit num den).toNat : ℕ) := by
    have hsplit : (2 : ℚ) ^ (e : Int) = 2 ^ ((e : Int) - unit num den).toNat * 2 ^ unit num den := by
      rw [← zpow_natCast, Int.toNat_of_nonneg (by omega), ← zpow_add₀ (by norm_num), Int.sub_add_cancel]
    rw [scaled, hratio, hsplit]
    push_cast
    field_simp
  have hvalue : scaled num den * 2 ^ unit num den = num / den := by
    rw [scaled]
    field_simp
  rw [magnitude, mantissa_of_scaled hden hscaled, ← hscaled, hvalue, hnum]
  push_cast
  field_simp

/-- The magnitude of a ratio that begins at a binary digit or behind it. -/
theorem magnitude_le (hnum : num ≠ 0) (hden : 0 < den) {t : Int} (ht : -1022 ≤ t)
    (h : binaryExponent num den ≤ t) : magnitude num den ≤ 2 ^ (t + 1) := by
  have hunit : unit num den ≤ t - 52 := by
    rw [unit]
    omega
  have hmantissa : (mantissa num den : ℚ) ≤ 2 ^ 53 := by exact_mod_cast mantissa_le hnum hden
  calc magnitude num den ≤ 2 ^ 53 * 2 ^ (t - 52) := by
        rw [magnitude]
        gcongr
        norm_num
    _ = 2 ^ (t + 1) := by
      rw [show t + 1 = 53 + (t - 52) by omega, zpow_add₀ (by norm_num)]
      norm_num

/-- The magnitude of a ratio that begins at a binary digit or in front of it. -/
theorem le_magnitude (hnum : num ≠ 0) (hden : 0 < den) {t : Int} (ht : -1022 ≤ t)
    (h : t ≤ binaryExponent num den) : (2 : ℚ) ^ t ≤ magnitude num den := by
  have hunit : t - 52 ≤ unit num den := by
    rw [unit]
    omega
  have hmantissa : (2 : ℚ) ^ 52 ≤ mantissa num den := by exact_mod_cast le_mantissa hnum hden (ht.trans h)
  calc (2 : ℚ) ^ t = 2 ^ 52 * 2 ^ (t - 52) := by
        rw [show t = 52 + (t - 52) by omega, zpow_add₀ (by norm_num)]
        norm_num
    _ ≤ magnitude num den := by
      rw [magnitude]
      gcongr
      norm_num

/-- What is rounded below `2 ^ 63`. -/
theorem magnitude_lt_iff (hden : 0 < den) : magnitude num den < 2 ^ 63 ↔ (num / den : ℚ) < 2 ^ 63 - 512 := by
  rcases Nat.eq_zero_or_pos num with rfl | hpos
  · rw [magnitude, mantissa_zero]
    norm_num
  have hnum := hpos.ne'
  obtain ⟨hlow, hhigh⟩ := binaryExponent_spec hnum hden
  rcases lt_trichotomy (binaryExponent num den) 62 with h | h | h
  · have hmagnitude := magnitude_le hnum hden (by norm_num) (show binaryExponent num den ≤ 61 by omega)
    have hratio : (2 : ℚ) ^ (binaryExponent num den + 1) ≤ 2 ^ (62 : Int) :=
      zpow_le_zpow_right₀ (by norm_num) (by omega)
    norm_num at hmagnitude hratio ⊢
    exact iff_of_true (by linarith) (by linarith)
  · have hunit : unit num den = 10 := by
      rw [unit, h]
      norm_num
    have hmantissa := @mantissa_lt_iff num den hden (2 ^ 53) (by norm_num)
    rw [scaled, hunit] at hmantissa
    rw [magnitude, hunit]
    have hleft : (mantissa num den * 2 ^ (10 : Int) : ℚ) < 2 ^ 63 ↔ mantissa num den < 2 ^ 53 := by
      rw [show (2 : ℚ) ^ (10 : Int) = (1024 : ℕ) by norm_num,
        show (2 : ℚ) ^ 63 = (2 ^ 53 * 1024 : ℕ) by norm_num, ← Nat.cast_mul, Nat.cast_lt]
      omega
    rw [hleft, hmantissa]
    norm_num
    rw [div_lt_iff₀ (by norm_num)]
    norm_num
  · have hmagnitude := le_magnitude hnum hden (by norm_num) (show 63 ≤ binaryExponent num den by omega)
    have hratio : (2 : ℚ) ^ (63 : Int) ≤ 2 ^ binaryExponent num den := zpow_le_zpow_right₀ (by norm_num) (by omega)
    norm_num at hmagnitude hratio ⊢
    exact iff_of_false (by linarith) (by linarith)

/-- What is rounded to `2 ^ 63` or below it. -/
theorem magnitude_le_iff (hden : 0 < den) : magnitude num den ≤ 2 ^ 63 ↔ (num / den : ℚ) ≤ 2 ^ 63 + 1024 := by
  rcases Nat.eq_zero_or_pos num with rfl | hpos
  · rw [magnitude, mantissa_zero]
    norm_num
  have hnum := hpos.ne'
  obtain ⟨hlow, hhigh⟩ := binaryExponent_spec hnum hden
  rcases lt_trichotomy (binaryExponent num den) 63 with h | h | h
  · have hmagnitude := magnitude_le hnum hden (by norm_num) (show binaryExponent num den ≤ 62 by omega)
    have hratio : (2 : ℚ) ^ (binaryExponent num den + 1) ≤ 2 ^ (63 : Int) :=
      zpow_le_zpow_right₀ (by norm_num) (by omega)
    norm_num at hmagnitude hratio ⊢
    exact iff_of_true (by linarith) (by linarith)
  · have hunit : unit num den = 11 := by
      rw [unit, h]
      norm_num
    have hmantissa := @mantissa_le_iff num den hden (2 ^ 52) (by norm_num)
    rw [scaled, hunit] at hmantissa
    rw [magnitude, hunit]
    have hleft : (mantissa num den * 2 ^ (11 : Int) : ℚ) ≤ 2 ^ 63 ↔ mantissa num den ≤ 2 ^ 52 := by
      rw [show (2 : ℚ) ^ (11 : Int) = (2048 : ℕ) by norm_num,
        show (2 : ℚ) ^ 63 = (2 ^ 52 * 2048 : ℕ) by norm_num, ← Nat.cast_mul, Nat.cast_le]
      omega
    rw [hleft, hmantissa]
    norm_num
    rw [div_le_iff₀ (by norm_num)]
    norm_num
  · have hmagnitude := le_magnitude hnum hden (by norm_num) (show 64 ≤ binaryExponent num den by omega)
    have hratio : (2 : ℚ) ^ (64 : Int) ≤ 2 ^ binaryExponent num den := zpow_le_zpow_right₀ (by norm_num) (by omega)
    norm_num at hmagnitude hratio ⊢
    exact iff_of_false (by linarith) (by linarith)

end Values

/-! ### Fractions -/

/-- A fraction with a sign. -/
structure Fraction where
  neg : Bool
  num : ℕ
  den : ℕ
  den_pos : 0 < den

/-- From `-2 ^ 63` up to `2 ^ 63 - 1`. -/
def InRange (q : ℚ) : Prop := -2 ^ 63 ≤ q ∧ q < 2 ^ 63

instance : DecidablePred InRange := fun _ => instDecidableAnd

namespace Fraction

def value (f : Fraction) : ℚ := signed f.neg (f.num / f.den)

/-- The double nearest to a fraction. -/
def rounded (f : Fraction) : F64 := ofRatio f.neg f.num f.den

variable {f : Fraction}

theorem rounded_eq (h : f.rounded.isFinite = true) :
    ∃ m e, f.rounded = finite f.neg m e ∧ Canonical m e ∧ (m * 2 ^ e : ℚ) = magnitude f.num f.den :=
  ofRatio_finite f.den_pos h

theorem value_rounded (h : f.rounded.isFinite = true) : f.rounded.value = signed f.neg (magnitude f.num f.den) := by
  obtain ⟨m, e, hrounded, -, hvalue⟩ := rounded_eq h
  rw [hrounded, F64.value, hvalue]

theorem magnitude_nonneg (num den : ℕ) : 0 ≤ magnitude num den := by
  rw [magnitude]
  positivity

/-- **What is rounded into the range**: up to half-way to the doubles next to its ends. -/
theorem inRange_rounded_iff (h : f.rounded.isFinite = true) :
    InRange f.rounded.value ↔ -(2 ^ 63 + 1024) ≤ f.value ∧ f.value < 2 ^ 63 - 512 := by
  have hmagnitude := magnitude_nonneg f.num f.den
  have hratio : (0 : ℚ) ≤ f.num / f.den := by positivity
  rw [InRange, value_rounded h, value]
  cases f.neg with
  | false =>
    simp only [signed, Bool.false_eq_true, if_false, magnitude_lt_iff f.den_pos]
    constructor <;> rintro ⟨-, hlt⟩ <;> exact ⟨by linarith, hlt⟩
  | true =>
    simp only [signed, if_true, neg_le_neg_iff, magnitude_le_iff f.den_pos]
    constructor <;> rintro ⟨hle, -⟩ <;> exact ⟨hle, by linarith⟩

/-- The magnitude of a whole number that fits. -/
theorem magnitude_of_value {k : ℤ} (hk : f.value = k) (hfits : Fits k.natAbs) :
    magnitude f.num f.den = k.natAbs := by
  have hden : (f.den : ℚ) ≠ 0 := by exact_mod_cast f.den_pos.ne'
  have habs := eq_natAbs_of_signed (by positivity) hk
  rw [div_eq_iff hden] at habs
  exact magnitude_of_fits hfits f.den_pos (by exact_mod_cast habs)

/-- A whole number that fits is rounded to itself. -/
theorem value_rounded_of_fits (h : f.rounded.isFinite = true) {k : ℤ} (hk : f.value = k)
    (hfits : Fits k.natAbs) : f.rounded.value = k := by
  rw [value_rounded h, magnitude_of_value hk hfits, ← eq_natAbs_of_signed (by positivity) hk, ← value, hk]

end Fraction

/-- **A whole number that is the value of a double fits**, when its mantissa has 53 bits. -/
theorem fits_of_value {neg : Bool} {m : ℕ} {e k : ℤ} (hm : m < 2 ^ 53) (hk : (finite neg m e).value = k) :
    Fits k.natAbs := by
  have habs : (m * 2 ^ e : ℚ) = k.natAbs := eq_natAbs_of_signed (by positivity) hk
  rcases Int.le_total 0 e with he | he
  · obtain ⟨n, rfl⟩ := Int.eq_ofNat_of_zero_le he
    exact ⟨m, n, hm, by exact_mod_cast habs.symm⟩
  · have hle : (k.natAbs : ℚ) ≤ m := by
      rw [← habs]
      exact mul_le_of_le_one_right (by positivity) (zpow_le_one_of_nonpos₀ (by norm_num) he)
    exact ⟨k.natAbs, 0, lt_of_le_of_lt (by exact_mod_cast hle) hm, by simp⟩

end LazyPock.F64
