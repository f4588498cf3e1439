import LazyPock.Core.Rounding

/-!
# How a whole double is printed

The exact decimal of a double, every digit of it. A double without a fraction is a whole number, and is
printed as one.

## Main definitions

* `F64.exactDecimal`, `F64.exactText`: every digit of a double.

## Main results

* `F64.exists_whole`: a double without a fraction is a whole number, and is printed as one.
-/

namespace LazyPock.F64

/-! ### Printing every digit -/

/-- The magnitude of a finite double as a decimal numeral, every digit of it. -/
def exactDecimal : F64 → Decimal
  | finite _ m e =>
    if 0 ≤ e then ⟨m * 2 ^ e.toNat, []⟩ else Decimal.ofScaled (m * 5 ^ (-e).toNat) (-e).toNat
  | _ => ⟨0, []⟩

/-- A double as its exact decimal. -/
def exactText (x : F64) : String :=
  match x with
  | nan => "NaN"
  | inf neg => if neg then "-inf" else "inf"
  | finite neg _ _ => (if neg then "-" else "") ++ x.exactDecimal.text

/-- A whole number has no digits behind the point. -/
theorem ofScaled_mul_pow (n scale : ℕ) : Decimal.ofScaled (n * 10 ^ scale) scale = ⟨n, []⟩ := by
  rw [Decimal.ofScaled, Nat.mul_div_cancel n (by positivity), Nat.mul_mod_left]
  simp

theorem exactDecimal_of_eq {neg : Bool} {m n : ℕ} {e : Int} (h : (m * 2 ^ e : ℚ) = n) :
    (finite neg m e).exactDecimal = ⟨n, []⟩ := by
  rw [exactDecimal]
  split_ifs with he
  · obtain ⟨t, rfl⟩ := Int.eq_ofNat_of_zero_le he
    have hn : m * 2 ^ t = n := by exact_mod_cast h
    simp [hn]
  · obtain ⟨t, ht⟩ := Int.eq_ofNat_of_zero_le (Int.neg_nonneg.mpr (not_le.mp he).le)
    obtain rfl : e = -t := by omega
    rw [zpow_neg, zpow_natCast, ← div_eq_mul_inv, div_eq_iff (by positivity)] at h
    have hm : m = n * 2 ^ t := by exact_mod_cast h
    have hscaled : n * 2 ^ t * 5 ^ t = n * 10 ^ t := by rw [Nat.mul_assoc, ← Nat.mul_pow]
    rw [hm, Int.neg_neg, Int.toNat_natCast, hscaled, ofScaled_mul_pow]

/-- **A double without a fraction** is a whole number, and is printed as one. -/
theorem exists_whole {neg : Bool} {m : ℕ} {e : Int} (h : (finite neg m e).hasFraction = false) :
    ∃ n : ℕ, (finite neg m e).value = signed neg n ∧ (finite neg m e).exactDecimal = ⟨n, []⟩ := by
  suffices hwhole : ∃ n : ℕ, (m * 2 ^ e : ℚ) = n by
    obtain ⟨n, hn⟩ := hwhole
    exact ⟨n, by rw [value, hn], exactDecimal_of_eq hn⟩
  by_cases he : 0 ≤ e
  · obtain ⟨t, rfl⟩ := Int.eq_ofNat_of_zero_le he
    exact ⟨m * 2 ^ t, by push_cast; rfl⟩
  · obtain ⟨t, ht⟩ := Int.eq_ofNat_of_zero_le (Int.neg_nonneg.mpr (not_le.mp he).le)
    obtain rfl : e = -t := by omega
    simp only [hasFraction, Bool.and_eq_false_iff, decide_eq_false_iff_not, not_lt, ne_eq, not_not] at h
    have hmod := h.resolve_left (by omega)
    rw [Int.neg_neg, Int.toNat_natCast] at hmod
    obtain ⟨n, rfl⟩ := Nat.dvd_of_mod_eq_zero hmod
    refine ⟨n, ?_⟩
    rw [zpow_neg, zpow_natCast]
    push_cast
    field_simp

end LazyPock.F64
