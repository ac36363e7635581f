/-
Rounding to decimal places.

`IsRounding v m`: the integer `m` is nearest to the rational `v`, and of two nearest ones it is the one further from
zero. Nothing is said of how it is found.

Results:
- `IsRounding.unique`: there are no two such integers. Two of them would lie on either side of `v` at the same distance,
  and only one side is further from zero.
- `isRounding_iff`: the integer that the digits of a fraction are taken from is that for q·10^places.
- `abs_sub_scaled_le`: so the digits are at most half a unit of the last place away.
- `scaled_div_of_dvd`: they are exact where the places suffice for the denominator.
-/
import Mathlib.Tactic
import ExactCalc.Number.Decimal

namespace ExactCalc.Number

/-! ## The nearest integer -/

/-- the integer nearest to a rational, and of two nearest ones that which is further from zero -/
structure IsRounding (v : ℚ) (m : ℤ) : Prop where
  near : |v - m| ≤ 1 / 2
  tie : |v - m| = 1 / 2 → |v| < |(m : ℚ)|

theorem IsRounding.neg {v : ℚ} {m : ℤ} (h : IsRounding v m) : IsRounding (-v) (-m) := by
  have distance : |-v - ((-m : ℤ) : ℚ)| = |v - m| := by
    rw [Int.cast_neg, neg_sub_neg, abs_sub_comm]
  refine ⟨?_, ?_⟩
  · rw [distance]
    exact h.near
  · intro half
    rw [distance] at half
    rw [Int.cast_neg, abs_neg, abs_neg]
    exact h.tie half

/-- there are no two such integers -/
theorem IsRounding.unique {v : ℚ} {m k : ℤ} (hm : IsRounding v m) (hk : IsRounding v k) : m = k := by
  wlog less : m < k generalizing m k
  · rcases lt_trichotomy m k with before | same | behind
    · exact this hm hk before
    · exact same
    · exact (this hk hm behind).symm
  · -- both are half a unit away, so the one that is nearer to zero is no rounding
    exfalso
    have unit : (m : ℚ) + 1 ≤ k := by exact_mod_cast less
    have lower := abs_le.1 hm.near
    have upper := abs_le.1 hk.near
    have middle : v = m + 1 / 2 := by linarith
    have next : (k : ℚ) = m + 1 := by linarith
    have further := hm.tie (by rw [middle, add_sub_cancel_left]; norm_num)
    have alsoFurther := hk.tie (by rw [middle, next, add_sub_add_left_eq_sub]; norm_num)
    rw [middle, ← sq_lt_sq] at further
    rw [middle, next, ← sq_lt_sq] at alsoFurther
    rcases le_or_gt 0 m with nonnegative | negative
    · have sign : (0 : ℚ) ≤ m := by exact_mod_cast nonnegative
      nlinarith
    · have sign : (m : ℚ) + 1 ≤ 0 := by exact_mod_cast negative
      nlinarith

/-! ## Rounding a quotient -/

theorem roundNat_bounds (n : ℕ) {d : ℕ} (positive : 0 < d) :
    (n : ℚ) / d - 1 / 2 < roundNat n d ∧ (roundNat n d : ℚ) ≤ n / d + 1 / 2 := by
  have wide : 0 < 2 * d := Nat.mul_pos two_pos positive
  have least : roundNat n d * (2 * d) ≤ 2 * n + d := Nat.div_mul_le_self _ _
  have most : 2 * n + d < (roundNat n d + 1) * (2 * d) := by
    rw [mul_comm (roundNat n d + 1)]
    exact Nat.lt_mul_div_succ _ wide
  have denominator : (0 : ℚ) < d := by exact_mod_cast positive
  constructor
  · have : 2 * (n : ℚ) + d < (roundNat n d + 1) * (2 * d) := by exact_mod_cast most
    rw [sub_lt_iff_lt_add, div_lt_iff₀ denominator]
    linarith
  · have : (roundNat n d : ℚ) * (2 * d) ≤ 2 * n + d := by exact_mod_cast least
    rw [← sub_le_iff_le_add, le_div_iff₀ denominator]
    linarith

theorem isRounding_roundNat (n : ℕ) {d : ℕ} (positive : 0 < d) : IsRounding (n / d) (roundNat n d) := by
  obtain ⟨above, below⟩ := roundNat_bounds n positive
  have nonnegative : (0 : ℚ) ≤ n / d := by positivity
  constructor
  · rw [Int.cast_natCast, abs_le]
    constructor
    · linarith
    · linarith
  · intro half
    rw [Int.cast_natCast] at half ⊢
    rcases eq_or_eq_neg_of_abs_eq half with up | down
    · linarith
    · rw [abs_of_nonneg nonnegative, Nat.abs_cast]
      linarith

/-! ## Decimal places -/

theorem tenTo_eq (places : ℕ) : tenTo places = 10 ^ places := rfl

/-- the integer that stands for the digits of q is the rounded value of q·10^places -/
theorem isRounding_scaled (q : ℚ) (places : ℕ) : IsRounding (q * 10 ^ places) (scaled q places) := by
  have size : IsRounding (|q| * 10 ^ places) (roundNat (q.num.natAbs * tenTo places) q.den) := by
    have quotient : |q| * 10 ^ places = ((q.num.natAbs * tenTo places : ℕ) : ℚ) / q.den := by
      rw [Rat.abs_def, Rat.divInt_eq_div, Int.cast_natCast, Int.cast_natCast, tenTo_eq, Nat.cast_mul, Nat.cast_pow,
        Nat.cast_ofNat, div_mul_eq_mul_div]
    rw [quotient]
    exact isRounding_roundNat _ q.den_pos
  rw [scaled]
  split_ifs with negative
  · rw [abs_of_neg (Rat.num_neg.1 negative), neg_mul] at size
    have := size.neg
    rwa [neg_neg] at this
  · rwa [abs_of_nonneg (Rat.num_nonneg.1 (not_lt.1 negative))] at size

theorem isRounding_iff (q : ℚ) (places : ℕ) (m : ℤ) : IsRounding (q * 10 ^ places) m ↔ m = scaled q places := by
  constructor
  · intro rounding
    exact rounding.unique (isRounding_scaled q places)
  · rintro rfl
    exact isRounding_scaled q places

theorem abs_sub_scaled_le (q : ℚ) (places : ℕ) : |q - scaled q places / 10 ^ places| ≤ 1 / 2 / 10 ^ places := by
  have power : (0 : ℚ) < 10 ^ places := by positivity
  have distance : q - scaled q places / 10 ^ places = (q * 10 ^ places - scaled q places) / 10 ^ places := by
    field_simp
  rw [distance, abs_div, abs_of_pos power]
  gcongr
  exact (isRounding_scaled q places).near

/-- where the places suffice for the denominator nothing is rounded -/
theorem scaled_div_of_dvd {q : ℚ} {places : ℕ} (h : q.den ∣ 10 ^ places) : (scaled q places / 10 ^ places : ℚ) = q := by
  obtain ⟨k, hk⟩ := h
  have power : (10 : ℚ) ^ places ≠ 0 := by positivity
  have whole : q * 10 ^ places = ((q.num * k : ℤ) : ℚ) := by
    have denominator : (10 : ℚ) ^ places = q.den * k := by exact_mod_cast hk
    rw [denominator, ← mul_assoc, Rat.mul_den_eq_num, Int.cast_mul, Int.cast_natCast]
  have precise : IsRounding (q * 10 ^ places) (q.num * k) := by
    rw [whole]
    constructor
    · rw [sub_self, abs_zero]
      norm_num
    · intro half
      rw [sub_self, abs_zero] at half
      norm_num at half
  rw [← (isRounding_iff q places _).1 precise, div_eq_iff power, whole]

end ExactCalc.Number
