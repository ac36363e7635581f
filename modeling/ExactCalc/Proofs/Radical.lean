/-
Square roots.

A root is exact where there is a rational one. Otherwise it is a multiple of `rootUnit d`, which is 1/(d·10^50) with `d`
the denominator of the radicand in lowest terms. The integer root is taken of n·d·10^100, and `k` units have a square of
at most n/d exactly if k² is at most that.

Results:
- `exactRoot?_mul_self`, `exactRoot?_of_not_isSquare`: a fraction in lowest terms is a square exactly if its numerator
  and its denominator are, so the roots of those two decide the matter.
- `mul_self_units_le_iff`: the comparison above. From it the truncated root is the greatest multiple that is small
  enough, and one unit more is too large.
- `sqrt_bracketed`: **square roots are exact where they can be and tightly bracketed otherwise**.
-/
import ExactCalc.Proofs.Canonical

namespace ExactCalc.Number

/-! ## Exact roots -/

theorem natAbs_num_div_den {v : ℚ} (nonnegative : 0 ≤ v) : (v.num.natAbs : ℚ) / v.den = v := by
  have sign : ((v.num.natAbs : ℤ) : ℚ) = v.num := by
    rw [Int.natAbs_of_nonneg (Rat.num_nonneg.2 nonnegative)]
  rw [← Int.cast_natCast, sign, Rat.num_div_den]

/-- the square of a fraction in lowest terms is in lowest terms, so both of its parts have their roots -/
theorem exactRoot?_mul_self (q : ℚ) : exactRoot? (q * q).num.natAbs (q * q).den = some |q| := by
  have numerator : (q * q).num.natAbs = q.num.natAbs * q.num.natAbs := by
    rw [Rat.mul_self_num, Int.natAbs_mul]
  have denominator : (q * q).den = q.den * q.den := Rat.mul_self_den q
  unfold exactRoot?
  rw [numerator, denominator, Nat.sqrt_eq, Nat.sqrt_eq, if_pos ⟨rfl, rfl⟩, Rat.mkRat_eq_divInt, ← Rat.abs_def]

/-- a fraction of two squares is a square -/
theorem exactRoot?_of_not_isSquare {v : ℚ} (nonnegative : 0 ≤ v) (h : ¬IsSquare v) :
    exactRoot? v.num.natAbs v.den = none := by
  unfold exactRoot?
  apply if_neg
  intro squares
  obtain ⟨numerator, denominator⟩ := squares
  apply h
  refine ⟨v.num.natAbs.sqrt / v.den.sqrt, ?_⟩
  calc v
    _ = v.num.natAbs / v.den := (natAbs_num_div_den nonnegative).symm
    _ = (v.num.natAbs.sqrt * v.num.natAbs.sqrt : ℕ) / (v.den.sqrt * v.den.sqrt : ℕ) := by rw [numerator, denominator]
    _ = v.num.natAbs.sqrt / v.den.sqrt * (v.num.natAbs.sqrt / v.den.sqrt) := by
      rw [Nat.cast_mul, Nat.cast_mul, div_mul_div_comm]

theorem sqrt_of_mul_self {a : Number} {q : ℚ} (h : a.toRat = q * q) : a.sqrt = .ok (ofRat |q|) := by
  have nonnegative : 0 ≤ a.toRat := by
    rw [h]
    exact mul_self_nonneg q
  rw [sqrt_of_not_neg nonnegative.not_gt, h, exactRoot?_mul_self, Option.getD_some]

theorem sqrt_of_not_isSquare {a : Number} (nonnegative : 0 ≤ a.toRat) (h : ¬IsSquare a.toRat) :
    a.sqrt = .ok (ofRat (truncatedRoot a.toRat.num.natAbs a.toRat.den)) := by
  rw [sqrt_of_not_neg nonnegative.not_gt, exactRoot?_of_not_isSquare nonnegative h, Option.getD_none]

/-! ## Truncated roots -/

/-- the distance of neighbours among the roots that are not exact, where the radicand has this denominator -/
def rootUnit (d : ℕ) : ℚ :=
  1 / (d * 10 ^ 50)

/-- what the integer root is taken of -/
def scaledRadicand (n d : ℕ) : ℕ :=
  n * d * (tenTo rootDigits * tenTo rootDigits)

theorem tenTo_rootDigits : (tenTo rootDigits : ℚ) = 10 ^ 50 := by
  have power : tenTo rootDigits = 10 ^ 50 := rfl
  rw [power]
  norm_num

theorem truncatedRoot_eq (n d : ℕ) : truncatedRoot n d = (scaledRadicand n d).sqrt * rootUnit d := by
  unfold truncatedRoot rootUnit
  rw [Rat.mkRat_eq_div, ← scaledRadicand, Int.cast_natCast, Nat.cast_mul, tenTo_rootDigits, div_eq_mul_one_div]

section
variable {d : ℕ} (positive : 0 < d)
include positive

theorem rootUnit_pos : 0 < rootUnit d := by
  unfold rootUnit
  positivity

/-- the square of so many units is at most the radicand exactly if that of their number is at most the scaled one -/
theorem mul_self_units_le_iff (n k : ℕ) :
    k * rootUnit d * (k * rootUnit d) ≤ n / d ↔ k * k ≤ scaledRadicand n d := by
  have scaled : (n : ℚ) / d = scaledRadicand n d * (rootUnit d * rootUnit d) := by
    unfold scaledRadicand rootUnit
    rw [Nat.cast_mul, Nat.cast_mul, Nat.cast_mul, tenTo_rootDigits]
    field_simp
  have area : 0 < rootUnit d * rootUnit d := mul_pos (rootUnit_pos positive) (rootUnit_pos positive)
  rw [mul_mul_mul_comm, scaled, mul_le_mul_iff_left₀ area, ← Nat.cast_mul, Nat.cast_le]

/-- no larger multiple of the unit has a square that is small enough -/
theorem isGreatest_truncatedRoot (n : ℕ) :
    IsGreatest {v : ℚ | (∃ k : ℕ, v = k * rootUnit d) ∧ v * v ≤ n / d} (truncatedRoot n d) := by
  rw [truncatedRoot_eq]
  constructor
  · refine ⟨⟨_, rfl⟩, ?_⟩
    rw [mul_self_units_le_iff positive]
    exact Nat.sqrt_le _
  · intro v member
    obtain ⟨⟨k, rfl⟩, small⟩ := member
    rw [mul_self_units_le_iff positive] at small
    have fewer : k ≤ (scaledRadicand n d).sqrt := Nat.le_sqrt.2 small
    gcongr
    exact (rootUnit_pos positive).le

/-- one unit more has a square that is too large -/
theorem lt_mul_self_add_rootUnit (n : ℕ) :
    (n : ℚ) / d < (truncatedRoot n d + rootUnit d) * (truncatedRoot n d + rootUnit d) := by
  have next : truncatedRoot n d + rootUnit d = ((scaledRadicand n d).sqrt + 1 : ℕ) * rootUnit d := by
    rw [truncatedRoot_eq, Nat.cast_add, Nat.cast_one, add_mul, one_mul]
  rw [next]
  apply lt_of_not_ge
  rw [mul_self_units_le_iff positive]
  exact (Nat.lt_succ_sqrt _).not_ge

end

/-! ## The bracket -/

theorem sqrt_eq_error_iff (a : Number) (r : Reason) : a.sqrt = .error r ↔ r = .outOfRange ∧ a.toRat < 0 := by
  by_cases negative : a.toRat < 0
  · rw [sqrt_of_neg negative]
    simp [negative, eq_comm]
  · rw [sqrt_of_not_neg negative]
    simp [negative]

/-- the root has the radicand as its square exactly if the radicand is a square of a rational -/
theorem mul_self_sqrt_iff {a b : Number} (h : a.sqrt = .ok b) : b.toRat * b.toRat = a.toRat ↔ IsSquare a.toRat := by
  refine ⟨fun square => ⟨b.toRat, square.symm⟩, ?_⟩
  intro square
  obtain ⟨q, value⟩ := square
  rw [sqrt_of_mul_self value, Except.ok.injEq] at h
  rw [← h, toRat_ofRat, abs_mul_abs_self, value]

/-- **Square roots are exact where they can be and tightly bracketed otherwise.** There is no root of a negative number,
and that is the only way to fail. The root of the square of a rational is the absolute value of that. Any other root is
the greatest multiple of 1/(d·10^50) with a square that is not above the radicand, where d is the reduced denominator;
the square is below the radicand, and that of the next multiple is above it. So a root is exact only for a square, and
the root of the square of a number is its absolute value. -/
theorem sqrt_bracketed (a : Number) :
    (∀ r, a.sqrt = .error r ↔ r = .outOfRange ∧ a.toRat < 0) ∧
    (∀ q : ℚ, a.toRat = q * q → a.sqrt = .ok (ofRat |q|)) ∧
    (0 ≤ a.toRat → ¬IsSquare a.toRat → ∃ b, a.sqrt = .ok b ∧ b.Normalized ∧
      let unit : ℚ := 1 / (a.toRat.den * 10 ^ 50)
      IsGreatest {v : ℚ | (∃ k : ℕ, v = k * unit) ∧ v * v ≤ a.toRat} b.toRat ∧
      b.toRat * b.toRat < a.toRat ∧ a.toRat < (b.toRat + unit) * (b.toRat + unit)) ∧
    (∀ b, a.sqrt = .ok b → (b.toRat * b.toRat = a.toRat ↔ IsSquare a.toRat)) ∧
    (a.mul a).sqrt = .ok (ofRat |a.toRat|) ∧ (a.Normalized → (a.mul a).sqrt = .ok a.abs) := by
  have squared : (a.mul a).sqrt = .ok (ofRat |a.toRat|) := sqrt_of_mul_self (toRat_mul a a)
  refine ⟨sqrt_eq_error_iff a, fun q => sqrt_of_mul_self, ?inexact, fun b => mul_self_sqrt_iff, squared, ?absolute⟩
  case inexact =>
    intro nonnegative inexact
    have root := sqrt_of_not_isSquare nonnegative inexact
    have positive : 0 < a.toRat.den := a.toRat.den_pos
    have greatest := isGreatest_truncatedRoot positive a.toRat.num.natAbs
    have above := lt_mul_self_add_rootUnit positive a.toRat.num.natAbs
    rw [natAbs_num_div_den nonnegative] at greatest above
    have below := lt_of_le_of_ne greatest.1.2 fun equal => inexact ⟨_, equal.symm⟩
    refine ⟨_, root, normalized_ofRat _, ?_⟩
    rw [toRat_ofRat]
    exact ⟨greatest, below, above⟩
  case absolute =>
    intro normalized
    rw [squared, represents_iff.1 (represents_abs normalized)]

/-- the root of 8/9 is cut off, a quarter has an exact root, and the square of minus a half leads back to a half -/
theorem sqrt_bracketed_eight_ninths :
    let a : Number := .fraction (8 / 9)
    let quarter : Number := .fraction (1 / 4)
    let minusHalf : Number := .fraction (-1 / 2)
    (0 ≤ a.toRat ∧ ¬IsSquare a.toRat ∧ ∃ b, a.sqrt = .ok b ∧ b.toRat * b.toRat < 8 / 9 ∧
      8 / 9 < (b.toRat + 1 / (9 * 10 ^ 50)) * (b.toRat + 1 / (9 * 10 ^ 50))) ∧
    (quarter.toRat = -1 / 2 * (-1 / 2) ∧ quarter.sqrt = .ok (ofRat |-1 / 2|)) ∧
    (quarter.sqrt = .ok (.fraction (1 / 2)) ∧ ((1 / 2 : ℚ) * (1 / 2) = 1 / 4 ↔ IsSquare (1 / 4 : ℚ))) ∧
    minusHalf.Normalized ∧ (minusHalf.mul minusHalf).sqrt = .ok minusHalf.abs := by
  intro a quarter minusHalf
  have nonnegative : 0 ≤ a.toRat := by decide +kernel
  have inexact : ¬IsSquare a.toRat := by decide +kernel
  have value : quarter.toRat = -1 / 2 * (-1 / 2) := by decide +kernel
  have root : quarter.sqrt = .ok (.fraction (1 / 2)) := by decide +kernel
  have normalized : minusHalf.Normalized := by decide +kernel
  have ninths : a.toRat.den = 9 := by decide +kernel
  obtain ⟨-, -, cut, -⟩ := sqrt_bracketed a
  obtain ⟨-, square, -, iff, -⟩ := sqrt_bracketed quarter
  obtain ⟨-, -, -, -, -, absolute⟩ := sqrt_bracketed minusHalf
  obtain ⟨b, ok, -, -, below, above⟩ := cut nonnegative inexact
  rw [ninths] at above
  exact ⟨⟨nonnegative, inexact, b, ok, below, above⟩, ⟨value, square _ value⟩, ⟨root, iff _ root⟩, normalized,
    absolute normalized⟩

end ExactCalc.Number
