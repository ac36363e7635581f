/-
Roots and their decimal places.

`Number.IsCutRoot v w`: the number `w` is the root of `v` cut off behind fifty decimal places. It is a multiple of
10^-50, its square is not above `v`, and that of the next multiple is.

A root that is not exact is cut off before it is divided: the integer root of n·d·10^100 counts units of 1/(d·10^50).
For an integer these are the units of the fiftieth place. For a fraction they are finer, and what is left over behind
that place stays in the result.

Results:
- `sq_le_iff`: a number of units of the fiftieth place is small enough exactly if it is at most `cutUnits`.
- `isCutRoot_iff`: so there is one cut root, with that many units.
- `isCutRoot_truncatedRoot_iff`: the root that is computed is the cut root exactly if the denominator divides the
  integer root.
- `floor_truncatedRoot`: cut off behind the fiftieth place, it always is.
- `sqrt_cut_iff`: **inexact roots are right to fifty places, and cut off there where the denominator allows it**.
- `sqrt_not_always_cut`: the root of a third has digits behind the fiftieth place.
-/
import ExactCalc.Proofs.Radical

namespace ExactCalc.Number

/-! ## Cutting off a root -/

/-- the root of the first number, cut off behind fifty decimal places, is the second -/
def IsCutRoot (v w : ℚ) : Prop :=
  ∃ m : ℤ, w * 10 ^ 50 = m ∧ (m : ℚ) ^ 2 ≤ v * 10 ^ 100 ∧ v * 10 ^ 100 < ((m : ℚ) + 1) ^ 2

/-- how many units of the fiftieth decimal place the root of n/d holds -/
def cutUnits (n d : ℕ) : ℕ :=
  (scaledRadicand n d).sqrt / d

section
variable {d : ℕ} (positive : 0 < d)
include positive

/-- `m` units of the fiftieth place are `m * d` of the finer units that the integer root counts -/
theorem sq_le_iff (n m : ℕ) : (m : ℚ) ^ 2 ≤ n / d * 10 ^ 100 ↔ m ≤ cutUnits n d := by
  have finer : ((m * d : ℕ) : ℚ) * rootUnit d = m / 10 ^ 50 := by
    unfold rootUnit
    push_cast
    field_simp
  have square : (m : ℚ) ^ 2 ≤ n / d * 10 ^ 100 ↔ (m : ℚ) / 10 ^ 50 * (m / 10 ^ 50) ≤ n / d := by
    rw [div_mul_div_comm, div_le_iff₀ (by positivity), sq, ← pow_add]
  calc (m : ℚ) ^ 2 ≤ n / d * 10 ^ 100
    _ ↔ (m : ℚ) / 10 ^ 50 * (m / 10 ^ 50) ≤ n / d := square
    _ ↔ m * d * (m * d) ≤ scaledRadicand n d := by rw [← finer, mul_self_units_le_iff positive]
    _ ↔ m * d ≤ (scaledRadicand n d).sqrt := Nat.le_sqrt.symm
    _ ↔ m ≤ cutUnits n d := (Nat.le_div_iff_mul_le positive).symm

/-- a root can be cut off in one way only -/
theorem isCutRoot_iff (n : ℕ) (w : ℚ) : IsCutRoot (n / d) w ↔ w * 10 ^ 50 = cutUnits n d := by
  constructor
  · intro cut
    obtain ⟨m, value, small, large⟩ := cut
    have nonnegative : 0 ≤ m := by
      -- below zero the next multiple has the smaller square
      by_contra negative
      have before : (m : ℚ) + 1 ≤ 0 := by exact_mod_cast not_le.1 negative
      nlinarith
    lift m to ℕ using nonnegative
    rw [Int.cast_natCast] at value small large
    have reached : m ≤ cutUnits n d := (sq_le_iff positive n m).1 small
    have passed : ¬m + 1 ≤ cutUnits n d := by
      rw [← sq_le_iff positive, Nat.cast_succ]
      exact large.not_ge
    rw [value, le_antisymm reached (not_lt.1 passed)]
  · intro value
    refine ⟨cutUnits n d, value, ?_, ?_⟩
    · rw [Int.cast_natCast, sq_le_iff positive]
    · rw [Int.cast_natCast, ← Nat.cast_succ]
      apply lt_of_not_ge
      rw [sq_le_iff positive]
      exact Nat.not_succ_le_self _

/-! ## The root that is computed -/

theorem truncatedRoot_mul (n : ℕ) : truncatedRoot n d * 10 ^ 50 = (scaledRadicand n d).sqrt / d := by
  rw [truncatedRoot_eq, rootUnit]
  field_simp

/-- what is behind the fiftieth place is nothing exactly if the division leaves nothing -/
theorem isCutRoot_truncatedRoot_iff (n : ℕ) :
    IsCutRoot (n / d) (truncatedRoot n d) ↔ d ∣ (scaledRadicand n d).sqrt := by
  rw [isCutRoot_iff positive, truncatedRoot_mul positive, cutUnits]
  constructor
  · intro whole
    refine ⟨(scaledRadicand n d).sqrt / d, ?_⟩
    rw [div_eq_iff (by positivity), mul_comm] at whole
    exact_mod_cast whole
  · intro divides
    exact (Nat.cast_div_charZero divides).symm

/-- the first fifty places are those of the root in any case -/
theorem floor_truncatedRoot (n : ℕ) : IsCutRoot (n / d) (⌊truncatedRoot n d * 10 ^ 50⌋ / 10 ^ 50) := by
  rw [isCutRoot_iff positive, truncatedRoot_mul positive, Rat.floor_natCast_div_natCast,
    div_mul_cancel₀ _ (by positivity), ← Int.natCast_ediv, Int.cast_natCast, cutUnits]

end

/-- **Inexact roots are right to fifty places, and cut off there where the denominator allows it.** A number that is not
negative and no square is given a root, whose first fifty decimal places are those of the true root. That there are no
further places is so exactly if the denominator d of the radicand n/d divides the integer root of n·d·10^100, and always
if the radicand is an integer. -/
theorem sqrt_cut_iff {a : Number} (nonnegative : 0 ≤ a.toRat) (inexact : ¬IsSquare a.toRat) :
    ∃ b, a.sqrt = .ok b ∧ b.Normalized ∧
      IsCutRoot a.toRat (⌊b.toRat * 10 ^ 50⌋ / 10 ^ 50) ∧
      (IsCutRoot a.toRat b.toRat ↔ a.toRat.den ∣ (a.toRat.num.natAbs * a.toRat.den * 10 ^ 100).sqrt) ∧
      (a.toRat.den = 1 → IsCutRoot a.toRat b.toRat) := by
  have positive : 0 < a.toRat.den := a.toRat.den_pos
  have first := floor_truncatedRoot positive a.toRat.num.natAbs
  have whole := isCutRoot_truncatedRoot_iff positive a.toRat.num.natAbs
  rw [natAbs_num_div_den nonnegative] at first whole
  refine ⟨_, sqrt_of_not_isSquare nonnegative inexact, normalized_ofRat _, ?_⟩
  rw [toRat_ofRat]
  refine ⟨first, whole, ?_⟩
  intro integral
  rw [whole, integral]
  exact one_dvd _

/-- the root of a third has further places, though the first fifty are right -/
theorem sqrt_cut_iff_third :
    let third : Number := .fraction (1 / 3)
    0 ≤ third.toRat ∧ ¬IsSquare third.toRat ∧ ∃ b, third.sqrt = .ok b ∧
      IsCutRoot (1 / 3) (⌊b.toRat * 10 ^ 50⌋ / 10 ^ 50) ∧ ¬IsCutRoot (1 / 3) b.toRat := by
  intro third
  have nonnegative : 0 ≤ third.toRat := by decide +kernel
  have inexact : ¬IsSquare third.toRat := by decide +kernel
  have remainder : ¬third.toRat.den ∣ (third.toRat.num.natAbs * third.toRat.den * 10 ^ 100).sqrt := by decide +kernel
  obtain ⟨b, root, -, first, whole, -⟩ := sqrt_cut_iff nonnegative inexact
  exact ⟨nonnegative, inexact, b, root, first, mt whole.1 remainder⟩

/-- not every root that is not exact is cut off behind the fiftieth place: that of a third is not -/
theorem sqrt_not_always_cut :
    ¬∀ a : Number, a.Normalized → 0 ≤ a.toRat → ¬IsSquare a.toRat →
      ∃ b, a.sqrt = .ok b ∧ IsCutRoot a.toRat b.toRat := by
  intro always
  let third : Number := .fraction (1 / 3)
  have nonnegative : 0 ≤ third.toRat := by decide +kernel
  have inexact : ¬IsSquare third.toRat := by decide +kernel
  have remainder : ¬third.toRat.den ∣ (scaledRadicand third.toRat.num.natAbs third.toRat.den).sqrt := by decide +kernel
  obtain ⟨b, root, cut⟩ := always third (by decide +kernel) nonnegative inexact
  rw [sqrt_of_not_isSquare nonnegative inexact, Except.ok.injEq] at root
  rw [← root, toRat_ofRat] at cut
  apply remainder
  rw [← isCutRoot_truncatedRoot_iff third.toRat.den_pos, natAbs_num_div_den nonnegative]
  exact cut

end ExactCalc.Number
