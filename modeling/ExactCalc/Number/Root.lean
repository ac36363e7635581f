/-
Square roots.

The root of a fraction in lowest terms is a fraction exactly if numerator and denominator are both squares; then it is
given exactly. Any other root is cut off: the root of n/d is that of n·d over d, and the root of n·d is computed to
fifty decimal places and rounded down.

`sqrt_of_neg`: there is no root of a negative number.
-/
import ExactCalc.Number

namespace ExactCalc.Number

/-- decimal places of a root that is not exact -/
def rootDigits : Nat := 50

/-- the root, rounded down to a multiple of 1/(d·10^50) with d the denominator -/
def truncatedRoot (n d : Nat) : Rat :=
  mkRat (Nat.sqrt (n * d * (tenTo rootDigits * tenTo rootDigits))) (d * tenTo rootDigits)

/-- the exact root of n/d, if both are squares -/
def exactRoot? (n d : Nat) : Option Rat :=
  if n.sqrt * n.sqrt = n ∧ d.sqrt * d.sqrt = d then some (mkRat n.sqrt d.sqrt) else none

/-- square root -/
def sqrt (a : Number) : Except Reason Number :=
  let q := a.toRat
  if q < 0 then .error .outOfRange
  else .ok (ofRat ((exactRoot? q.num.natAbs q.den).getD (truncatedRoot q.num.natAbs q.den)))

theorem sqrt_of_neg {a : Number} (h : a.toRat < 0) : a.sqrt = .error .outOfRange := by
  simp [sqrt, h]

theorem sqrt_of_not_neg {a : Number} (h : ¬ a.toRat < 0) :
    a.sqrt = .ok (ofRat ((exactRoot? a.toRat.num.natAbs a.toRat.den).getD
      (truncatedRoot a.toRat.num.natAbs a.toRat.den))) := by
  simp [sqrt, h]

end ExactCalc.Number
