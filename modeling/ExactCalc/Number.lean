/-
Exact numbers.

A number is an integer of any size or a fraction. Two integers are added, subtracted and multiplied as integers; as
soon as a fraction takes part the work is done on rationals, and `ofRat` turns a result without a denominator back into
an integer. A number is `Normalized` if it is written as a fraction only where it has to be.

`normalized_ofRat`, `toRat_ofRat`: turning a rational into a number keeps its value and gives the normalized form.
`toRat_injective`: two normalized numbers of one value are the same. `compare_eq`: integers are ordered as the
rationals that they are.
-/
import ExactCalc.Failure

namespace ExactCalc

/-- an integer or a fraction -/
inductive Number where
  | integer (n : Int)
  | fraction (q : Rat)
  deriving DecidableEq, Repr

namespace Number

/-! ## Value and form -/

/-- the value as a rational -/
def toRat : Number → Rat
  | .integer n => n
  | .fraction q => q

/-- the number of this value, an integer if it can be -/
def ofRat (q : Rat) : Number :=
  if q.den = 1 then .integer q.num else .fraction q

/-- no fraction stands for an integer -/
def Normalized : Number → Prop
  | .integer _ => True
  | .fraction q => q.den ≠ 1

instance (a : Number) : Decidable a.Normalized :=
  match a with
  | .integer _ => .isTrue trivial
  | .fraction q => inferInstanceAs (Decidable (q.den ≠ 1))

@[simp] theorem toRat_integer (n : Int) : (integer n).toRat = n := rfl

@[simp] theorem toRat_fraction (q : Rat) : (fraction q).toRat = q := rfl

@[simp] theorem normalized_integer (n : Int) : (integer n).Normalized := trivial

theorem normalized_ofRat (q : Rat) : (ofRat q).Normalized := by
  unfold ofRat
  split
  · exact trivial
  · assumption

@[simp] theorem toRat_ofRat (q : Rat) : (ofRat q).toRat = q := by
  unfold ofRat
  split
  · rename_i whole
    exact Rat.ext (by simp) (by simp [whole])
  · rfl

theorem ofRat_toRat {a : Number} (h : a.Normalized) : ofRat a.toRat = a := by
  cases a with
  | integer n => simp [ofRat]
  | fraction q => exact if_neg h

theorem toRat_injective {a b : Number} (ha : a.Normalized) (hb : b.Normalized) (h : a.toRat = b.toRat) : a = b := by
  rw [← ofRat_toRat ha, h, ofRat_toRat hb]

/-! ## Arithmetic -/

/-- a power of ten -/
def tenTo (n : Nat) : Nat :=
  Nat.pow 10 n

/-- an operation given on integers and on rationals -/
def combine (onInt : Int → Int → Int) (onRat : Rat → Rat → Rat) : Number → Number → Number
  | .integer m, .integer n => .integer (onInt m n)
  | a, b => ofRat (onRat a.toRat b.toRat)

/-- sum -/
def add : Number → Number → Number :=
  combine (· + ·) (· + ·)

/-- difference -/
def sub : Number → Number → Number :=
  combine (· - ·) (· - ·)

/-- product -/
def mul : Number → Number → Number :=
  combine (· * ·) (· * ·)

/-- whether the value is zero -/
def isZero : Number → Bool
  | .integer n => n == 0
  | .fraction q => q == 0

/-- quotient, which is an integer if nothing remains -/
def div (a b : Number) : Except Reason Number :=
  if b.isZero then .error .divisionByZero else .ok (ofRat (a.toRat / b.toRat))

/-- negation -/
def neg : Number → Number
  | .integer n => .integer (-n)
  | .fraction q => .fraction (-q)

/-- absolute value -/
def abs : Number → Number
  | .integer n => .integer n.natAbs
  | .fraction q => .fraction q.abs

/-- order of the values -/
def compare : Number → Number → Ordering
  | .integer m, .integer n => Ord.compare m n
  | a, b => compareOfLessAndEq a.toRat b.toRat

/-- order of the values as far as they can be compared, which they always can -/
def compare? (a b : Number) : Option Ordering :=
  some (a.compare b)

theorem normalized_combine (onInt : Int → Int → Int) (onRat : Rat → Rat → Rat) (a b : Number) :
    (combine onInt onRat a b).Normalized := by
  unfold combine
  split
  · exact trivial
  · exact normalized_ofRat _

theorem toRat_combine {onInt : Int → Int → Int} {onRat : Rat → Rat → Rat}
    (agree : ∀ m n : Int, ((onInt m n : Int) : Rat) = onRat m n) (a b : Number) :
    (combine onInt onRat a b).toRat = onRat a.toRat b.toRat := by
  unfold combine
  split
  · exact agree _ _
  · exact toRat_ofRat _

@[simp] theorem toRat_add (a b : Number) : (a.add b).toRat = a.toRat + b.toRat :=
  toRat_combine Rat.intCast_add a b

@[simp] theorem toRat_sub (a b : Number) : (a.sub b).toRat = a.toRat - b.toRat :=
  toRat_combine Rat.intCast_sub a b

@[simp] theorem toRat_mul (a b : Number) : (a.mul b).toRat = a.toRat * b.toRat :=
  toRat_combine Rat.intCast_mul a b

@[simp] theorem toRat_neg (a : Number) : a.neg.toRat = -a.toRat := by
  cases a with
  | integer n => exact Rat.intCast_neg n
  | fraction q => rfl

theorem toRat_abs (a : Number) : a.abs.toRat = a.toRat.abs := by
  cases a with
  | fraction q => rfl
  | integer n =>
    simp only [abs, toRat_integer, Rat.abs, Rat.intCast_nonneg]
    split
    · rename_i h
      rw [Int.natAbs_of_nonneg h]
    · rename_i h
      rw [← Rat.intCast_neg, Int.ofNat_natAbs_of_nonpos (Int.le_of_lt (Int.not_le.1 h))]

theorem normalized_neg {a : Number} (h : a.Normalized) : a.neg.Normalized := by
  cases a with
  | integer n => trivial
  | fraction q => simpa [neg, Normalized] using h

theorem normalized_abs {a : Number} (h : a.Normalized) : a.abs.Normalized := by
  cases a with
  | integer n => trivial
  | fraction q =>
    simp only [abs, Rat.abs, Normalized]
    split
    · exact h
    · simpa [Normalized] using h

/-- integers are ordered as the rationals that they are -/
theorem compare_eq (a b : Number) : a.compare b = compareOfLessAndEq a.toRat b.toRat := by
  match a, b with
  | .integer m, .integer n =>
    show (if m < n then Ordering.lt else if m = n then .eq else .gt) =
      if (m : Rat) < n then Ordering.lt else if (m : Rat) = n then .eq else .gt
    simp only [Rat.intCast_lt_intCast, Rat.intCast_inj]
  | .integer _, .fraction _ => rfl
  | .fraction _, .integer _ => rfl
  | .fraction _, .fraction _ => rfl

theorem isZero_iff (a : Number) : a.isZero = true ↔ a.toRat = 0 := by
  cases a with
  | integer n => simp [isZero]
  | fraction q => simp [isZero]

end Number

end ExactCalc
