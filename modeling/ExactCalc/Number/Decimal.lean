/-
Writing a number in decimal.

An integer is written in full. A fraction is rounded to a number of places, a half away from zero, and all the places
are written; when no number of places is asked for, twenty are computed and zeros at the end are dropped, but for one
digit behind the point. The sign is that of the rounded value, so that nothing is written as minus zero.

`length_padded`: a text that fits is filled up with zeros to the length asked for.
-/
import ExactCalc.Number

namespace ExactCalc.Number

/-! ## Rounding -/

/-- the natural number nearest to n/d, the larger one if there are two -/
def roundNat (n d : Nat) : Nat :=
  (2 * n + d) / (2 * d)

/-- the integer nearest to x·10^places, the one further from zero if there are two -/
def scaled (q : Rat) (places : Nat) : Int :=
  let m := roundNat (q.num.natAbs * tenTo places) q.den
  if q.num < 0 then -(m : Int) else m

/-! ## Digits -/

/-- the digits of a natural number -/
def digits (n : Nat) : List Char :=
  Nat.toDigits 10 n

/-- digits filled up on the left with zeros -/
def padded (length : Nat) (cs : List Char) : List Char :=
  List.replicate (length - cs.length) '0' ++ cs

theorem length_padded {length : Nat} {cs : List Char} (h : cs.length ≤ length) :
    (padded length cs).length = length := by
  simp only [padded, List.length_append, List.length_replicate]
  omega

/-- digits without the zeros at the end, one digit being left at least -/
def withoutFinalZeros (cs : List Char) : List Char :=
  match (cs.reverse.dropWhile (· == '0')).reverse with
  | [] => ['0']
  | ds => ds

/-! ## Texts -/

/-- how many places a fraction is computed to when none are asked for -/
def defaultPlaces : Nat := 20

/-- a sign where the number is negative -/
def signOf (n : Int) : List Char :=
  if n < 0 then ['-'] else []

/-- the integer n in full -/
def integerText (n : Int) : String :=
  String.ofList (signOf n ++ digits n.natAbs)

/-- the places behind the point of m/10^places -/
def fractionDigits (m : Nat) (places : Nat) : List Char :=
  padded places (digits (m % tenTo places))

/-- m/10^places written with the point and these digits behind it -/
def pointText (m : Int) (places : Nat) (behind : List Char) : String :=
  String.ofList (signOf m ++ digits (m.natAbs / tenTo places) ++ '.' :: behind)

/-- a fraction rounded to so many places, all of them written -/
def fixedText (q : Rat) (places : Nat) : String :=
  let m := scaled q places
  if places = 0 then integerText m else pointText m places (fractionDigits m.natAbs places)

/-- a fraction rounded to the default number of places, without zeros at the end -/
def shortText (q : Rat) : String :=
  let m := scaled q defaultPlaces
  pointText m defaultPlaces (withoutFinalZeros (fractionDigits m.natAbs defaultPlaces))

/-- a number in decimal, with so many places behind the point if they are asked for -/
def text (places? : Option Nat) : Number → String
  | .integer n => integerText n
  | .fraction q =>
    match places? with
    | some places => fixedText q places
    | none => shortText q

example : (fraction (mkRat 5 2)).text (some 0) = "3" := by decide +kernel

example : (fraction (mkRat (-1) 8)).text (some 2) = "-0.13" := by decide +kernel

example : (fraction (mkRat (-1) 1000)).text (some 2) = "0.00" := by decide +kernel

example : (fraction (mkRat 7 4)).text none = "1.75" := by decide +kernel

example : (fraction (mkRat 1 (10 ^ 30))).text none = "0.0" := by decide +kernel

example : (integer (-7)).text (some 3) = "-7" := by decide +kernel

end ExactCalc.Number
