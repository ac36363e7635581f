/-
Reading an integer from a text.

A literal is a sign part, a digit, and then digits and underscores. The sign part is one of nothing, `+`, `++`, `-` and
`+-`: one `+` may stand in front of everything; a `-` counts unless a `+` comes right behind it; and the digits may
have a `+` of their own. Underscores behind the first digit only group the digits. Every token of kind constant is a
literal, though not the other way round.

`ofText_error`: a text that is no literal is reported whole.
-/
import ExactCalc.Number

namespace ExactCalc.Number

/-- the text without one `+` at its start -/
def dropPlus : List Char → List Char
  | '+' :: cs => cs
  | cs => cs

/-- the value of digits and underscores, the first one a digit -/
def unsignedOf? (cs : List Char) : Option Nat :=
  match cs with
  | [] => none
  | c :: _ =>
    if c.isDigit && cs.all (fun d => d.isDigit || d == '_') then
      some (Nat.ofDigitChars 10 (cs.filter Char.isDigit) 0)
    else none

/-- the value of digits with at most one `+` in front -/
def naturalOf? (cs : List Char) : Option Nat :=
  unsignedOf? (dropPlus cs)

/-- the value of an integer with at most one sign in front -/
def integerOf? : List Char → Option Int
  | '-' :: '+' :: _ => none
  | '-' :: cs => (unsignedOf? cs).map fun n => -(n : Int)
  | cs => (naturalOf? cs).map fun n => (n : Int)

/-- the integer that a text stands for -/
def ofText (s : String) : Except Reason Number :=
  match integerOf? (dropPlus s.toList) with
  | some n => .ok (.integer n)
  | none => .error (.invalidLiteral s)

example : ofText "+-5" = .ok (integer (-5)) := rfl

example : ofText "++1_0" = .ok (integer 10) := rfl

example : ofText "-+5" = .error (.invalidLiteral "-+5") := rfl

theorem ofText_error {s : String} {r : Reason} (h : ofText s = .error r) : r = .invalidLiteral s := by
  unfold ofText at h
  split at h
  · cases h
  · cases h
    rfl

theorem normalized_of_ofText {s : String} {a : Number} (h : ofText s = .ok a) : a.Normalized := by
  unfold ofText at h
  split at h
  · cases h
    exact trivial
  · cases h

end ExactCalc.Number
