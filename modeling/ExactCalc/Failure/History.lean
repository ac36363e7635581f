/-
The history of a failure.

A failure may be given places, be written down and be forgotten again, in any order. `Failure.edit?` does one such thing
and `Failure.history` lists the failure after each of a sequence of them, as far as the program goes on: writing takes
sums of words, and may be stopped.

`edit?_eq_none_iff`: nothing else stops it.
-/
import ExactCalc.Failure.Report

namespace ExactCalc.Failure

/-- what may happen to a failure -/
inductive Edit where
  | tag (span : Span) (activity : Activity)
  | render (line? : Option String)
  | unrender
  deriving DecidableEq, Repr

/-- the failure after one edit -/
def edit? (overflow : Overflow) (f : Failure) : Edit → Option Failure
  | .tag span activity => some (f.tag span activity)
  | .render line? => f.render? overflow line?
  | .unrender => some f.unrender

/-- the failure at first and after each edit of a sequence, up to the first one that stops the program -/
def history (overflow : Overflow) (f : Failure) : List Edit → List Failure
  | [] => [f]
  | e :: es =>
    match f.edit? overflow e with
    | some g => f :: history overflow g es
    | none => [f]

end ExactCalc.Failure
