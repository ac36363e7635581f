/-
How many operands a function takes.

`accepts_exactly`, `accepts_atLeast`: the counts that are accepted.
-/

namespace ExactCalc

/-- the operand counts that a function accepts -/
inductive Arity where
  | exactly (count : Nat)
  | atLeast (count : Nat)
  deriving DecidableEq, Repr

namespace Arity

/-- whether a function of this arity takes so many operands -/
def accepts : Arity → Nat → Bool
  | .exactly n, count => count == n
  | .atLeast n, count => n ≤ count

@[simp] theorem accepts_exactly {n count : Nat} : (exactly n).accepts count = true ↔ count = n := by
  simp [accepts]

@[simp] theorem accepts_atLeast {n count : Nat} : (atLeast n).accepts count = true ↔ n ≤ count := by
  simp [accepts]

/-- a number of arguments in words -/
def arguments (n : Nat) : String :=
  toString n ++ if n = 1 then " argument" else " arguments"

/-- the arity in words -/
def text : Arity → String
  | .exactly n => "exactly " ++ arguments n
  | .atLeast n => "at least " ++ arguments n

/-- the arity in short -/
def label : Arity → String
  | .exactly n => "Exactly(" ++ toString n ++ ")"
  | .atLeast n => "AtLeast(" ++ toString n ++ ")"

end Arity

end ExactCalc
