/-
Reading a line step by step.

Several expressions may stand in one line. A step reads the next one, or asks whether the line is finished, and each
step goes on from where the one before left the cursor, also when that one failed. `stepwise` lists what a sequence of
steps gives.
-/
import ExactCalc.Expr.Reader

namespace ExactCalc.Expr

/-- what can be asked of the rest of a line -/
inductive Step where
  | expression
  | finish
  deriving DecidableEq, Repr

/-- what a step gives -/
inductive Outcome where
  | expression (result : Except Failure (Located Expr))
  | finish (result : Except Failure Unit)

/-- one step: what it gives, and where it leaves the cursor -/
def step (c : Cursor) : Step → Outcome × Cursor
  | .expression => (.expression (expression c).result, (expression c).cursor)
  | .finish => (.finish (finish c).1, (finish c).2)

/-- what each step of a sequence gives, and where it leaves the cursor -/
def stepwise (c : Cursor) : List Step → List (Outcome × Cursor)
  | [] => []
  | s :: ss => step c s :: stepwise (step c s).2 ss

end ExactCalc.Expr
