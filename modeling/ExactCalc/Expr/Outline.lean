/-
The outline of an expression: one line for every node, in the order of a walk, indented by its depth.

`outline_atom`: an atom has an outline of one line, which is not indented.
-/
import ExactCalc.Expr.Walk

namespace ExactCalc.Expr

/-- blanks per level of depth where nothing else is asked for -/
def defaultIndent : Nat := 2

/-- the line about a node -/
def outlineRow (indent : Nat) (node : Expr × Nat) : String :=
  String.ofList (List.replicate (indent * node.2) ' ') ++ node.1.describe ++ "\n"

/-- the outline with so many blanks per level of depth -/
def outline (indent : Nat) (e : Expr) : Except Failure String :=
  e.walk.complete (String.join (e.walk.visited.map (outlineRow indent)))

theorem outline_atom (indent : Nat) (t : Token) : (atom t).outline indent = .ok ((atom t).describe ++ "\n") := by
  simp [outline, outlineRow, Walk.complete]

end ExactCalc.Expr
