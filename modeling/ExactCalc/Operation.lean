/-
The ten named operations.

An operation has a name, an arity and a meaning on lists of numbers. `compute` is the meaning, which refuses by itself
the operand counts that it has no answer for, and states for that what it is called and how many operands it takes;
`apply` asks the arity first. Operands are taken from left to right: a difference or a quotient of more than two starts
from the first one, and of equal numbers the first is the least and the greatest.

`named?_name`: an operation is found by its name. `apply_of_accepts`, `apply_of_rejects`: the arity alone decides
whether operands are looked at.
-/
import ExactCalc.Number.Root

namespace ExactCalc

/-- what a list can compute -/
inductive Operation where
  | mul
  | add
  | sub
  | div
  | abs
  | count
  | max
  | min
  | neg
  | sqrt
  deriving DecidableEq, Repr

namespace Operation

/-! ## Names and arities -/

/-- all operations in the order of their names -/
def all : List Operation :=
  [mul, add, sub, div, abs, count, max, min, neg, sqrt]

/-- the name by which an expression calls the operation -/
def name : Operation → String
  | .mul => "*"
  | .add => "+"
  | .sub => "-"
  | .div => "/"
  | .abs => "abs"
  | .count => "count"
  | .max => "max"
  | .min => "min"
  | .neg => "neg"
  | .sqrt => "sqrt"

/-- how many operands it takes -/
def arity : Operation → Arity
  | .abs | .neg | .sqrt => .exactly 1
  | .mul | .add | .sub | .div | .count | .max | .min => .atLeast 1

/-- all names in order -/
def names : List String :=
  all.map name

/-- the operation of that name -/
def named? (name : String) : Option Operation :=
  all.find? fun f => f.name == name

/-- name and arity in short -/
def describe (f : Operation) : String :=
  "Builtin(" ++ f.name ++ ", " ++ f.arity.label ++ ")"

theorem named?_name (f : Operation) : named? f.name = some f := by
  cases f <;> decide

theorem name_of_named? {name : String} {f : Operation} (h : named? name = some f) : f.name = name := by
  simpa using List.find?_some h

theorem named?_eq_some_iff {name : String} {f : Operation} : named? name = some f ↔ f.name = name := by
  refine ⟨name_of_named?, fun h => ?_⟩
  rw [← h]
  exact named?_name f

example : names.Pairwise (· < ·) := by decide

/-! ## Meaning -/

/-- the reason when an operation gets so many operands and its arity does not accept them -/
def miscount (f : Operation) (received : Nat) : Reason :=
  .argumentCount f.name f.arity received

/-- take the operands together from the left, starting with the first; there has to be one -/
def reduce (name : String) (step : Number → Number → Except Reason Number) : List Number → Except Reason Number
  | [] => .error (.argumentCount name (.atLeast 1) 0)
  | a :: as => as.foldlM step a

/-- treat the only operand -/
def unary (name : String) (step : Number → Except Reason Number) : List Number → Except Reason Number
  | [a] => step a
  | as => .error (.argumentCount name (.exactly 1) as.length)

/-- the number of operands, which has to be positive -/
def tally : List Number → Except Reason Number
  | [] => .error (.argumentCount "count" (.atLeast 1) 0)
  | as => .ok (.integer as.length)

/-- the lesser of two numbers, the first one of equals -/
def lesser (a b : Number) : Number :=
  if b.compare a = .lt then b else a

/-- the greater of two numbers, the first one of equals -/
def greater (a b : Number) : Number :=
  if b.compare a = .gt then b else a

/-- the result on these operands -/
def compute : Operation → List Number → Except Reason Number
  | .mul => reduce "*" fun a b => .ok (a.mul b)
  | .add => reduce "+" fun a b => .ok (a.add b)
  | .sub => reduce "-" fun a b => .ok (a.sub b)
  | .div => reduce "/" Number.div
  | .abs => unary "abs" fun a => .ok a.abs
  | .count => tally
  | .max => reduce "max" fun a b => .ok (greater a b)
  | .min => reduce "min" fun a b => .ok (lesser a b)
  | .neg => unary "neg" fun a => .ok a.neg
  | .sqrt => unary "sqrt" Number.sqrt

/-- the result on these operands, whose count is checked first -/
def apply (f : Operation) (as : List Number) : Except Reason Number :=
  if f.arity.accepts as.length then f.compute as else .error (f.miscount as.length)

/-- the result of the operation of that name -/
def applyNamed (name : String) (as : List Number) : Except Reason Number :=
  match named? name with
  | some f => f.apply as
  | none => .error (.undefinedFunction name)

theorem apply_of_accepts {f : Operation} {as : List Number} (h : f.arity.accepts as.length = true) :
    f.apply as = f.compute as :=
  if_pos h

theorem apply_of_rejects {f : Operation} {as : List Number} (h : ¬ f.arity.accepts as.length = true) :
    f.apply as = .error (f.miscount as.length) :=
  if_neg h

end Operation

end ExactCalc
