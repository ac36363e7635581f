/-
The value of an expression.

A constant has the value it spells, and nil has no value at all. A list is a call: its head names an operation, and its
other elements are the operands, evaluated from left to right. What goes wrong first is what is reported: the head, the
depth, then one operand after the other, and at last the operation itself. An operator standing alone and nil are no
operands.

A failure in a call is placed at the atom to blame. Where there is none, the innermost list around it that has atoms
gives the place.

`evaluate_nil`, `evaluate_atom`: the values of single nodes.
-/
import ExactCalc.Expr
import ExactCalc.Number.Literal
import ExactCalc.Operation

namespace ExactCalc.Expr

/-- the value of an atom -/
def atomValue (t : Token) : Except Failure Number :=
  if t.kind = .constant then
    (Number.ofText t.text).mapError fun r => (Failure.of r).tag t.span .evaluate
  else .error ((Failure.of (.cannotEvaluate t.kind)).tag t.span .evaluate)

/-- the failure when the head of a list names no operation -/
def undefinedHead (head : Expr) : Failure :=
  (Failure.of (.undefinedFunction head.text)).tagOption head.extent? .evaluate

/-- the operation that the head of a list names, with the atom that names it -/
def callee (head : Expr) : Except Failure (Token × Operation) :=
  match head with
  | .atom t =>
    if t.kind = .identifier ∨ t.kind = .operator then
      match Operation.named? t.text with
      | some f => .ok (t, f)
      | none => .error (undefinedHead head)
    else .error (undefinedHead head)
  | .list _ | .nil => .error (undefinedHead head)

/-- whether an expression may stand in the place of an operand -/
def checkOperand (e : Expr) : Except Failure Unit :=
  match e with
  | .atom t =>
    if t.kind = .operator then .error ((Failure.of (.invalidOperand t.text)).tag t.span .evaluate) else .ok ()
  | .nil => .error (Failure.of (.invalidOperand e.text))
  | .list _ => .ok ()

/-- apply an operation; a failure is placed at the atom that names it -/
def applyAt (t : Token) (f : Operation) (as : List Number) : Except Failure Number :=
  (f.apply as).mapError fun r => (Failure.of r).tag t.span .call

mutual

/-- the value of a node at this depth -/
def evaluateAt (depth : Nat) : Expr → Except Failure (Option Number)
  | .atom t => (atomValue t).map some
  | .nil => .ok none
  | .list es =>
    ((callAt depth es).map some).mapError fun f => f.tagOptionIfBare (extent? (.list es)) .evaluate

/-- the value of a list with these elements at this depth -/
def callAt (depth : Nat) : List Expr → Except Failure Number
  | [] => .error (Failure.of (.undefinedFunction ""))
  | head :: operands => do
    let (t, f) ← callee head
    let inner ← (deeper depth).mapError Failure.of
    let as ← operandsAt inner operands
    applyAt t f as

/-- the values of operands that all lie at this depth -/
def operandsAt (depth : Nat) : List Expr → Except Failure (List Number)
  | [] => .ok []
  | e :: es => do
    checkOperand e
    let a? ← evaluateAt depth e
    let as ← operandsAt depth es
    return a?.toList ++ as

end

/-- the value of an expression, if it has one -/
def evaluate (e : Expr) : Except Failure (Option Number) :=
  e.evaluateAt 0

@[simp] theorem evaluate_nil : nil.evaluate = .ok none := by
  simp [evaluate, evaluateAt]

@[simp] theorem evaluate_atom (t : Token) : (atom t).evaluate = (atomValue t).map some := by
  simp [evaluate, evaluateAt]

end ExactCalc.Expr
