/-
Walking through an expression.

A walk meets every node before its elements, and the elements from left to right, each with its depth. It stops at the
first list whose elements would lie too deep, having met that list itself; the failure is placed at its atoms.

`walk_atom`, `walk_nil`: a walk through a single node meets it alone and does not fail.
-/
import ExactCalc.Expr

namespace ExactCalc

/-- the nodes met with their depths, and why the walk stopped early if it did -/
structure Walk where
  visited : List (Expr × Nat)
  failure? : Option Failure := none
  deriving DecidableEq, Repr

namespace Walk

/-- one walk followed by another, unless the first one stopped early -/
def andThen (w : Walk) (next : Walk) : Walk :=
  match w.failure? with
  | some _ => w
  | none => ⟨w.visited ++ next.visited, next.failure?⟩

/-- the greatest depth met -/
def deepest (w : Walk) : Nat :=
  w.visited.foldl (fun depth node => max depth node.2) 0

/-- a result of a walk that must not have stopped early -/
def complete {α : Type} (w : Walk) (result : α) : Except Failure α :=
  match w.failure? with
  | some f => .error f
  | none => .ok result

theorem andThen_of_failed {w : Walk} {f : Failure} (h : w.failure? = some f) (next : Walk) : w.andThen next = w := by
  simp [andThen, h]

theorem andThen_of_finished {w : Walk} (h : w.failure? = none) (next : Walk) :
    w.andThen next = ⟨w.visited ++ next.visited, next.failure?⟩ := by
  simp [andThen, h]

end Walk

namespace Expr

mutual

/-- the walk from a node at this depth -/
def walkAt (depth : Nat) : Expr → Walk
  | .atom t => ⟨[(.atom t, depth)], none⟩
  | .nil => ⟨[(.nil, depth)], none⟩
  | .list es =>
    match deeper depth with
    | .error r => ⟨[(.list es, depth)], some ((Failure.of r).tagOption (extent? (.list es)) .visit)⟩
    | .ok inner => ⟨(.list es, depth) :: (walkList inner es).visited, (walkList inner es).failure?⟩

/-- the walk through nodes that all lie at this depth -/
def walkList (depth : Nat) : List Expr → Walk
  | [] => ⟨[], none⟩
  | e :: es => (walkAt depth e).andThen (walkList depth es)

end

/-- the walk from the root -/
def walk (e : Expr) : Walk :=
  e.walkAt 0

/-- the depth of the deepest node -/
def depth (e : Expr) : Except Failure Nat :=
  e.walk.complete e.walk.deepest

@[simp] theorem walk_atom (t : Token) : (atom t).walk = ⟨[(atom t, 0)], none⟩ := by
  simp [walk, walkAt]

@[simp] theorem walk_nil : nil.walk = ⟨[(nil, 0)], none⟩ := by
  simp [walk, walkAt]

end Expr

end ExactCalc
