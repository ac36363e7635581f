/-
Driving a cursor by hand, with a bookmark to come back to.

A reader of a line may look ahead, move on, skip blanks, set the bookmark and return to it, in any order. `move` does
one such thing and shows the token that it met, if it met one; `history` lists what a whole sequence shows.
-/
import ExactCalc.Cursor

namespace ExactCalc.Cursor

/-- what can be done with a cursor -/
inductive Move where
  /-- look at the next token -/
  | peek
  /-- take the next token, which is an end token again and again at the end -/
  | next
  /-- take the next token, or nothing at the end -/
  | iterate
  | skipBlanks
  /-- set the bookmark here -/
  | save
  /-- return to the bookmark -/
  | restore
  deriving DecidableEq, Repr

/-- a cursor with a remembered one -/
structure Bookmarked where
  cursor : Cursor
  mark : Cursor
  deriving DecidableEq, Repr

namespace Bookmarked

/-- at the start of a line, which is also marked -/
def start (line : String) : Bookmarked :=
  ⟨Cursor.start line, Cursor.start line⟩

/-- one move: the token that it shows, and where it leads -/
def move (b : Bookmarked) : Move → Option Token × Bookmarked
  | .peek => (some b.cursor.peek, b)
  | .next =>
    let step := b.cursor.next
    (some step.1, { b with cursor := step.2 })
  | .iterate =>
    let step := b.cursor.next
    (if step.1.kind = .endOfInput then none else some step.1, { b with cursor := step.2 })
  | .skipBlanks => (none, { b with cursor := b.cursor.skipBlanks })
  | .save => (none, { b with mark := b.cursor })
  | .restore => (none, { b with cursor := b.mark })

/-- the token shown by each move of a sequence, and the state behind it -/
def history (b : Bookmarked) : List Move → List (Option Token × Bookmarked)
  | [] => []
  | m :: ms =>
    let shown := b.move m
    shown :: shown.2.history ms

end Bookmarked

end ExactCalc.Cursor
