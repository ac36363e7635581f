import ExactCalc.Main
import ExactCalc.Cursor.Bookmark
import ExactCalc.Expr.Stepwise
import ExactCalc.Failure.History
import ExactCalc.Proofs.Lexical
import ExactCalc.Proofs.Stream
import ExactCalc.Proofs.Reading
import ExactCalc.Proofs.Tree
import ExactCalc.Proofs.Grammar
import ExactCalc.Proofs.RoundTrip
import ExactCalc.Proofs.Exactness
import ExactCalc.Proofs.Numeral
import ExactCalc.Proofs.Denotation
import ExactCalc.Proofs.Nesting
import ExactCalc.Proofs.Checks
import ExactCalc.Proofs.Canonical
import ExactCalc.Proofs.DepthLimit
import ExactCalc.Proofs.Layout
import ExactCalc.Proofs.Placement
import ExactCalc.Proofs.Blame
import ExactCalc.Proofs.Evidence
import ExactCalc.Proofs.Levels
import ExactCalc.Proofs.Radical
import ExactCalc.Proofs.Flags
import ExactCalc.Proofs.Conversation
import ExactCalc.Proofs.Excerpt
import ExactCalc.Proofs.Rounding
import ExactCalc.Proofs.DecimalText
import ExactCalc.Proofs.Truncation
import ExactCalc.Proofs.Recognition
import ExactCalc.Proofs.Variadic
import ExactCalc.Proofs.Comparison
import ExactCalc.Proofs.IntegerText
import ExactCalc.Proofs.Progress
import ExactCalc.Proofs.Extent
import ExactCalc.Proofs.Traversal
import ExactCalc.Proofs.Outline
import ExactCalc.Proofs.Consecutive
import ExactCalc.Proofs.Annotations
import ExactCalc.Proofs.Carets
import ExactCalc.Proofs.MalformedRun
import ExactCalc.Proofs.OperandCount
import ExactCalc.Proofs.Backtracking
