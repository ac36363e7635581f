/-
What can go wrong, and where.

A `Reason` says why a line was rejected. A `Failure` carries a reason, if one is known, together with the trail of
places where it was noticed, innermost first, and the text shown to the user once that has been written.

`span?_tag`: the innermost place stays the first one that was noted. `tagIfBare_of_bare`, `tagIfBare_of_located`: a
bare failure takes a place, and one that has a place already is left as it is.
-/
import ExactCalc.Arity
import ExactCalc.Token

namespace ExactCalc

/-! ## Reasons -/

/-- the stage of the work at which a reason arises -/
inductive Stage where
  | lexical
  | syntactic
  | evaluation
  deriving DecidableEq, Repr

/-- why a line is rejected -/
inductive Reason where
  /-- a character that starts no token, or the first one of a name or number glued to something -/
  | unexpectedChar (c : Char)
  /-- the line ends inside a list -/
  | unterminatedList
  /-- no expression starts with a token of this kind -/
  | invalidEntryPoint (kind : Token.Kind)
  /-- something follows a complete expression -/
  | trailingInput
  /-- an atom that has no value of its own -/
  | cannotEvaluate (kind : Token.Kind)
  /-- the head of a list names no function -/
  | undefinedFunction (name : String)
  | argumentCount (name : String) (arity : Arity) (received : Nat)
  /-- an operator or `()` in the place of an operand -/
  | invalidOperand (text : String)
  | invalidLiteral (text : String)
  | divisionByZero
  /-- an operand outside the domain of its function -/
  | outOfRange
  | tooDeep (limit : Nat)
  deriving DecidableEq, Repr

namespace Reason

/-- the stage at which the reason arises, if it belongs to one -/
def stage? : Reason → Option Stage
  | .unexpectedChar _ => some .lexical
  | .unterminatedList | .invalidEntryPoint _ | .trailingInput => some .syntactic
  | .cannotEvaluate _ | .undefinedFunction _ | .argumentCount _ _ _ | .invalidOperand _ | .invalidLiteral _
  | .divisionByZero | .outOfRange => some .evaluation
  | .tooDeep _ => none

/-- the reason in words -/
def message : Reason → String
  | .unexpectedChar c => "unexpected character '" ++ String.singleton c ++ "'"
  | .unterminatedList => "unterminated list"
  | .invalidEntryPoint kind => "invalid entry point: " ++ kind.label
  | .trailingInput => "unexpected trailing input"
  | .cannotEvaluate kind => "cannot evaluate atom of kind " ++ kind.label
  | .undefinedFunction name => "undefined function `" ++ name ++ "`"
  | .argumentCount name arity received =>
    "wrong number of arguments for `" ++ name ++ "`: expected " ++ arity.text ++ ", got " ++ toString received
  | .invalidOperand text => "invalid operand type `" ++ text ++ "`"
  | .invalidLiteral text => "invalid integer literal `" ++ text ++ "`"
  | .divisionByZero => "division by zero"
  | .outOfRange => "value out of range"
  | .tooDeep limit => "expression nests deeper than " ++ toString limit ++ " levels"

end Reason

/-! ## Places -/

/-- what was being done when a failure was noticed -/
inductive Activity where
  /-- reading the line -/
  | parse
  | evaluate
  /-- applying a function to its operands -/
  | call
  /-- walking through a tree -/
  | visit
  deriving DecidableEq, Repr

/-- the activity in words -/
def Activity.text : Activity → String
  | .parse => "parsing"
  | .evaluate => "evaluating"
  | .call => "calling function"
  | .visit => "traversing"

/-- a place in the line where a failure was noticed -/
structure Location where
  span : Span
  activity : Activity
  deriving DecidableEq, Repr

/-! ## Failures -/

/-- a reason, the places where it was noticed from the innermost outwards, and the text for the user once written -/
structure Failure where
  reason? : Option Reason := none
  trail : List Location := []
  rendered? : Option String := none
  deriving DecidableEq, Repr

namespace Failure

/-- a failure for this reason, not located yet -/
def of (reason : Reason) : Failure where
  reason? := some reason

/-- note one more place -/
def tag (f : Failure) (span : Span) (activity : Activity) : Failure :=
  { f with trail := f.trail ++ [⟨span, activity⟩] }

/-- note a place unless one is noted already -/
def tagIfBare (f : Failure) (span : Span) (activity : Activity) : Failure :=
  if f.trail = [] then f.tag span activity else f

/-- note a place that may be missing -/
def tagOption (f : Failure) (span? : Option Span) (activity : Activity) : Failure :=
  match span? with
  | some span => f.tag span activity
  | none => f

/-- note a place that may be missing, unless one is noted already -/
def tagOptionIfBare (f : Failure) (span? : Option Span) (activity : Activity) : Failure :=
  match span? with
  | some span => f.tagIfBare span activity
  | none => f

/-- the innermost place -/
def span? (f : Failure) : Option Span :=
  f.trail.head?.map Location.span

/-- where the innermost place starts -/
def offset? (f : Failure) : Option Nat :=
  f.span?.map Span.offset

/-- the stage that the failure belongs to -/
def stage? (f : Failure) : Option Stage :=
  f.reason?.bind Reason.stage?

/-- the failure in one line -/
def message (f : Failure) : String :=
  (match f.reason? with
    | some reason => reason.message
    | none => "unknown error") ++
  match f.offset? with
    | some offset => " at offset " ++ toString offset
    | none => ""

/-! ## What tagging keeps -/

@[simp] theorem reason?_of (reason : Reason) : (of reason).reason? = some reason := rfl

@[simp] theorem trail_of (reason : Reason) : (of reason).trail = [] := rfl

@[simp] theorem reason?_tag (f : Failure) (span : Span) (activity : Activity) :
    (f.tag span activity).reason? = f.reason? := rfl

@[simp] theorem trail_tag (f : Failure) (span : Span) (activity : Activity) :
    (f.tag span activity).trail = f.trail ++ [⟨span, activity⟩] := rfl

theorem span?_tag (f : Failure) (span : Span) (activity : Activity) :
    (f.tag span activity).span? = some (f.span?.getD span) := by
  cases h : f.trail with
  | nil => simp [span?, h]
  | cons l ls => simp [span?, h]

theorem tagIfBare_of_bare {f : Failure} (h : f.trail = []) (span : Span) (activity : Activity) :
    f.tagIfBare span activity = f.tag span activity := by
  simp [tagIfBare, h]

theorem tagIfBare_of_located {f : Failure} (h : f.trail ≠ []) (span : Span) (activity : Activity) :
    f.tagIfBare span activity = f := by
  simp [tagIfBare, h]

@[simp] theorem rendered?_of (reason : Reason) : (of reason).rendered? = none := rfl

@[simp] theorem rendered?_tag (f : Failure) (span : Span) (activity : Activity) :
    (f.tag span activity).rendered? = f.rendered? := rfl

@[simp] theorem reason?_tagIfBare (f : Failure) (span : Span) (activity : Activity) :
    (f.tagIfBare span activity).reason? = f.reason? := by
  unfold tagIfBare
  split <;> rfl

@[simp] theorem reason?_tagOption (f : Failure) (span? : Option Span) (activity : Activity) :
    (f.tagOption span? activity).reason? = f.reason? := by
  cases span? <;> rfl

@[simp] theorem reason?_tagOptionIfBare (f : Failure) (span? : Option Span) (activity : Activity) :
    (f.tagOptionIfBare span? activity).reason? = f.reason? := by
  cases span? with
  | none => rfl
  | some span => simp [tagOptionIfBare]

@[simp] theorem rendered?_tagOption (f : Failure) (span? : Option Span) (activity : Activity) :
    (f.tagOption span? activity).rendered? = f.rendered? := by
  cases span? <;> rfl

@[simp] theorem rendered?_tagOptionIfBare (f : Failure) (span? : Option Span) (activity : Activity) :
    (f.tagOptionIfBare span? activity).rendered? = f.rendered? := by
  cases span? with
  | none => rfl
  | some span =>
    rw [tagOptionIfBare, tagIfBare]
    split <;> rfl

end Failure

end ExactCalc
