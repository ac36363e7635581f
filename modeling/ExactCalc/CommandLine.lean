/-
The command line.

`-c` gives an expression to evaluate, `-v` asks for outlines, and `-p` sets the number of places; without `-c` a
conversation is held. A value may follow its option as an argument of its own, or be attached to it.
-/
import ExactCalc.Session

namespace ExactCalc

/-- what the arguments ask for -/
structure CommandLine where
  code? : Option String := none
  session : Session := {}
  deriving DecidableEq, Repr

namespace CommandLine

/-- a number written in digits alone -/
def countOf? (s : String) : Option Nat :=
  if s.toList ≠ [] ∧ s.toList.all Char.isDigit then some (Nat.ofDigitChars 10 s.toList 0) else none

/-- the value attached to an option, if the argument is that option with a value -/
def attached? (option arg : String) : Option String :=
  if arg ≠ option ∧ option.toList.isPrefixOf arg.toList then
    match arg.toList.drop option.length with
    | '=' :: value => some (String.ofList value)
    | value => if option.length = 2 then some (String.ofList value) else none
  else none

/-- set the number of places that a value spells -/
def setPrecision (c : CommandLine) (value : String) : Except String CommandLine :=
  match countOf? value with
  | some n => .ok { c with session := { c.session with precision := n } }
  | none => .error ("not a number of places: " ++ value)

/-- take an argument that stands by itself -/
def takeOne (c : CommandLine) (arg : String) : Except String CommandLine :=
  if arg = "-v" ∨ arg = "--verbose" then .ok { c with session := { c.session with verbose := true } }
  else
    match attached? "-c" arg, attached? "--precision" arg, attached? "-p" arg with
    | some code, _, _ => .ok { c with code? := some code }
    | _, some value, _ => c.setPrecision value
    | _, _, some value => c.setPrecision value
    | none, none, none => .error ("unexpected argument: " ++ arg)

/-- take arguments from left to right -/
def takeAll (c : CommandLine) : List String → Except String CommandLine
  | [] => .ok c
  | [arg] => c.takeOne arg
  | arg :: value :: rest =>
    if arg = "-c" then takeAll { c with code? := some value } rest
    else if arg = "-p" ∨ arg = "--precision" then
      match c.setPrecision value with
      | .ok c => takeAll c rest
      | .error message => .error message
    else
      match c.takeOne arg with
      | .ok c => takeAll c (value :: rest)
      | .error message => .error message

/-- what these arguments ask for -/
def ofArgs (args : List String) : Except String CommandLine :=
  takeAll {} args

end CommandLine

end ExactCalc
