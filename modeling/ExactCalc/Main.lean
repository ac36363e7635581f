/-
The program: arguments and lines in, answers and complaints out.
-/
import ExactCalc.CommandLine

open ExactCalc

/-- print an output -/
def printOutput (out : Output) : IO Unit := do
  (← IO.getStdout).putStr out.answers
  (← IO.getStderr).putStr out.complaints
  (← IO.getStdout).flush

/-- hold a conversation with the lines of standard input -/
partial def converseWith (input : IO.FS.Stream) (s : Session) : IO Unit := do
  let line ← input.getLine
  if line.isEmpty then return
  let (out, next?) := s.step line
  printOutput out
  match next? with
  | some next => converseWith input next
  | none => return

def main (args : List String) : IO UInt32 := do
  match CommandLine.ofArgs args with
  | .error message =>
    printOutput (.complaint ("error: " ++ message ++ "\n"))
    return 2
  | .ok request =>
    match request.code? with
    | some code =>
      let (status, out) := request.session.oneShot code
      printOutput out
      return status.toUInt32
    | none =>
      printOutput (.answer Session.banner)
      converseWith (← IO.getStdin) request.session
      return 0
