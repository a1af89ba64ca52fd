import Rejoin.Command.Run

/-!
# The program

Runs a command on the files of the system.  Results go to standard output;
the reason of a failure goes to standard error.
-/

namespace Rejoin.Command

/-- The files of the system. -/
def systemFiles : Files IO where
  read? path := do
    match ← (IO.FS.readFile path).toBaseIO with
    | .ok text => return some text
    | .error _ => return none
  write path text := do
    match ← (IO.FS.writeFile path text).toBaseIO with
    | .ok _ => return true
    | .error _ => return false

def Failure.message : Failure → String
  | .file => "failed to read or write a file"
  | .load .undecodable => "invalid view definition: not a definition"
  | .load (.defective defect) => "invalid view definition: " ++ defect.message
  | .plan error => "planning failed: " ++ error.message

end Rejoin.Command

/-- Runs the command and gives its exit code. -/
def main (arguments : List String) : IO UInt32 := do
  let outcome ← Rejoin.Command.run Rejoin.Command.systemFiles arguments
  IO.print outcome.stdout
  match outcome.failure with
  | some failure => IO.eprintln failure.message
  | none => if outcome.exit ≠ 0 then IO.eprint Rejoin.Command.helpText
  return UInt32.ofNat outcome.exit
