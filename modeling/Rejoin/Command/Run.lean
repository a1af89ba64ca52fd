import Rejoin.Command.Report

/-!
# Running a command

A command reads one file, and only when everything else has succeeded prints
its result or writes it to one file.  The steps are the same over any store of
files: the real file system, or the `Directory` defined here.
-/

namespace Rejoin.Command

/-- A store of files: reading may find nothing, writing may be refused. -/
structure Files (m : Type → Type) where
  read? : String → m (Option String)
  write : String → String → m Bool

/-- What a finished command shows: its exit code, the text it printed, why it failed. -/
structure Outcome where
  exit : Nat
  stdout : String
  failure : Option Failure
  deriving DecidableEq, Repr

def Outcome.success (stdout : String) : Outcome :=
  ⟨0, stdout, none⟩

def Outcome.failed (failure : Failure) : Outcome :=
  ⟨1, "", some failure⟩

/-- The arguments were not understood. -/
def Outcome.misused : Outcome :=
  ⟨2, "", none⟩

def versionText : String :=
  "ivpp 0.1.0\n"

def helpText : String :=
  "Incremental view path planner\n\n" ++
  "Usage:\n" ++
  "  ivpp key-path      --view F --anchor A [--output F] [--no-shortcuts]\n" ++
  "  ivpp fields        --view F --anchor A [--target A] [--field N]... [--output F] [--no-shortcuts]\n" ++
  "  ivpp computed-key  --view F --anchor A [--output F] [--no-shortcuts]\n" ++
  "  ivpp plan-all      --view F [--output F] [--no-shortcuts]\n" ++
  "  ivpp --version\n"

variable {m : Type → Type} [Monad m]

/-- Plans, then prints the result or writes it to the output file. -/
def Invocation.run (files : Files m) (invocation : Invocation) : m Outcome := do
  match ← files.read? invocation.view with
  | none => return .failed .file
  | some text =>
      match invocation.render text with
      | .error failure => return .failed failure
      | .ok result =>
          match invocation.output with
          | none => return .success (result ++ "\n")
          | some path =>
              if ← files.write path result then return .success ""
              else return .failed .file

/-- Runs what the arguments ask for. -/
def run (files : Files m) (arguments : List String) : m Outcome :=
  match Intent.ofArguments? arguments with
  | none => return .misused
  | some .version => return .success versionText
  | some .help => return .success helpText
  | some (.plan invocation) => invocation.run files

end Rejoin.Command
