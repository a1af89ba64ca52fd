/-!
# The arguments of the command line

Arguments name one task, the file of a view and, as the task needs them, an
anchor, a target and fields.  An option takes its value after `=` or from the
next argument, which may not itself look like an option.  Only `--field` may be
repeated.
-/

namespace Rejoin.Command

/-- The words that select a task. -/
inductive TaskWord where
  | keyPath
  | fields
  | computedKey
  | planAll
  deriving DecidableEq, Repr

def TaskWord.ofString? : String → Option TaskWord
  | "key-path" => some .keyPath
  | "fields" => some .fields
  | "computed-key" => some .computedKey
  | "plan-all" => some .planAll
  | _ => none

/-- What to plan. -/
inductive Task where
  | keyPath (anchor : String)
  | fields (anchor : String) (target : Option String) (names : List String)
  | computedKey (anchor : String)
  | planAll
  deriving DecidableEq, Repr

/-- A task with the file of its view and the file its result goes to. -/
structure Invocation where
  task : Task
  view : String
  output : Option String
  shortcuts : Bool
  deriving DecidableEq, Repr

/-- What the arguments ask for. -/
inductive Intent where
  | plan (invocation : Invocation)
  | version
  | help
  deriving DecidableEq, Repr

/-- The options read so far. -/
structure Given where
  view : Option String := none
  output : Option String := none
  anchor : Option String := none
  target : Option String := none
  names : List String := []
  noShortcuts : Bool := false
  deriving DecidableEq, Repr

/-- The name of a long option and the value attached to it. -/
def longOption? (argument : String) : Option (String × Option String) :=
  match argument.toList with
  | '-' :: '-' :: letters =>
      match letters.dropWhile (fun c => c != '=') with
      | [] => some (String.ofList letters, none)
      | _ :: value =>
          some (String.ofList (letters.takeWhile (fun c => c != '=')), some (String.ofList value))
  | _ => none

/-- Whether an argument may be the value of the option before it. -/
def isValue (argument : String) : Bool :=
  match argument.toList with
  | ['-'] => true
  | '-' :: _ => false
  | _ => true

/-- Whether an argument asks for help. -/
def asksHelp (argument : String) : Bool :=
  argument == "--help" || "-h".isPrefixOf argument

/-- A value for an option that has none yet. -/
def once? (held : Option String) (value : String) : Option (Option String) :=
  match held with
  | none => some (some value)
  | some _ => none

namespace Given

/-- Takes the value of an option, if the task has the option and it is not given already. -/
def set? (word : TaskWord) (given : Given) (name value : String) : Option Given :=
  match name with
  | "view" => (once? given.view value).map (fun view => { given with view := view })
  | "output" => (once? given.output value).map (fun output => { given with output := output })
  | "anchor" =>
      if word = .planAll then none
      else (once? given.anchor value).map (fun anchor => { given with anchor := anchor })
  | "target" =>
      if word = .fields then
        (once? given.target value).map (fun target => { given with target := target })
      else none
  | "field" =>
      if word = .fields then some { given with names := given.names ++ [value] } else none
  | _ => none

/-- The invocation that complete options describe. -/
def invocation? (word : TaskWord) (given : Given) : Option Invocation := do
  let view ← given.view
  let task ←
    match word with
    | .keyPath => given.anchor.map .keyPath
    | .fields => given.anchor.map (fun anchor => .fields anchor given.target given.names)
    | .computedKey => given.anchor.map .computedKey
    | .planAll => some .planAll
  return ⟨task, view, given.output, !given.noShortcuts⟩

/-- Reads the arguments after the task's word. -/
def read? (word : TaskWord) (given : Given) : List String → Option Intent
  | [] => (given.invocation? word).map .plan
  | argument :: rest =>
      if argument = "--" then
        -- Nothing may follow the separator, since no task takes bare arguments.
        if rest.isEmpty then (given.invocation? word).map .plan else none
      else if asksHelp argument then some .help
      else
        match longOption? argument with
        | none => none
        | some ("no-shortcuts", none) =>
            if given.noShortcuts then none
            else read? word { given with noShortcuts := true } rest
        | some (name, some value) =>
            match given.set? word name value with
            | none => none
            | some next => read? word next rest
        | some (name, none) =>
            match rest with
            | [] => none
            | value :: others =>
                if isValue value then
                  match given.set? word name value with
                  | none => none
                  | some next => read? word next others
                else none

end Given

namespace Intent

/-- What the arguments ask for, unless they are not understood. -/
def ofArguments? : List String → Option Intent
  | [] => none
  | first :: rest =>
      if first = "--version" || "-V".isPrefixOf first then some version
      else if asksHelp first then some help
      else if first = "help" then
        match rest with
        | [] => some help
        | [topic] => if topic = "help" || (TaskWord.ofString? topic).isSome then some help else none
        | _ => none
      else (TaskWord.ofString? first).bind (fun word => Given.read? word {} rest)

end Intent

end Rejoin.Command
