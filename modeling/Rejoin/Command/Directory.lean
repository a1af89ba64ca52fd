import Rejoin.Command.Run

/-!
# A directory of files

A finite directory without subdirectories, as a store of files.  A path means a
file of the directory when it is a name, possibly after steps that stay in the
directory.  A file holds any bytes, and what may be read and written is settled
by name, for files that exist and for files that do not.
-/

namespace Rejoin.Command

/-- Files by name, each name once. -/
structure Directory where
  files : List (String × ByteArray)

/-- The names that may be read and those that may be written. -/
structure Access where
  reads : String → Bool := fun _ => true
  writes : String → Bool := fun _ => true

/-- Files that are given by texts hold the texts in UTF-8. -/
instance Directory.ofTexts : Coe (List (String × String)) (List (String × ByteArray)) where
  coe files := files.map (fun file => (file.1, file.2.toUTF8))

namespace Directory

/-- The steps of a path, which slashes separate. -/
def steps : List Char → List (List Char)
  | [] => [[]]
  | c :: rest =>
      if c = '/' then [] :: steps rest
      else
        match steps rest with
        | [] => [[c]]
        | step :: others => (c :: step) :: others

/-- The name of the file that a path leads to without leaving the directory. -/
def nameOf? (path : String) : Option String :=
  match (steps path.toList).reverse with
  | [] => none
  | name :: before =>
      if name ∈ [[], ['.'], ['.', '.']] then none
      -- An absolute path starts with a slash, so its first step is empty.
      else if before.getLast? = some [] then none
      else if before.all (fun step => step == [] || step == ['.']) then some (String.ofList name)
      else none

/-- The text of a file, if it may be read and its bytes are one. -/
def read? (directory : Directory) (access : Access) (path : String) : Option String :=
  ((nameOf? path).filter access.reads).bind
    (fun name => (directory.files.lookup name).bind String.fromUTF8?)

/-- The name of the file that is written at a path, if it may be. -/
def target? (access : Access) (path : String) : Option String :=
  (nameOf? path).filter access.writes

/-- The directory with a file created or replaced. -/
def put (directory : Directory) (name : String) (bytes : ByteArray) : Directory :=
  ⟨if directory.files.any (fun file => file.1 == name) then
    directory.files.map (fun file => if file.1 == name then (name, bytes) else file)
  else directory.files ++ [(name, bytes)]⟩

/-- The texts of the files that are not the same in an earlier directory. -/
def changedFrom (directory before : Directory) : List (String × String) :=
  directory.files.filterMap (fun file =>
    if before.files.lookup file.1 == some file.2 then none
    else (String.fromUTF8? file.2).map (fun text => (file.1, text)))

/-- The directory as a store whose state is its content. -/
def store (access : Access) : Files (StateM Directory) where
  read? path := return (← get).read? access path
  write path text :=
    match target? access path with
    | none => return false
    | some name => do
        modify (fun directory => directory.put name text.toUTF8)
        return true

/-- Runs a command in the directory. -/
def run (directory : Directory) (arguments : List String) (access : Access := {}) :
    Outcome × Directory :=
  StateT.run (Command.run (store access) arguments) directory

end Directory

end Rejoin.Command
