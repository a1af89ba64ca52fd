import Rejoin.Output
import Rejoin.Schema.Basic

/-!
# Views

A view joins sources in declaration order; everything that points at a source
does so by position.  Values of `View` are plain data: one built by hand may
have no sources, positions out of range or fields that contradict each other,
and every operation still has an answer.
-/

namespace Rejoin

/-- How a source takes part in a view. -/
inductive JoinMode where
  | main
  | inner
  | left
  deriving DecidableEq, Repr

/-- The keyword a mode is displayed as. -/
def JoinMode.keyword : JoinMode → String
  | main => "MAIN"
  | inner => "INNER"
  | left => "LEFT"

/-- A source of a view with the conditions declared on it.  Its name in the view is its alias. -/
structure View.Source where
  index : Nat
  table : String
  name : String
  mode : JoinMode
  schema : Schema
  conditions : List (Condition Nat Literal)
  deriving DecidableEq, Repr

/--
A view over indexed sources.  `keyOverride` names the output columns that form
its key when that is not the primary key of the MAIN source.
-/
structure View where
  name : String
  sources : List View.Source
  columns : List (OutputColumn Nat Literal)
  filter : Option String
  literals : List Literal
  keyOverride : Option (List String)
  deriving DecidableEq, Repr

namespace View

/-- The MAIN source, which is the first one. -/
def main? (view : View) : Option Source :=
  view.sources.head?

/-- The source at a position. -/
def source? (view : View) (index : Nat) : Option Source :=
  view.sources[index]?

/-- The first source of that alias. -/
def sourceByAlias? (view : View) (name : String) : Option Source :=
  view.sources.find? (fun source => source.name == name)

/-- The index stored in the first source of that alias. -/
def indexOf? (view : View) (name : String) : Option Nat :=
  (view.sourceByAlias? name).map Source.index

def aliases (view : View) : List String :=
  view.sources.map Source.name

/-- The first output column of that name. -/
def column? (view : View) (name : String) : Option (OutputColumn Nat Literal) :=
  view.columns.find? (fun column => column.name == name)

/-- The first literal of that identity. -/
def literal? (view : View) (id : String) : Option Literal :=
  view.literals.find? (fun literal => literal.id == id)

/-- The output columns the key override names, in its order; unknown names are passed over. -/
def keyColumns? (view : View) : Option (List (OutputColumn Nat Literal)) :=
  view.keyOverride.map (fun names => names.filterMap view.column?)

/-- Every condition of the view in declaration order. -/
def conditions (view : View) : List (Condition Nat Literal) :=
  view.sources.flatMap Source.conditions

def conditionCount (view : View) : Nat :=
  view.conditions.length

end View

end Rejoin
