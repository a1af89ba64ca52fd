import Rejoin.View.Basic

/-!
# View definitions

A definition is a view as its author writes it: sources are named by alias,
literals by identity.  Resolving it (`Rejoin.Definition.Resolve`) checks it and
replaces the names by positions and values.
-/

namespace Rejoin

/-- A source as it is declared, with its conditions.  Its name in the view is its alias. -/
structure Definition.Source where
  name : String
  table : String
  mode : JoinMode
  schema : Schema
  conditions : List (Condition String String)
  deriving DecidableEq, Repr

/-- A view definition.  `key` names output columns that replace the MAIN primary key. -/
structure Definition where
  name : String
  sources : List Definition.Source
  columns : List (OutputColumn String String)
  filter : Option String
  literals : List Literal
  key : Option (List String)
  deriving DecidableEq, Repr

namespace Definition

/-- The definition that has a name and nothing else. -/
def empty (name : String) : Definition :=
  ⟨name, [], [], none, [], none⟩

end Definition

end Rejoin
