import Rejoin.Definition.Json
import Rejoin.Definition.Resolve

/-!
# Loading views

A view is loaded from the text of its definition or from the value of one.
-/

namespace Rejoin

/-- Why no view is loaded. -/
inductive LoadError where
  | undecodable
  | defective (defect : Defect)
  deriving DecidableEq, Repr

namespace View

/-- The view of a definition, if there is a definition. -/
def ofDefinition? : Option Definition → Except LoadError View
  | none => .error .undecodable
  | some definition => definition.resolve.mapError .defective

/-- The view that a value defines. -/
def ofDefinitionJson (value : Json) : Except LoadError View :=
  ofDefinition? (Definition.ofJson? value)

/-- The view that a text defines. -/
def load (text : String) : Except LoadError View :=
  ofDefinition? (Definition.parse? text)

end View

end Rejoin
