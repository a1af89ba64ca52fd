import Rejoin.Json.Record

/-!
# Planning options
-/

namespace Rejoin

/-- How to plan.  With `shortcuts` off every slice is a full chain of joins. -/
structure Options where
  shortcuts : Bool := true
  deriving DecidableEq, Repr

namespace Options

/-- The options that a record holds; what it leaves out has its default. -/
def ofJson? (value : Json) : Option Options := do
  let fields ← value.fields? ["shortcuts"]
  return { shortcuts := ← fields.optional? "shortcuts" true Json.bool? }

end Options

end Rejoin
