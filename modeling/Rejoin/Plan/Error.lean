import Rejoin.Condition

/-!
# Why a slice cannot be planned

A missing join path is no failure.  The failures are an argument that the view
does not support, a field the target does not have, and a route that does not
fit the view it is taken through.
-/

namespace Rejoin

/-- What is wrong with an argument of a request. -/
inductive ArgumentFault where
  | unknownAnchor (name view : String)
  | unknownTarget (name view : String)
  | noSources (view : String)
  | noSource (position : Nat)
  | noKeyOverride (view : String)
  | emptyKeyOverride (view : String)
  | unknownKeyColumn (column : String)
  | scatteredKey (view : String)
  deriving DecidableEq, Repr

/-- Where a route does not fit the view. -/
inductive RouteFault where
  | noSource (position : Nat)
  | noJoin (first second : Nat)
  | droppedReference (position : Nat)
  | unrouted (column : String)
  | droppedColumn (column : String)
  deriving DecidableEq, Repr

/-- Why planning fails. -/
inductive PlanError where
  | invalidArgument (fault : ArgumentFault)
  | unknownField (name field : String)
  | brokenRoute (fault : RouteFault)
  deriving DecidableEq, Repr

def ArgumentFault.message : ArgumentFault → String
  | unknownAnchor name view =>
      "anchor alias `" ++ name ++ "` is not a source of view `" ++ view ++ "`"
  | unknownTarget name view =>
      "target alias `" ++ name ++ "` is not a source of view `" ++ view ++ "`"
  | noSources view => "view `" ++ view ++ "` has no sources"
  | noSource position => "no source at position " ++ positionLabel position
  | noKeyOverride view => "view `" ++ view ++ "` declares no key override"
  | emptyKeyOverride view => "key override of view `" ++ view ++ "` names no columns"
  | unknownKeyColumn column => "key column `" ++ column ++ "` is not an output column"
  | scatteredKey view =>
      "key columns of view `" ++ view ++ "` reference more than one source"

def RouteFault.message : RouteFault → String
  | noSource position => "no source at position " ++ positionLabel position
  | noJoin first second =>
      "no join between " ++ positionLabel first ++ " and " ++ positionLabel second
  | droppedReference position =>
      "condition references dropped source " ++ positionLabel position
  | unrouted column => "column `" ++ column ++ "` is not routed"
  | droppedColumn column => "column `" ++ column ++ "` is read from a dropped source"

/-- The sentence that reports a failure. -/
def PlanError.message : PlanError → String
  | invalidArgument fault => "invalid argument: " ++ fault.message
  | unknownField name field =>
      "field `" ++ field ++ "` does not exist in source `" ++ name ++ "`"
  | brokenRoute fault => "inconsistent route: " ++ fault.message

end Rejoin
