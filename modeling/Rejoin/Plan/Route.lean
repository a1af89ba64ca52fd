import Rejoin.JoinGraph.Basic

/-!
# Routes

A route says how values of a target are reached from an anchor: the anchor is
the target, or a chain of joins leads there, or the anchor already stores every
requested value because a join equates its own columns with the target's.
-/

namespace Rejoin

/-- A column of the target read from a column of the anchor. -/
structure Rename where
  targetColumn : String
  anchorColumn : String
  deriving DecidableEq, Repr

/-- The anchor in place of its join with the target. -/
structure Shortcut where
  anchor : Nat
  target : Nat
  renames : List Rename
  deriving DecidableEq, Repr

/-- How requested values are reached. -/
inductive Route where
  | single (anchor : Nat)
  | shortcut (shortcut : Shortcut)
  | chain (path : List Nat)
  deriving DecidableEq, Repr

namespace Shortcut

/--
The shortcut from the anchor to the target for the needed columns.  Their join
is dropped, so every pair of it has to be read, and every needed column must
stand in one; of several pairs for a column the first declared one is read.
-/
def find? (view : View) (graph : JoinGraph) (anchor target : Nat) (needed : List String) :
    Option Shortcut := do
  if anchor = target ∨ needed = [] then none
  else
    let edge ← graph.edgeBetween? anchor target
    let source ← view.source? anchor
    let columns := edge.columnsBetween anchor target
    if columns.all (fun pair => needed.contains pair.2 && source.schema.hasColumn pair.1) then
      let renames ← needed.mapM (fun name =>
        (columns.find? (fun pair => pair.2 == name)).map (fun pair => ⟨name, pair.1⟩))
      some ⟨anchor, target, renames⟩
    else none

end Shortcut

namespace Route

/-- The route along a shortest path, replaced by a shortcut where one is allowed and exists. -/
def ofPath (view : View) (graph : JoinGraph) (allow : Bool) (needed : List String) :
    List Nat → Route
  | [] => chain []
  | [anchor] => single anchor
  | anchor :: next :: rest =>
      let found :=
        if allow then Shortcut.find? view graph anchor (rest.getLastD next) needed else none
      match found with
      | some found => shortcut found
      | none => chain (anchor :: next :: rest)

/-- The sources that a route keeps, in their order in the slice. -/
def sources : Route → List Nat
  | single anchor => [anchor]
  | shortcut found => [found.anchor]
  | chain path => path

/-- The source and the column that a target column is read from. -/
def locate? (route : Route) (column : String) : Option (Nat × String) :=
  match route with
  | single anchor => some (anchor, column)
  | shortcut found =>
      (found.renames.find? (fun rename => rename.targetColumn == column)).map
        (fun rename => (found.anchor, rename.anchorColumn))
  | chain path => path.getLast?.map (fun target => (target, column))

end Route

end Rejoin
