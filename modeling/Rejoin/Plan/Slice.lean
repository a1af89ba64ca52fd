import Rejoin.Plan.Request
import Rejoin.Plan.Survivors

/-!
# Cutting a slice out of a view

A slice keeps aliases, tables and schemas of the surviving sources.  The first
one becomes MAIN, the others are joined INNER.  Each joined source carries the
join conditions that lead to it and then its guards, all moved to the new
positions; the literals are those that are still used.
-/

namespace Rejoin

/-- What a slice is assembled from.  The parts are independent and may not fit together. -/
structure Blueprint where
  view : View
  graph : JoinGraph
  route : Route
  survivors : Survivors
  guards : List Guard

namespace Blueprint

/-- A condition at the positions of the slice. -/
def move (blueprint : Blueprint) (condition : Condition Nat Literal) :
    Except PlanError (Condition Nat Literal) :=
  match condition.references.find? (fun ref => !blueprint.survivors.contains ref.source) with
  | some missing => .error (.brokenRoute (.droppedReference missing.source))
  | none =>
      .ok (condition.mapSource
        (fun source => (blueprint.survivors.position? source).getD source))

/-- The join conditions that lead from the previous source of a chain to a source. -/
def joinConditions (blueprint : Blueprint) (previous : Option Nat) (node : Nat) :
    Except PlanError (List (Condition Nat Literal)) :=
  match blueprint.route, previous with
  | .chain _, some previous =>
      match blueprint.graph.edgeBetween? previous node with
      | some edge => .ok (edge.pairs.map ColumnPair.condition)
      | none => .error (.brokenRoute (.noJoin previous node))
  | _, _ => .ok []

/-- The guards that a source carries. -/
def guardConditions (blueprint : Blueprint) (node : Nat) : List (Condition Nat Literal) :=
  (blueprint.guards.filter (fun guard => guard.owner == node)).map Guard.condition

/-- One source of the slice. -/
def source (blueprint : Blueprint) (previous : Option Nat) (position node : Nat) :
    Except PlanError View.Source :=
  match blueprint.view.source? node with
  | none => .error (.brokenRoute (.noSource node))
  | some entry => do
      let joins ← blueprint.joinConditions previous node
      let conditions ← (joins ++ blueprint.guardConditions node).mapM blueprint.move
      return {
        index := position
        table := entry.table
        name := entry.name
        mode := if position = 0 then .main else .inner
        schema := entry.schema
        conditions := conditions }

/-- The sources of the slice from a position on. -/
def sources (blueprint : Blueprint) (previous : Option Nat) (position : Nat) :
    List Nat → Except PlanError (List View.Source)
  | [] => .ok []
  | node :: rest => do
      let first ← blueprint.source previous position node
      let others ← blueprint.sources (some node) (position + 1) rest
      return first :: others

/-- One output column of the slice. -/
def project (blueprint : Blueprint) : Projection → Except PlanError (OutputColumn Nat Literal)
  | .copied column => .ok column
  | .column name column =>
      match blueprint.route.locate? column with
      | none => .error (.brokenRoute (.unrouted column))
      | some (node, stored) =>
          match blueprint.survivors.position? node with
          | none => .error (.brokenRoute (.droppedColumn column))
          | some position => .ok ⟨name, .reference ⟨position, stored⟩⟩

end Blueprint

/-- The literals that sources and output columns use, each identity once, by first use. -/
def usedLiterals (sources : List View.Source) (columns : List (OutputColumn Nat Literal)) :
    List Literal :=
  ((sources.flatMap View.Source.conditions).flatMap Condition.literals ++
    columns.filterMap (fun column => column.origin.literal?)).eraseDupsBy
      (fun literal other => literal.id == other.id)

/-- The slice that a blueprint makes for a request. -/
def Blueprint.build (blueprint : Blueprint) (request : Request) : Except PlanError View := do
  let sources ← blueprint.sources none 0 blueprint.survivors.order
  let columns ← request.projections.mapM blueprint.project
  return {
    name := blueprint.view.name
    sources := sources
    columns := columns
    filter := none
    literals := usedLiterals sources columns
    keyOverride := none }

end Rejoin
