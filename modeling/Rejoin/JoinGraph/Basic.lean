import Rejoin.View.Basic

/-!
# Join graphs

The conditions of a view that relate two different sources are grouped by the
two sources they relate: each group is an edge.  Edges are numbered in the
order of their first declared condition.  Every other condition is a guard of
the one source it constrains.
-/

namespace Rejoin

/-- The two columns of a join condition, on the sides they were declared. -/
structure ColumnPair where
  left : ColumnRef Nat
  right : ColumnRef Nat
  deriving DecidableEq, Repr

/-- All join conditions between two sources, the smaller position first. -/
structure Edge where
  id : Nat
  ends : Nat × Nat
  pairs : List ColumnPair
  deriving DecidableEq, Repr

/-- A condition that constrains one source alone. -/
structure Guard where
  owner : Nat
  condition : Condition Nat Literal
  deriving DecidableEq, Repr

/-- The aliases of a view's sources, how they are joined and what guards them. -/
structure JoinGraph where
  nodes : List String
  edges : List Edge
  guards : List Guard
  deriving DecidableEq, Repr

/-- Two positions, the smaller one first. -/
def endsOf (a b : Nat) : Nat × Nat :=
  (min a b, max a b)

theorem endsOf_comm (a b : Nat) : endsOf a b = endsOf b a := by
  simp [endsOf, Nat.min_comm a b, Nat.max_comm a b]

theorem endsOf_eq_iff {a b c d : Nat} :
    endsOf a b = endsOf c d ↔ (a = c ∧ b = d) ∨ (a = d ∧ b = c) := by
  simp only [endsOf, Prod.mk.injEq]
  omega

namespace ColumnPair

/-- The pair a condition joins, if it relates two different sources. -/
def ofCondition? (condition : Condition Nat Literal) : Option ColumnPair :=
  condition.join?.map (fun sides => ⟨sides.1, sides.2⟩)

def condition (pair : ColumnPair) : Condition Nat Literal :=
  ⟨.reference pair.left, .reference pair.right⟩

def ends (pair : ColumnPair) : Nat × Nat :=
  endsOf pair.left.source pair.right.source

/-- The column on the side of a source. -/
def columnOf? (pair : ColumnPair) (node : Nat) : Option String :=
  if pair.left.source = node then some pair.left.column
  else if pair.right.source = node then some pair.right.column
  else none

/-- The columns on the sides of two sources. -/
def columns? (pair : ColumnPair) (first second : Nat) : Option (String × String) :=
  (pair.columnOf? first).bind (fun own =>
    (pair.columnOf? second).map (fun other => (own, other)))

end ColumnPair

namespace Edge

/-- The end that is not the given one. -/
def other? (edge : Edge) (node : Nat) : Option Nat :=
  if edge.ends.1 = node then some edge.ends.2
  else if edge.ends.2 = node then some edge.ends.1
  else none

/-- The compared columns, those of the first source before those of the second. -/
def columnsBetween (edge : Edge) (first second : Nat) : List (String × String) :=
  edge.pairs.filterMap (fun pair => pair.columns? first second)

end Edge

namespace Guard

/-- The guard a condition is, if it joins nothing.  Without a reference it guards its declarer. -/
def ofCondition? (declarer : Nat) (condition : Condition Nat Literal) :
    Option Guard :=
  if condition.isJoin then none
  else
    some ⟨(condition.references.head?.map ColumnRef.source).getD declarer, condition⟩

def hasLiteral (guard : Guard) : Bool :=
  !guard.condition.literals.isEmpty

end Guard

namespace View

/-- The joined columns of a view in declaration order. -/
def joinPairs (view : View) : List ColumnPair :=
  view.conditions.filterMap ColumnPair.ofCondition?

/-- The guards of a view in declaration order. -/
def guards (view : View) : List Guard :=
  view.sources.flatMap (fun source => source.conditions.filterMap (Guard.ofCondition? source.index))

end View

/-- The edges of pairs: one for each two sources, with its pairs in order. -/
def edgesOf (pairs : List ColumnPair) : List Edge :=
  (pairs.map ColumnPair.ends).eraseDups.mapIdx
    (fun id ends => ⟨id, ends, pairs.filter (fun pair => pair.ends == ends)⟩)

namespace JoinGraph

/-- The join graph of a view. -/
def ofView (view : View) : JoinGraph :=
  ⟨view.aliases, edgesOf view.joinPairs, view.guards⟩

def contains (graph : JoinGraph) (node : Nat) : Bool :=
  node < graph.nodes.length

def alias? (graph : JoinGraph) (node : Nat) : Option String :=
  graph.nodes[node]?

/-- The position of the first source of that alias. -/
def indexOf? (graph : JoinGraph) (name : String) : Option Nat :=
  graph.nodes.idxOf? name

/-- The edge that joins two sources. -/
def edgeBetween? (graph : JoinGraph) (a b : Nat) : Option Edge :=
  graph.edges.find? (fun edge => edge.ends == endsOf a b)

/-- The sources joined to one, each with the edge that leads there, earliest edge first. -/
def neighbors (graph : JoinGraph) (node : Nat) : List (Nat × Edge) :=
  if graph.contains node then
    graph.edges.filterMap (fun edge => (edge.other? node).map (fun next => (next, edge)))
  else []

def guardsOf (graph : JoinGraph) (node : Nat) : List Guard :=
  graph.guards.filter (fun guard => guard.owner == node)

theorem edgeBetween?_comm (graph : JoinGraph) (a b : Nat) :
    graph.edgeBetween? a b = graph.edgeBetween? b a := by
  simp [edgeBetween?, endsOf_comm a b]

end JoinGraph

end Rejoin
