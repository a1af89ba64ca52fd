import Rejoin.JoinGraph.Basic

/-!
# Breadth-first trails

Breadth-first search from an anchor finds, for every source it reaches, one
chain of joined sources that leads there.  The search goes by rounds: a round
extends each trail of the last round along the edges of its tip in their order
and keeps the first trail to each source not seen before.  So trails come out
in order of length, and among equally short ones those over earlier edges win.
-/

namespace Rejoin

/-- A chain of joined sources, kept by its last source and those before it, latest first. -/
structure Trail where
  tip : Nat
  before : List Nat
  deriving DecidableEq, Repr

namespace Trail

def start (anchor : Nat) : Trail :=
  ⟨anchor, []⟩

def extend (trail : Trail) (next : Nat) : Trail :=
  ⟨next, trail.tip :: trail.before⟩

/-- The sources of a trail from its anchor to its tip. -/
def toList (trail : Trail) : List Nat :=
  (trail.tip :: trail.before).reverse

@[simp] theorem toList_start (anchor : Nat) : (start anchor).toList = [anchor] := rfl

@[simp] theorem toList_extend (trail : Trail) (next : Nat) :
    (trail.extend next).toList = trail.toList ++ [next] := by
  simp [toList, extend]

@[simp] theorem getLast?_toList (trail : Trail) : trail.toList.getLast? = some trail.tip := by
  simp [toList]

end Trail

namespace JoinGraph

/-- The trails one join longer. -/
def extensions (graph : JoinGraph) (trail : Trail) : List Trail :=
  (graph.neighbors trail.tip).map (fun next => trail.extend next.1)

/-- The first trail to each source that the round reaches and that was not seen. -/
def nextRound (graph : JoinGraph) (seen : List Nat) (round : List Trail) : List Trail :=
  ((round.flatMap graph.extensions).filter (fun trail => !seen.contains trail.tip)).eraseDupsBy
    (fun trail other => trail.tip == other.tip)

/-- The trails of the given number of rounds; `seen` holds the tips of all rounds so far. -/
def rounds (graph : JoinGraph) : Nat → List Nat → List Trail → List Trail
  | 0, _, _ => []
  | count + 1, seen, round =>
      let next := graph.nextRound seen round
      round ++ graph.rounds count (seen ++ next.map Trail.tip) next

/--
One shortest trail from the anchor to every source it reaches, nearest first.
Each round but the last reaches a new source, so as many rounds as there are
sources are enough.
-/
def trails (graph : JoinGraph) (anchor : Nat) : List Trail :=
  if graph.contains anchor then
    graph.rounds graph.nodes.length [anchor] [.start anchor]
  else []

/-- The shortest chain of joined sources from the anchor to the target, both included. -/
def shortestPath? (graph : JoinGraph) (anchor target : Nat) :
    Option (List Nat) :=
  if graph.contains target then
    ((graph.trails anchor).find? (fun trail => trail.tip == target)).map Trail.toList
  else none

/-- The sources that joins link to the anchor, nearest first. -/
def reachable (graph : JoinGraph) (anchor : Nat) : List Nat :=
  (graph.trails anchor).map Trail.tip

end JoinGraph

end Rejoin
