import Rejoin.Plan.Route

/-!
# Sources that survive in a slice

The survivors of a route are the sources it keeps.  Each gets a new position,
its place in the order; a source listed more than once has its last place.
Guards survive with their owner.
-/

namespace Rejoin

/-- The sources of a slice in order. -/
structure Survivors where
  order : List Nat
  deriving DecidableEq, Repr

/-- The last place of a number in a list. -/
def lastPlace? (node : Nat) : List Nat → Option Nat
  | [] => none
  | first :: rest =>
      match lastPlace? node rest with
      | some place => some (place + 1)
      | none => if first = node then some 0 else none

theorem lastPlace?_isSome_iff {node : Nat} {order : List Nat} :
    (lastPlace? node order).isSome ↔ node ∈ order := by
  induction order with
  | nil => simp [lastPlace?]
  | cons first rest ih =>
      cases found : lastPlace? node rest with
      | none =>
          have absent : node ∉ rest := fun among => by simp [found] at ih; exact ih among
          by_cases same : first = node
          · simp [lastPlace?, found, same]
          · simp [lastPlace?, found, same, absent, Ne.symm same]
      | some place =>
          have present : node ∈ rest := ih.1 (by simp [found])
          simp [lastPlace?, found, present]

theorem getElem?_lastPlace? {node place : Nat} {order : List Nat}
    (found : lastPlace? node order = some place) : order[place]? = some node := by
  induction order generalizing place with
  | nil => simp [lastPlace?] at found
  | cons first rest ih =>
      cases later : lastPlace? node rest with
      | some held =>
          simp only [lastPlace?, later, Option.some.injEq] at found
          subst found
          simpa using ih later
      | none =>
          simp only [lastPlace?, later] at found
          split at found
          · next same => cases found; simp [same]
          · cases found

namespace Survivors

/-- The survivors of a route. -/
def ofRoute (route : Route) : Survivors :=
  ⟨route.sources⟩

def contains (survivors : Survivors) (node : Nat) : Bool :=
  survivors.order.contains node

/-- The position of a source in the slice. -/
def position? (survivors : Survivors) (node : Nat) : Option Nat :=
  lastPlace? node survivors.order

def size (survivors : Survivors) : Nat :=
  survivors.order.length

def isEmpty (survivors : Survivors) : Bool :=
  survivors.order.isEmpty

/-- The guards that go into the slice: those whose owner survives. -/
def retain (survivors : Survivors) (graph : JoinGraph) : List Guard :=
  graph.guards.filter (fun guard => survivors.contains guard.owner)

end Survivors

end Rejoin
