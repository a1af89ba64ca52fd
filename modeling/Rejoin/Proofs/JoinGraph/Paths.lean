import Rejoin.Proofs.JoinGraph.Queue
import Rejoin.Proofs.JoinGraph.Trails

/-!
# Paths between sources

A path is found between two sources of a view exactly if declared joins link
them.  It is a chain of joined sources without repetition, no other chain is
shorter, and a search with a queue ends with the same path.
-/

namespace Rejoin.View

variable {view : View} {anchor target : Nat} {path : List Nat}

/-- A way from one source to another along edges, not longer than any chain of joins. -/
structure Connects (view : View) (anchor target : Nat) (path : List Nat) : Prop where
  starts : path.head? = some anchor
  ends : path.getLast? = some target
  nodup : path.Nodup
  edges : ∀ position node next, path[position]? = some node → path[position + 1]? = some next →
    ∃ edge, (JoinGraph.ofView view).edgeBetween? node next = some edge
  least : ∀ other, Chain view.Joined anchor target other → path.length ≤ other.length

theorem connects_of_shortest (shortest : Shortest view.Joined anchor target path) :
    view.Connects anchor target path where
  starts := shortest.chain.head?
  ends := shortest.chain.getLast?
  nodup := shortest.nodup
  edges := fun _ _ _ here there => (shortest.chain.joined_next here there).exists_edgeBetween?
  least := shortest.least

theorem JoinsInRange.shortest (inRange : view.JoinsInRange)
    (found : (JoinGraph.ofView view).shortestPath? anchor target = some path) :
    Shortest view.Joined anchor target path := by
  have shortest := JoinGraph.shortestPath?_shortest found
  rwa [inRange.linked_eq_joined] at shortest

/-- A path is found exactly between sources of the view that a chain of joins links. -/
theorem JoinsInRange.exists_path_iff (inRange : view.JoinsInRange) :
    (∃ path, (JoinGraph.ofView view).shortestPath? anchor target = some path) ↔
      anchor < view.sources.length ∧ target < view.sources.length ∧
        ∃ path, Chain view.Joined anchor target path := by
  constructor
  · rintro ⟨path, found⟩
    obtain ⟨anchored, known⟩ := JoinGraph.contains_of_shortestPath? found
    exact ⟨contains_ofView.1 anchored, contains_ofView.1 known, path, (inRange.shortest found).chain⟩
  · rintro ⟨_, known, linked⟩
    rw [← inRange.linked_eq_joined] at linked
    exact (JoinGraph.exists_shortestPath?_iff (contains_ofView.2 known)).2 linked

/-- From a source to itself nothing is shorter than staying. -/
theorem JoinsInRange.path_self (inRange : view.JoinsInRange)
    (anchored : anchor < view.sources.length) :
    (JoinGraph.ofView view).shortestPath? anchor anchor = some [anchor] := by
  obtain ⟨path, found⟩ := inRange.exists_path_iff.2 ⟨anchored, anchored, [anchor], .single anchor⟩
  have shortest := inRange.shortest found
  have bound := shortest.least [anchor] (.single anchor)
  rw [found]
  cases shortest.chain with
  | single => rfl
  | cons _ rest => cases rest <;> simp at bound

/--
Where joins name no other positions than those of the view, there is no path
exactly if an end is out of range or no chain of joins links the two, and a path
that is found connects them.  A search with a queue ends, with just that answer.
-/
theorem path_outcome (inRange : view.JoinsInRange) (anchor target : Nat) :
    ((JoinGraph.ofView view).shortestPath? anchor target = none ↔
      view.sources.length ≤ anchor ∨ view.sources.length ≤ target ∨
        ¬ ∃ path, Chain view.Joined anchor target path) ∧
    (∀ path, (JoinGraph.ofView view).shortestPath? anchor target = some path →
      view.Connects anchor target path) ∧
    (anchor < view.sources.length →
      (JoinGraph.ofView view).shortestPath? anchor anchor = some [anchor]) ∧
    (anchor < view.sources.length → target < view.sources.length → ∀ found,
      (JoinGraph.ofView view).Searches target [anchor] [.start anchor] found ↔
        found = (JoinGraph.ofView view).shortestPath? anchor target) := by
  refine ⟨?_, fun path found => connects_of_shortest (inRange.shortest found),
    inRange.path_self, fun anchored known found => ?_⟩
  · rw [← Option.not_isSome_iff_eq_none, Option.isSome_iff_exists, inRange.exists_path_iff,
      not_and_or, not_and_or, Nat.not_lt, Nat.not_lt]
  · exact JoinGraph.searches_iff inRange.closed (contains_ofView.2 anchored)
      (contains_ofView.2 known)

end Rejoin.View

namespace Rejoin

/-! ## A view with two ways around -/

/-- Deals of a buyer and a seller, who live in one city. -/
def View.deals : View where
  name := "deals"
  sources := [
    ⟨0, "deals", "deal", .main,
      ⟨"deals", ["id"], [⟨"id", "bigint"⟩, ⟨"buyer", "bigint"⟩, ⟨"seller", "bigint"⟩]⟩, []⟩,
    ⟨1, "people", "buyer", .inner, ⟨"people", ["id"], [⟨"id", "bigint"⟩, ⟨"city", "bigint"⟩]⟩,
      [⟨.reference ⟨1, "id"⟩, .reference ⟨0, "buyer"⟩⟩]⟩,
    ⟨2, "people", "seller", .inner, ⟨"people", ["id"], [⟨"id", "bigint"⟩, ⟨"city", "bigint"⟩]⟩,
      [⟨.reference ⟨0, "seller"⟩, .reference ⟨2, "id"⟩⟩]⟩,
    ⟨3, "cities", "city", .left, ⟨"cities", ["id"], [⟨"id", "bigint"⟩, ⟨"name", "text"⟩]⟩,
      [⟨.reference ⟨3, "id"⟩, .reference ⟨2, "city"⟩⟩,
        ⟨.reference ⟨1, "city"⟩, .reference ⟨3, "id"⟩⟩,
        ⟨.reference ⟨3, "name"⟩, .literal ⟨"town", "Delft"⟩⟩]⟩]
  columns := [⟨"deal", .reference ⟨0, "id"⟩⟩]
  filter := none
  literals := [⟨"town", "Delft"⟩]
  keyOverride := none

theorem View.deals_joinsInRange : View.deals.JoinsInRange := by
  unfold View.JoinsInRange
  decide

/-- The path from a deal to its city leads over the buyer, who is declared first. -/
theorem View.path_outcome_deals : View.deals.JoinsInRange ∧
    View.deals.Connects 0 3 [0, 1, 3] ∧
    (JoinGraph.ofView View.deals).Searches 3 [0] [.start 0] (some [0, 1, 3]) := by
  have found : (JoinGraph.ofView View.deals).shortestPath? 0 3 = some [0, 1, 3] := by decide
  obtain ⟨_, connects, _, searches⟩ := path_outcome deals_joinsInRange 0 3
  exact ⟨deals_joinsInRange, connects _ found,
    (searches (by decide) (by decide) _).2 found.symm⟩

end Rejoin
