import Rejoin.Proofs.JoinGraph.Paths

/-!
# The sources reached from one

The sources reached from an anchor are those to which a path is found, nearest
first and each once: the part of the view that joins link with the anchor.  As
joins lead both ways, every source of it reaches the same ones, and the ways
there and back are equally long.
-/

namespace Rejoin.JoinGraph

variable {graph : JoinGraph} {anchor node : Nat}

theorem nodup_reachable (graph : JoinGraph) (anchor : Nat) : (graph.reachable anchor).Nodup :=
  graph.nodup_tips_trails anchor

/-- The anchor is reached first. -/
theorem head?_reachable (anchored : graph.contains anchor = true) :
    (graph.reachable anchor).head? = some anchor := by
  obtain ⟨count, size⟩ : ∃ count, graph.nodes.length = count + 1 :=
    Nat.exists_eq_add_one_of_ne_zero (Nat.ne_zero_of_lt (of_decide_eq_true anchored))
  rw [reachable, trails, if_pos anchored, size]
  rfl

theorem reachable_eq_nil_iff : graph.reachable anchor = [] ↔ graph.contains anchor = false := by
  constructor
  · intro none
    by_contra anchored
    have first := head?_reachable (Bool.not_eq_false _ ▸ anchored)
    rw [none] at first
    cases first
  · intro beyond
    simp [reachable, trails, beyond]

/-- The sources that are reached are those to which a path is found. -/
theorem Closed.mem_reachable_iff (closed : graph.Closed) :
    node ∈ graph.reachable anchor ↔ ∃ path, graph.shortestPath? anchor node = some path := by
  simp only [shortestPath?_eq_some_iff]
  rw [reachable, List.mem_map]
  constructor
  · rintro ⟨trail, among, rfl⟩
    exact ⟨trail.toList, closed.contains_last (contains_of_mem_trails among)
      (shortest_of_mem_trails among).chain, trail, among, rfl, rfl⟩
  · rintro ⟨_, _, trail, among, tip, _⟩
    exact ⟨trail, among, tip⟩

/-- What is nearer is reached earlier. -/
theorem reachable_pairwise (graph : JoinGraph) (anchor : Nat) :
    (graph.reachable anchor).Pairwise (fun earlier later => ∀ path longer,
      graph.shortestPath? anchor earlier = some path →
      graph.shortestPath? anchor later = some longer → path.length ≤ longer.length) := by
  rw [reachable, List.pairwise_map]
  refine (graph.trails_pairwise anchor).imp_of_mem fun {one other} oneHeld otherHeld ordered => ?_
  intro path longer found otherFound
  have path_eq := (shortestPath?_shortest found).least _ (shortest_of_mem_trails oneHeld).chain
  have longer_eq := (shortest_of_mem_trails otherHeld).least _
    (shortestPath?_shortest otherFound).chain
  omega

end Rejoin.JoinGraph

namespace Rejoin.View

variable {view : View} {anchor : Nat}

/-- Where a path leads there is one back, of the same length. -/
theorem JoinsInRange.path_back (inRange : view.JoinsInRange) {node : Nat} {path : List Nat}
    (found : (JoinGraph.ofView view).shortestPath? anchor node = some path) :
    ∃ back, (JoinGraph.ofView view).shortestPath? node anchor = some back ∧
      back.length = path.length := by
  have shortest := inRange.shortest found
  have reversed := shortest.chain.reverse fun _ _ joined => joined.symm
  obtain ⟨anchored, known, _⟩ := inRange.exists_path_iff.1 ⟨path, found⟩
  obtain ⟨back, foundBack⟩ := inRange.exists_path_iff.2 ⟨known, anchored, path.reverse, reversed⟩
  have shortestBack := inRange.shortest foundBack
  have there := shortest.least _ (shortestBack.chain.reverse fun _ _ joined => joined.symm)
  have andBack := shortestBack.least _ reversed
  rw [List.length_reverse] at there andBack
  exact ⟨back, foundBack, Nat.le_antisymm andBack there⟩

theorem JoinsInRange.mem_reachable_back (inRange : view.JoinsInRange) {node : Nat}
    (reached : node ∈ (JoinGraph.ofView view).reachable anchor) :
    anchor ∈ (JoinGraph.ofView view).reachable node := by
  obtain ⟨path, found⟩ := inRange.closed.mem_reachable_iff.1 reached
  obtain ⟨back, foundBack, _⟩ := inRange.path_back found
  exact inRange.closed.mem_reachable_iff.2 ⟨back, foundBack⟩

/--
Nothing is reached exactly from positions out of range.  From any other the
anchor is reached first, no source twice, those to which there is a path and no
others, nearest first.  Being reached and the length of paths are symmetric, and
a search that reads its own growing list with a cursor ends, with just this list.
-/
theorem reachable_component (inRange : view.JoinsInRange) (anchor : Nat) :
    ((JoinGraph.ofView view).reachable anchor = [] ↔ view.sources.length ≤ anchor) ∧
    (anchor < view.sources.length →
      ((JoinGraph.ofView view).reachable anchor).head? = some anchor ∧
        ∀ collected, (JoinGraph.ofView view).Collects [anchor] [anchor] 0 collected ↔
          collected = (JoinGraph.ofView view).reachable anchor) ∧
    ((JoinGraph.ofView view).reachable anchor).Nodup ∧
    (∀ node, node ∈ (JoinGraph.ofView view).reachable anchor ↔
      ∃ path, (JoinGraph.ofView view).shortestPath? anchor node = some path) ∧
    ((JoinGraph.ofView view).reachable anchor).Pairwise (fun earlier later => ∀ path longer,
      (JoinGraph.ofView view).shortestPath? anchor earlier = some path →
      (JoinGraph.ofView view).shortestPath? anchor later = some longer →
        path.length ≤ longer.length) ∧
    (∀ node, node ∈ (JoinGraph.ofView view).reachable anchor ↔
      anchor ∈ (JoinGraph.ofView view).reachable node) ∧
    (∀ node path, (JoinGraph.ofView view).shortestPath? anchor node = some path →
      ∃ back, (JoinGraph.ofView view).shortestPath? node anchor = some back ∧
        back.length = path.length) := by
  have closed := inRange.closed
  refine ⟨?_, fun anchored => ⟨?_, fun collected => ?_⟩, JoinGraph.nodup_reachable _ _,
    fun node => closed.mem_reachable_iff, JoinGraph.reachable_pairwise _ _, fun node => ?_,
    fun node path found => inRange.path_back found⟩
  · rw [JoinGraph.reachable_eq_nil_iff, ← Bool.not_eq_true, contains_ofView, Nat.not_lt]
  · exact JoinGraph.head?_reachable (contains_ofView.2 anchored)
  · exact JoinGraph.collects_iff closed (contains_ofView.2 anchored)
  · exact ⟨inRange.mem_reachable_back, inRange.mem_reachable_back⟩

/-- From the city the seller is reached before the buyer, and the deal at last. -/
theorem reachable_component_deals : deals.JoinsInRange ∧
    (JoinGraph.ofView deals).Collects [3] [3] 0 [3, 2, 1, 0] ∧
    3 ∈ (JoinGraph.ofView deals).reachable 0 := by
  have reached : (JoinGraph.ofView deals).reachable 3 = [3, 2, 1, 0] := by decide
  obtain ⟨_, within, _, _, _, symmetric, _⟩ := reachable_component deals_joinsInRange 3
  refine ⟨deals_joinsInRange, ((within (by decide)).2 _).2 reached.symm, (symmetric 0).1 ?_⟩
  rw [reached]
  decide

end Rejoin.View
