import Rejoin.Proofs.JoinGraph.Search

/-!
# The search beside a leaf

A leaf is a last node that is linked with one other node at most.  A graph with a
leaf and the graph without it are searched in lockstep: each round finds the same
trails in the same order, apart from trails to the leaf, and nothing is found
from there.
-/

namespace Rejoin

/-- Entries that contribute nothing can be dropped. -/
theorem flatMap_filter_of_nil {α β : Type} {contents : α → List β} {keep : α → Bool}
    {entries : List α}
    (nothing : ∀ entry ∈ entries, keep entry = false → contents entry = []) :
    (entries.filter keep).flatMap contents = entries.flatMap contents := by
  induction entries with
  | nil => rfl
  | cons entry rest ih =>
      have later := ih fun other among => nothing other (List.mem_cons_of_mem _ among)
      rw [List.flatMap_cons, List.filter_cons]
      split
      · rw [List.flatMap_cons, later]
      · next dropped =>
          have empty := nothing entry List.mem_cons_self (Bool.eq_false_iff.2 dropped)
          rw [later, empty, List.nil_append]

namespace JoinGraph

/-- The larger graph is the smaller one with a last node that only the hub is linked with. -/
structure AddsLeaf (small large : JoinGraph) (leaf hub : Nat) : Prop where
  size : small.nodes.length = leaf
  largeSize : large.nodes.length = leaf + 1
  others : ∀ node, node ≠ leaf →
    (large.successors node).filter (fun next => next != leaf) = small.successors node
  fromLeaf : ∀ node, large.Linked leaf node → node = hub
  toLeaf : ∀ node, large.Linked node leaf → node = hub

variable {small large : JoinGraph} {leaf hub anchor target : Nat}

/-! ## Rounds in lockstep -/

/-- Where two searches are: they differ in the leaf alone, which is found after its hub. -/
structure Alongside (leaf hub : Nat) (seen largeSeen : List Nat) (round largeRound : List Trail) :
    Prop where
  round : largeRound.filter (fun trail => trail.tip != leaf) = round
  seen : ∀ node, node ≠ leaf → (node ∈ largeSeen ↔ node ∈ seen)
  tips : ∀ trail ∈ largeRound, trail.tip ∈ largeSeen
  hub : ∀ trail ∈ largeRound, trail.tip = leaf → hub ∈ largeSeen

namespace Alongside

variable {seen largeSeen : List Nat} {round largeRound : List Trail}

theorem start (apart : anchor ≠ leaf) :
    Alongside leaf hub [anchor] [anchor] [.start anchor] [.start anchor] where
  round := by simp [Trail.start, apart]
  seen := fun _ _ => Iff.rfl
  tips := by simp [Trail.start]
  hub := by
    intro trail among atLeaf
    obtain rfl := List.mem_singleton.1 among
    exact absurd atLeaf apart

/-- From the leaf a trail goes on to no new node. -/
theorem extensions_from_leaf (adds : AddsLeaf small large leaf hub)
    (alongside : Alongside leaf hub seen largeSeen round largeRound) {trail : Trail}
    (among : trail ∈ largeRound) (atLeaf : trail.tip = leaf) :
    (large.extensions trail).filter
        (fun longer => !largeSeen.contains longer.tip && longer.tip != leaf) = [] := by
  rw [List.filter_eq_nil_iff]
  intro longer extended
  obtain ⟨next, link, rfl⟩ := mem_extensions.1 extended
  rw [atLeaf] at link
  obtain rfl := adds.fromLeaf next link
  simp [Trail.extend, alongside.hub trail among atLeaf]

/-- From any other node a trail goes on to the same new nodes, the leaf apart. -/
theorem extensions_from_other (adds : AddsLeaf small large leaf hub)
    (alongside : Alongside leaf hub seen largeSeen round largeRound) {trail : Trail}
    (apart : trail.tip ≠ leaf) :
    (large.extensions trail).filter
        (fun longer => !largeSeen.contains longer.tip && longer.tip != leaf) =
      (small.extensions trail).filter (fun longer => !seen.contains longer.tip) := by
  rw [extensions_eq, extensions_eq, ← adds.others trail.tip apart, List.filter_map,
    List.filter_map, List.filter_filter]
  congr 1
  refine List.filter_congr fun next _ => ?_
  by_cases last : next = leaf
  · simp [Trail.extend, last]
  · have same : largeSeen.contains next = seen.contains next := by
      rw [Bool.eq_iff_iff, List.contains_iff_mem, List.contains_iff_mem, alongside.seen next last]
    simp only [Function.comp_apply, Trail.extend, same]

/-- The next rounds find the same trails, those to the leaf apart. -/
theorem filter_nextRound (adds : AddsLeaf small large leaf hub)
    (alongside : Alongside leaf hub seen largeSeen round largeRound) :
    (large.nextRound largeSeen largeRound).filter (fun trail => trail.tip != leaf) =
      small.nextRound seen round := by
  rw [nextRound, nextRound, filter_eraseDupsBy Trail.tip (fun tip => tip != leaf)]
  congr 1
  calc ((largeRound.flatMap large.extensions).filter
          (fun trail => !largeSeen.contains trail.tip)).filter (fun trail => trail.tip != leaf)
    _ = largeRound.flatMap (fun trail => (large.extensions trail).filter
          (fun longer => !largeSeen.contains longer.tip && longer.tip != leaf)) := by
        rw [List.filter_filter, List.filter_flatMap]
        simp only [Bool.and_comm]
    _ = (largeRound.filter (fun trail => trail.tip != leaf)).flatMap
          (fun trail => (large.extensions trail).filter
            (fun longer => !largeSeen.contains longer.tip && longer.tip != leaf)) := by
        refine (flatMap_filter_of_nil fun trail among atLeaf => ?_).symm
        exact alongside.extensions_from_leaf adds among (by simpa using atLeaf)
    _ = (largeRound.filter (fun trail => trail.tip != leaf)).flatMap
          (fun trail => (small.extensions trail).filter
            (fun longer => !seen.contains longer.tip)) := by
        refine List.flatMap_congr fun trail among => ?_
        exact alongside.extensions_from_other adds (by simpa using (List.mem_filter.1 among).2)
    _ = (round.flatMap small.extensions).filter (fun trail => !seen.contains trail.tip) := by
        rw [alongside.round, List.filter_flatMap]

/-- Rounds in lockstep are followed by rounds in lockstep. -/
theorem next (adds : AddsLeaf small large leaf hub)
    (alongside : Alongside leaf hub seen largeSeen round largeRound) :
    Alongside leaf hub (seen ++ (small.nextRound seen round).map Trail.tip)
      (largeSeen ++ (large.nextRound largeSeen largeRound).map Trail.tip)
      (small.nextRound seen round) (large.nextRound largeSeen largeRound) where
  round := alongside.filter_nextRound adds
  seen := by
    intro node apart
    rw [List.mem_append, List.mem_append, alongside.seen node apart,
      ← alongside.filter_nextRound adds]
    simp only [List.mem_map, List.mem_filter, bne_iff_ne]
    grind
  tips := fun _ among => List.mem_append_right _ (List.mem_map_of_mem among)
  hub := by
    intro trail among atLeaf
    -- The leaf is stepped to from the hub alone, which is then a tip of the last round.
    obtain ⟨earlier, held, next, link, _, rfl⟩ := of_mem_nextRound among
    obtain rfl : next = leaf := atLeaf
    rw [← adds.toLeaf _ link]
    exact List.mem_append_left _ (alongside.tips earlier held)

/-- All rounds find the same trails, those to the leaf apart. -/
theorem filter_rounds (adds : AddsLeaf small large leaf hub)
    (alongside : Alongside leaf hub seen largeSeen round largeRound) (count : Nat) :
    (large.rounds count largeSeen largeRound).filter (fun trail => trail.tip != leaf) =
      small.rounds count seen round := by
  induction count generalizing seen largeSeen round largeRound with
  | zero => rfl
  | succ count ih =>
      rw [rounds, rounds, List.filter_append, alongside.round, ih (alongside.next adds)]

end Alongside

/-! ## The paths that are found -/

variable {graph : JoinGraph}

/-- More rounds only add trails. -/
theorem exists_rounds_succ (graph : JoinGraph) (count : Nat) (seen : List Nat)
    (round : List Trail) :
    ∃ last, graph.rounds (count + 1) seen round = graph.rounds count seen round ++ last := by
  induction count generalizing seen round with
  | zero => exact ⟨_, rfl⟩
  | succ count ih =>
      obtain ⟨last, more⟩ := ih (seen ++ (graph.nextRound seen round).map Trail.tip)
        (graph.nextRound seen round)
      refine ⟨last, ?_⟩
      rw [rounds, more, ← List.append_assoc]
      rfl

/-- As many rounds as there are nodes find what one more would find. -/
theorem find?_rounds_succ (anchored : graph.contains anchor = true)
    (known : graph.contains target = true) :
    (graph.rounds (graph.nodes.length + 1) [anchor] [.start anchor]).find?
        (fun trail => trail.tip == target) =
      (graph.trails anchor).find? (fun trail => trail.tip == target) := by
  obtain ⟨last, more⟩ := graph.exists_rounds_succ graph.nodes.length [anchor] [.start anchor]
  have trails : graph.trails anchor =
      graph.rounds graph.nodes.length [anchor] [.start anchor] := if_pos anchored
  rw [more, List.find?_append, ← trails]
  cases missing : (graph.trails anchor).find? (fun trail => trail.tip == target) with
  | some trail => rfl
  | none =>
      -- A trail of the extra round is a shortest chain, to which an earlier round has a trail.
      rw [Option.none_or, List.find?_eq_none]
      intro trail late tip
      have tip : trail.tip = target := by simpa using tip
      have reached : Shortest graph.Linked anchor trail.tip trail.toList := by
        refine (Frontier.start graph anchor).rounds_shortest (graph.nodes.length + 1) ?_
        rw [more]
        exact List.mem_append_right _ late
      rw [tip] at reached
      obtain ⟨found, among, same⟩ := exists_trail reached.chain known
      simpa [same] using List.find?_eq_none.1 missing found among

/-- A leaf changes no path between other nodes. -/
theorem AddsLeaf.shortestPath?_eq (adds : AddsLeaf small large leaf hub)
    (anchored : small.contains anchor = true) (known : small.contains target = true) :
    large.shortestPath? anchor target = small.shortestPath? anchor target := by
  have anchorBelow : anchor < leaf := by simpa [contains, adds.size] using anchored
  have targetBelow : target < leaf := by simpa [contains, adds.size] using known
  have largeAnchored : large.contains anchor = true := by
    simp only [contains, adds.largeSize, decide_eq_true_eq]
    omega
  have largeKnown : large.contains target = true := by
    simp only [contains, adds.largeSize, decide_eq_true_eq]
    omega
  rw [shortestPath?, shortestPath?, if_pos known, if_pos largeKnown]
  congr 1
  calc (large.trails anchor).find? (fun trail => trail.tip == target)
    _ = (large.rounds (leaf + 1) [anchor] [.start anchor]).find?
          (fun trail => trail.tip == target) := by
        rw [trails, if_pos largeAnchored, adds.largeSize]
    _ = ((large.rounds (leaf + 1) [anchor] [.start anchor]).filter
          (fun trail => trail.tip != leaf)).find? (fun trail => trail.tip == target) := by
        rw [List.find?_filter]
        congr 1
        funext trail
        rw [Bool.eq_iff_iff]
        simp only [beq_iff_eq, bne_iff_ne, decide_eq_true_eq]
        omega
    _ = (small.rounds (leaf + 1) [anchor] [.start anchor]).find?
          (fun trail => trail.tip == target) := by
        rw [(Alongside.start (Nat.ne_of_lt anchorBelow)).filter_rounds adds]
    _ = (small.trails anchor).find? (fun trail => trail.tip == target) := by
        rw [← adds.size, find?_rounds_succ anchored known]

end JoinGraph

end Rejoin
