import Rejoin.Proofs.JoinGraph.Search

/-!
# The trails of a search

A search has one trail to each source that it reaches, in order of length, and
every trail but the first extends another one.  So a path that is found can be
cut after any of its sources, and what is left is the path to that source.
-/

namespace Rejoin.JoinGraph

variable {graph : JoinGraph} {anchor target depth : Nat} {seen : List Nat} {round : List Trail}

/-! ## Order and distinctness -/

/-- The trails of a round arrive at different sources. -/
theorem nodup_tips_nextRound (graph : JoinGraph) (seen : List Nat) (round : List Trail) :
    ((graph.nextRound seen round).map Trail.tip).Nodup := by
  rw [nextRound, map_eraseDupsBy]
  exact nodup_eraseDups _

namespace Frontier

theorem lt_length (frontier : Frontier graph anchor depth seen round) {count : Nat} {trail : Trail}
    (among : trail ∈ graph.rounds count seen round) : depth < trail.toList.length := by
  induction count generalizing depth seen round with
  | zero => cases among
  | succ count ih =>
      rcases List.mem_append.1 among with now | later
      · rw [(frontier.shortest trail now).2]
        exact Nat.lt_succ_self depth
      · exact Nat.lt_of_succ_lt (ih frontier.next later)

/-- The trails of rounds come in order of length and arrive at different sources. -/
theorem rounds_pairwise (frontier : Frontier graph anchor depth seen round)
    (distinct : (round.map Trail.tip).Nodup) (count : Nat) :
    (graph.rounds count seen round).Pairwise
      (fun earlier later => earlier.tip ≠ later.tip ∧
        earlier.toList.length ≤ later.toList.length) := by
  induction count generalizing depth seen round with
  | zero => exact .nil
  | succ count ih =>
      have later := ih frontier.next (graph.nodup_tips_nextRound seen round)
      rw [rounds, List.pairwise_append]
      refine ⟨?_, later, fun trail now other among => ?_⟩
      · refine (List.pairwise_map.1 distinct).imp_of_mem fun {one other} oneHeld otherHeld apart => ?_
        rw [(frontier.shortest one oneHeld).2, (frontier.shortest other otherHeld).2]
        exact ⟨apart, Nat.le_refl _⟩
      · obtain ⟨shortest, size⟩ := frontier.shortest trail now
        have longer := frontier.next.lt_length among
        refine ⟨fun same => ?_, by omega⟩
        -- Two shortest chains to one source have one length.
        have bound := (frontier.next.rounds_shortest count among).least
          trail.toList (same ▸ shortest.chain)
        omega

end Frontier

theorem trails_pairwise (graph : JoinGraph) (anchor : Nat) :
    (graph.trails anchor).Pairwise
      (fun earlier later => earlier.tip ≠ later.tip ∧
        earlier.toList.length ≤ later.toList.length) := by
  rw [trails]
  split
  · exact (Frontier.start graph anchor).rounds_pairwise (List.nodup_singleton _) _
  · exact .nil

theorem nodup_tips_trails (graph : JoinGraph) (anchor : Nat) :
    ((graph.trails anchor).map Trail.tip).Nodup :=
  List.pairwise_map.2 ((graph.trails_pairwise anchor).imp And.left)

/-- A path is found along the one trail to its target. -/
theorem shortestPath?_eq_some_iff {path : List Nat} :
    graph.shortestPath? anchor target = some path ↔ graph.contains target = true ∧
      ∃ trail ∈ graph.trails anchor, trail.tip = target ∧ trail.toList = path := by
  rw [shortestPath?]
  split
  · next known =>
      simp only [Option.map_eq_some_iff, find?_key_eq_some_iff (graph.nodup_tips_trails anchor),
        known, true_and, and_assoc]
  · next unknown => simp [unknown]

theorem contains_of_mem_trails {trail : Trail} (among : trail ∈ graph.trails anchor) :
    graph.contains anchor = true := by
  by_contra beyond
  simp [trails, beyond] at among

theorem contains_of_shortestPath? {path : List Nat}
    (found : graph.shortestPath? anchor target = some path) :
    graph.contains anchor = true ∧ graph.contains target = true := by
  obtain ⟨known, trail, among, _⟩ := shortestPath?_eq_some_iff.1 found
  exact ⟨contains_of_mem_trails among, known⟩

/-! ## Prefixes -/

/-- A trail of the rounds starts them or extends another trail of theirs. -/
theorem extends_of_mem_rounds {count : Nat} {trail : Trail}
    (among : trail ∈ graph.rounds count seen round) :
    trail ∈ round ∨ ∃ earlier ∈ graph.rounds count seen round, ∃ next,
      trail = earlier.extend next := by
  induction count generalizing seen round with
  | zero => cases among
  | succ count ih =>
      rw [rounds] at among ⊢
      rcases List.mem_append.1 among with now | later
      · exact .inl now
      · right
        rcases ih later with fresh | ⟨earlier, held, next, rfl⟩
        · obtain ⟨earlier, held, next, _, _, rfl⟩ := of_mem_nextRound fresh
          exact ⟨earlier, List.mem_append_left _ held, next, rfl⟩
        · exact ⟨earlier, List.mem_append_right _ held, next, rfl⟩

/-- Every trail but the first extends another one. -/
theorem extends_of_mem_trails {trail : Trail} (among : trail ∈ graph.trails anchor) :
    trail = .start anchor ∨ ∃ earlier ∈ graph.trails anchor, ∃ next,
      trail = earlier.extend next := by
  unfold trails at among ⊢
  split at among
  · next anchored =>
      rw [if_pos anchored]
      exact (extends_of_mem_rounds among).imp_left List.mem_singleton.1
  · cases among

/-- A trail can be cut after any of its sources. -/
theorem exists_trail_take {trail : Trail} (among : trail ∈ graph.trails anchor) {position : Nat}
    (within : position < trail.toList.length) :
    ∃ earlier ∈ graph.trails anchor, earlier.toList = trail.toList.take (position + 1) := by
  obtain ⟨tip, before⟩ := trail
  induction before generalizing tip with
  | nil =>
      refine ⟨⟨tip, []⟩, among, ?_⟩
      obtain rfl : position = 0 := by simpa [Trail.toList] using within
      rfl
  | cons previous before ih =>
      have whole : (Trail.mk tip (previous :: before)).toList =
          (Trail.mk previous before).toList ++ [tip] := Trail.toList_extend ⟨previous, before⟩ tip
      rw [whole, List.length_append, List.length_singleton] at within
      rcases Nat.lt_or_eq_of_le (Nat.le_of_lt_succ within) with shorter | last
      · rw [whole, List.take_append_of_le_length shorter]
        rcases extends_of_mem_trails among with first | ⟨earlier, held, next, longer⟩
        · cases first
        · obtain rfl : earlier = ⟨previous, before⟩ := by
            cases longer
            rfl
          exact ih previous held shorter
      · refine ⟨_, among, (List.take_of_length_le ?_).symm⟩
        rw [whole, List.length_append, last, List.length_singleton]

/-- The path to a source of a path is the part of it up to that source. -/
theorem shortestPath?_take (closed : graph.Closed) {path : List Nat}
    (found : graph.shortestPath? anchor target = some path) {position node : Nat}
    (here : path[position]? = some node) :
    graph.shortestPath? anchor node = some (path.take (position + 1)) := by
  obtain ⟨_, trail, among, _, rfl⟩ := shortestPath?_eq_some_iff.1 found
  have within : position < trail.toList.length := (List.getElem?_eq_some_iff.1 here).1
  obtain ⟨earlier, held, same⟩ := exists_trail_take among within
  have tip : earlier.tip = node := by
    have last := earlier.getLast?_toList
    rw [same, List.getLast?_take, if_neg (Nat.succ_ne_zero position)] at last
    simpa [here, eq_comm] using last
  have known := closed.contains_last (contains_of_mem_trails held)
    (shortest_of_mem_trails held).chain
  exact shortestPath?_eq_some_iff.2 ⟨tip ▸ known, earlier, held, tip, same⟩

end Rejoin.JoinGraph
