import Rejoin.Proofs.JoinGraph.Edges

/-!
# Searching with a queue

A search may also keep the trails that wait to be extended in a queue: it takes
the oldest one and appends the trails to its new neighbours, which are seen from
then on.  Served in that order the trails are those of the rounds.  So a search
that stops at its target, and one that only lists the nodes in the order in
which it sees them, both end, with the path and the nodes that the rounds find.
-/

namespace Rejoin.JoinGraph

variable {graph : JoinGraph} {anchor target depth : Nat} {seen : List Nat}

/-- The nodes not seen before, each of which is seen from its first place on. -/
def arrivals (seen : List Nat) : List Nat → List Nat
  | [] => []
  | next :: rest =>
      if seen.contains next then arrivals seen rest
      else next :: arrivals (seen ++ [next]) rest

theorem arrivals_eq (seen nexts : List Nat) :
    arrivals seen nexts = (nexts.filter (fun next => !seen.contains next)).eraseDups := by
  induction nexts generalizing seen with
  | nil => rfl
  | cons next rest ih =>
      rw [arrivals, List.filter_cons]
      cases seen.contains next with
      | true => exact ih seen
      | false =>
          simp only [Bool.false_eq_true, if_false, Bool.not_false, if_true, ih,
            List.eraseDups_cons, List.filter_filter]
          congr 3
          funext other
          rw [Bool.eq_iff_iff]
          simp [and_comm]

/-- A round is what its trails add one after the other. -/
theorem nextRound_cons (graph : JoinGraph) (seen : List Nat) (trail : Trail) (round : List Trail) :
    graph.nextRound seen (trail :: round) =
      (arrivals seen (graph.successors trail.tip)).map trail.extend ++
        graph.nextRound (seen ++ arrivals seen (graph.successors trail.tip)) round := by
  rw [nextRound, List.flatMap_cons, List.filter_append, eraseDupsBy_append, extensions_eq,
    List.filter_map, eraseDupsBy_map fun _ => rfl, arrivals_eq, nextRound, List.filter_filter]
  congr 3
  funext longer
  rw [Bool.eq_iff_iff]
  simp [Trail.extend]
  grind

/-- The queue is emptied, and serves the trails in this order. -/
inductive Drains (graph : JoinGraph) : List Nat → List Trail → List Trail → Prop where
  | done (seen : List Nat) : Drains graph seen [] []
  | pop {seen : List Nat} {trail : Trail} {queue served : List Trail}
      (rest : Drains graph (seen ++ arrivals seen (graph.successors trail.tip))
        (queue ++ (arrivals seen (graph.successors trail.tip)).map trail.extend) served) :
      Drains graph seen (trail :: queue) (trail :: served)

/--
A search that takes trails from the queue until one arrives at the target ends
with the path of that trail, or with none when the queue is empty.
-/
inductive Searches (graph : JoinGraph) (target : Nat) :
    List Nat → List Trail → Option (List Nat) → Prop where
  | exhausted (seen : List Nat) : Searches graph target seen [] none
  | arrived {seen : List Nat} {trail : Trail} {queue : List Trail} (here : trail.tip = target) :
      Searches graph target seen (trail :: queue) (some trail.toList)
  | onwards {seen : List Nat} {trail : Trail} {queue : List Trail} {found : Option (List Nat)}
      (apart : trail.tip ≠ target)
      (rest : Searches graph target (seen ++ arrivals seen (graph.successors trail.tip))
        (queue ++ (arrivals seen (graph.successors trail.tip)).map trail.extend) found) :
      Searches graph target seen (trail :: queue) found

/--
A search that reads a list of nodes with a cursor, and appends the new neighbours
of each node that it reads, ends with the whole list when the cursor has passed it.
-/
inductive Collects (graph : JoinGraph) : List Nat → List Nat → Nat → List Nat → Prop where
  | ended {seen order : List Nat} {cursor : Nat} (past : order[cursor]? = none) :
      Collects graph seen order cursor order
  | onwards {seen order collected : List Nat} {cursor node : Nat}
      (here : order[cursor]? = some node)
      (rest : Collects graph (seen ++ arrivals seen (graph.successors node))
        (order ++ arrivals seen (graph.successors node)) (cursor + 1) collected) :
      Collects graph seen order cursor collected

theorem Searches.unique {queue : List Trail} {found other : Option (List Nat)}
    (searches : Searches graph target seen queue found)
    (again : Searches graph target seen queue other) : found = other := by
  induction searches with
  | exhausted seen =>
      cases again
      rfl
  | arrived here =>
      cases again with
      | arrived => rfl
      | onwards apart => exact absurd here apart
  | onwards apart rest ih =>
      cases again with
      | arrived here => exact absurd here apart
      | onwards _ rest => exact ih rest

theorem Collects.unique {order collected other : List Nat} {cursor : Nat}
    (collects : Collects graph seen order cursor collected)
    (again : Collects graph seen order cursor other) : collected = other := by
  induction collects with
  | ended past =>
      cases again with
      | ended => rfl
      | onwards here => simp [past] at here
  | onwards here rest ih =>
      cases again with
      | ended past => simp [past] at here
      | onwards found rest =>
          obtain rfl := Option.some.inj (here.symm.trans found)
          exact ih rest

namespace Drains

variable {queue served : List Trail}

/-- Up to the target a search takes what the queue serves. -/
theorem searches (drains : Drains graph seen queue served) (target : Nat) :
    Searches graph target seen queue
      ((served.find? (fun trail => trail.tip == target)).map Trail.toList) := by
  induction drains with
  | done seen => exact .exhausted seen
  | @pop seen trail queue served rest ih =>
      rw [List.find?_cons]
      by_cases here : trail.tip = target
      · rw [beq_iff_eq.2 here]
        exact .arrived here
      · rw [beq_false_of_ne here]
        exact .onwards here ih

/-- The nodes at the cursor and after it are the tips of the trails that wait. -/
theorem collects (drains : Drains graph seen queue served) (past : List Nat) :
    Collects graph seen (past ++ queue.map Trail.tip) past.length
      (past ++ served.map Trail.tip) := by
  induction drains generalizing past with
  | done seen => exact .ended (by simp)
  | @pop seen trail queue served rest ih =>
      have here : (past ++ (trail :: queue).map Trail.tip)[past.length]? = some trail.tip := by
        simp
      refine .onwards here ?_
      have later := ih (past ++ [trail.tip])
      simpa [Function.comp_def, Trail.extend] using later

/-- The queue serves a whole round before what the round adds to it. -/
theorem of_round (round : List Trail) {later : List Trail}
    (rest : Drains graph (seen ++ (graph.nextRound seen round).map Trail.tip)
      (later ++ graph.nextRound seen round) served) :
    Drains graph seen (round ++ later) (round ++ served) := by
  induction round generalizing seen later with
  | nil =>
      have none : graph.nextRound seen [] = [] := rfl
      simpa [none] using rest
  | cons trail round ih =>
      rw [List.cons_append, List.cons_append]
      refine .pop ?_
      rw [List.append_assoc]
      apply ih
      simpa [nextRound_cons, Function.comp_def, Trail.extend] using rest

end Drains

/-- As many rounds as there are nodes empty the queue, since a longer shortest chain has no place. -/
theorem Frontier.drains {round : List Trail} (closed : graph.Closed)
    (anchored : graph.contains anchor = true) (frontier : Frontier graph anchor depth seen round)
    {count : Nat} (enough : graph.nodes.length ≤ depth + count) :
    Drains graph seen round (graph.rounds count seen round) := by
  induction count generalizing depth seen round with
  | zero =>
      cases round with
      | nil => exact .done seen
      | cons trail others =>
          obtain ⟨shortest, size⟩ := frontier.shortest trail List.mem_cons_self
          have known := closed.contains_last anchored shortest.chain
          have bound := length_le_of_shortest shortest known
          omega
  | succ count ih =>
      have rest : Drains graph seen (round ++ []) (graph.rounds (count + 1) seen round) :=
        Drains.of_round round (ih frontier.next (by omega))
      rwa [List.append_nil] at rest

theorem drains_trails (closed : graph.Closed) (anchored : graph.contains anchor = true) :
    Drains graph [anchor] [.start anchor] (graph.trails anchor) := by
  rw [trails, if_pos anchored]
  exact (Frontier.start graph anchor).drains closed anchored (Nat.le_add_left _ _)

/-- A search with a queue ends, and with nothing but the path that the rounds find. -/
theorem searches_iff (closed : graph.Closed) (anchored : graph.contains anchor = true)
    (known : graph.contains target = true) {found : Option (List Nat)} :
    Searches graph target [anchor] [.start anchor] found ↔
      found = graph.shortestPath? anchor target := by
  have searches := (drains_trails closed anchored).searches target
  rw [shortestPath?, if_pos known]
  constructor
  · exact fun again => again.unique searches
  · rintro rfl
    exact searches

/-- A search with a cursor ends, and with nothing but the nodes that the rounds reach. -/
theorem collects_iff (closed : graph.Closed) (anchored : graph.contains anchor = true)
    {collected : List Nat} :
    Collects graph [anchor] [anchor] 0 collected ↔ collected = graph.reachable anchor := by
  have collects := (drains_trails closed anchored).collects []
  constructor
  · exact fun again => again.unique collects
  · rintro rfl
    exact collects

end Rejoin.JoinGraph
