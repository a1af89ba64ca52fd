import Mathlib.Data.List.Lex
import Rejoin.Proofs.JoinGraph.Partition

/-!
# Which of several shortest chains is found

Edges are numbered as their ends are first joined.  A round lists its trails by
the numbers along them, and a trail has the first numbers among all chains of
its length to its tip: it extends the first trail of the round before that leads
there, and that one has the first numbers by induction.
-/

namespace Rejoin

/-- Of two equally long lists the one that comes first does so whatever follows. -/
theorem append_lt_append {front other : List Nat} (before : front < other)
    (size : front.length = other.length) (back otherBack : List Nat) :
    front ++ back < other ++ otherBack := by
  induction before with
  | nil => cases size
  | rel less => exact .rel less
  | cons _ ih => exact .cons (ih (Nat.succ.inj size))

theorem append_le_append {front other : List Nat} (before : front ≤ other)
    (size : front.length = other.length) (back : List Nat) : front ++ back ≤ other ++ back := by
  rcases before.lt_or_eq with earlier | rfl
  · exact (append_lt_append earlier size back back).le
  · exact le_rfl

namespace JoinGraph

variable {graph : JoinGraph} {anchor depth : Nat} {seen : List Nat} {round : List Trail}

/-- The numbers of the edges along a path. -/
def edgeIds (graph : JoinGraph) : List Nat → List Nat
  | first :: second :: rest =>
      ((graph.edgeBetween? first second).map Edge.id).toList ++ graph.edgeIds (second :: rest)
  | _ => []

theorem edgeIds_concat {path : List Nat} {last next : Nat} {edge : Edge}
    (ends : path.getLast? = some last) (found : graph.edgeBetween? last next = some edge) :
    graph.edgeIds (path ++ [next]) = graph.edgeIds path ++ [edge.id] := by
  induction path with
  | nil => cases ends
  | cons first rest ih =>
      cases rest with
      | nil =>
          obtain rfl : first = last := by simpa using ends
          simp [edgeIds, found]
      | cons second rest =>
          have later := ih (by simpa using ends)
          rw [List.cons_append] at later
          rw [List.cons_append, List.cons_append, edgeIds, edgeIds, later, List.append_assoc]

/-- Neighbors are listed by the numbers of the edges that lead to them. -/
structure Ascending (graph : JoinGraph) : Prop where
  leads : ∀ node next edge, (next, edge) ∈ graph.neighbors node →
    graph.edgeBetween? node next = some edge
  ordered : ∀ node,
    (graph.neighbors node).Pairwise (fun earlier later => earlier.2.id < later.2.id)

/-- The edges along one trail have earlier numbers than those along another. -/
def Precedes (graph : JoinGraph) (trail later : Trail) : Prop :=
  graph.edgeIds trail.toList < graph.edgeIds later.toList

/-- No chain that is as long comes to its end over edges with earlier numbers. -/
def Earliest (graph : JoinGraph) (anchor target : Nat) (path : List Nat) : Prop :=
  ∀ other, Chain graph.Linked anchor target other → other.length = path.length →
    graph.edgeIds path ≤ graph.edgeIds other

/-- What holds of a round whose trails run over the edges with the earliest numbers. -/
structure Foremost (graph : JoinGraph) (anchor : Nat) (round : List Trail) : Prop where
  ordered : round.Pairwise graph.Precedes
  earliest : ∀ trail ∈ round, graph.Earliest anchor trail.tip trail.toList

namespace Ascending

/-- Every join of a chain has the number of its edge. -/
theorem edgeIds_along (ascending : graph.Ascending) {first last : Nat} {path : List Nat}
    (chain : Chain graph.Linked first last path) :
    List.Forall₂ (fun join id => ∃ edge,
      graph.edgeBetween? join.1 join.2 = some edge ∧ edge.id = id)
      (path.zip path.tail) (graph.edgeIds path) := by
  induction chain with
  | single node => exact .nil
  | @cons first next last path link rest ih =>
      obtain ⟨edge, among⟩ := link
      have found := ascending.leads _ _ _ among
      have starts := rest.head?
      cases path with
      | nil => cases starts
      | cons head path =>
          obtain rfl : head = next := by simpa using starts
          rw [edgeIds, found]
          exact .cons ⟨edge, found, rfl⟩ ih

/-- Chains of one length have as many numbers. -/
theorem length_edgeIds_eq (ascending : graph.Ascending) {first last start target : Nat}
    {path other : List Nat} (chain : Chain graph.Linked first last path)
    (otherChain : Chain graph.Linked start target other) (alike : path.length = other.length) :
    (graph.edgeIds path).length = (graph.edgeIds other).length := by
  rw [← (ascending.edgeIds_along chain).length_eq, ← (ascending.edgeIds_along otherChain).length_eq,
    List.length_zip, List.length_zip, List.length_tail, List.length_tail, alike]

theorem edgeIds_extend (ascending : graph.Ascending) {trail : Trail} {next : Nat} {edge : Edge}
    (among : (next, edge) ∈ graph.neighbors trail.tip) :
    graph.edgeIds (trail.extend next).toList = graph.edgeIds trail.toList ++ [edge.id] := by
  rw [Trail.toList_extend]
  exact edgeIds_concat trail.getLast?_toList (ascending.leads _ _ _ among)

/-- The extensions of a round are listed by the numbers along them, as the round is. -/
theorem extensions_pairwise (ascending : graph.Ascending)
    (frontier : Frontier graph anchor depth seen round) (foremost : graph.Foremost anchor round) :
    (round.flatMap graph.extensions).Pairwise graph.Precedes := by
  rw [List.pairwise_flatMap]
  constructor
  · intro trail _
    rw [extensions, List.pairwise_map]
    refine (ascending.ordered trail.tip).imp_of_mem fun {step other} among otherAmong before => ?_
    rw [Precedes, ascending.edgeIds_extend among, ascending.edgeIds_extend otherAmong]
    exact List.Lex.append_left _ (.rel before) _
  · refine foremost.ordered.imp_of_mem fun {trail later} held laterHeld before => ?_
    intro longer made other otherMade
    obtain ⟨step, among, rfl⟩ := List.mem_map.1 made
    obtain ⟨otherStep, otherAmong, rfl⟩ := List.mem_map.1 otherMade
    obtain ⟨shortest, size⟩ := frontier.shortest trail held
    obtain ⟨laterShortest, laterSize⟩ := frontier.shortest later laterHeld
    have alike := ascending.length_edgeIds_eq shortest.chain laterShortest.chain
      (size.trans laterSize.symm)
    rw [Precedes, ascending.edgeIds_extend among, ascending.edgeIds_extend otherAmong]
    exact append_lt_append before alike _ _

end Ascending

namespace Foremost

theorem start (graph : JoinGraph) (anchor : Nat) : graph.Foremost anchor [.start anchor] where
  ordered := List.pairwise_singleton _ _
  earliest := by
    intro trail among other _ _
    obtain rfl := List.mem_singleton.1 among
    exact not_lt.1 (List.not_lt_nil (graph.edgeIds other))

/-- The trails to new sources are listed by the numbers along them. -/
theorem fresh_pairwise (foremost : graph.Foremost anchor round)
    (frontier : Frontier graph anchor depth seen round) (ascending : graph.Ascending) :
    ((round.flatMap graph.extensions).filter (fun trail => !seen.contains trail.tip)).Pairwise
      graph.Precedes :=
  (ascending.extensions_pairwise frontier foremost).filter _

/-- Of all extensions to a new source the next round has the one with the earliest edges. -/
theorem edgeIds_nextRound_le (foremost : graph.Foremost anchor round)
    (frontier : Frontier graph anchor depth seen round) (ascending : graph.Ascending)
    {trail earlier : Trail} (among : trail ∈ graph.nextRound seen round) (held : earlier ∈ round)
    (link : graph.Linked earlier.tip trail.tip) :
    graph.edgeIds trail.toList ≤ graph.edgeIds (earlier.extend trail.tip).toList := by
  rcases first_of_mem_eraseDupsBy (foremost.fresh_pairwise frontier ascending) among
    (extend_mem_fresh (fresh_of_mem_nextRound among) held link) rfl with same | before
  · rw [← same]
  · exact le_of_lt before

theorem next (foremost : graph.Foremost anchor round)
    (frontier : Frontier graph anchor depth seen round) (ascending : graph.Ascending) :
    graph.Foremost anchor (graph.nextRound seen round) where
  ordered := (foremost.fresh_pairwise frontier ascending).sublist (sublist_eraseDupsBy _ _)
  earliest := by
    intro trail among other chain size
    have length := (frontier.next.shortest trail among).2
    -- The other chain arrives over a join along which the round extends a trail of its own.
    obtain ⟨earlier, held, front, shorter, short, ⟨edge, leads⟩, rfl⟩ :=
      frontier.exists_earlier chain (Nat.le_of_eq (size.trans length))
        (fresh_of_mem_nextRound among)
    obtain ⟨shortest, earlierLength⟩ := frontier.shortest earlier held
    have least := foremost.earliest earlier held front shorter (short.trans earlierLength.symm)
    have alike := ascending.length_edgeIds_eq shortest.chain shorter
      (earlierLength.trans short.symm)
    calc graph.edgeIds trail.toList
      _ ≤ graph.edgeIds (earlier.extend trail.tip).toList :=
          foremost.edgeIds_nextRound_le frontier ascending among held ⟨edge, leads⟩
      _ = graph.edgeIds earlier.toList ++ [edge.id] := ascending.edgeIds_extend leads
      _ ≤ graph.edgeIds front ++ [edge.id] := append_le_append least alike _
      _ = graph.edgeIds (front ++ [trail.tip]) :=
          (edgeIds_concat shorter.getLast? (ascending.leads _ _ _ leads)).symm

/-- Every trail of every round has the earliest edges. -/
theorem rounds_earliest (foremost : graph.Foremost anchor round)
    (frontier : Frontier graph anchor depth seen round) (ascending : graph.Ascending) (count : Nat)
    {trail : Trail} (among : trail ∈ graph.rounds count seen round) :
    graph.Earliest anchor trail.tip trail.toList := by
  induction count generalizing depth seen round with
  | zero => cases among
  | succ count ih =>
      rcases List.mem_append.1 among with now | later
      · exact foremost.earliest trail now
      · exact ih (foremost.next frontier ascending) frontier.next later

end Foremost

theorem Ascending.shortestPath?_earliest (ascending : graph.Ascending) {target : Nat}
    {path : List Nat} (found : graph.shortestPath? anchor target = some path) :
    graph.Earliest anchor target path := by
  obtain ⟨_, trail, among, rfl, rfl⟩ := shortestPath?_eq_some_iff.1 found
  rw [trails, if_pos (contains_of_mem_trails among)] at among
  exact (Foremost.start graph anchor).rounds_earliest (Frontier.start graph anchor) ascending _
    among

end JoinGraph

namespace View

variable {view : View} {anchor target : Nat} {path : List Nat}

theorem JoinsInRange.ascending (inRange : view.JoinsInRange) :
    (JoinGraph.ofView view).Ascending where
  leads := fun _ _ _ => inRange.mem_neighbors_iff.1
  ordered := view.neighbors_pairwise_id

/--
Where joins name no other positions than those of the view, a path that is found
has the earliest edges among the chains of joins that are as short, where edges
come as their ends are first joined, and the path to any of its sources is the
part of it up to there.
-/
theorem path_precedes (inRange : view.JoinsInRange)
    (found : (JoinGraph.ofView view).shortestPath? anchor target = some path) :
    (∀ other, Chain view.Joined anchor target other → other.length = path.length →
      (JoinGraph.ofView view).edgeIds path ≤ (JoinGraph.ofView view).edgeIds other) ∧
    (∀ position node, path[position]? = some node →
      (JoinGraph.ofView view).shortestPath? anchor node = some (path.take (position + 1))) ∧
    (∀ first last chain, Chain view.Joined first last chain →
      List.Forall₂ (fun join id => ∃ edge,
        (JoinGraph.ofView view).edgeBetween? join.1 join.2 = some edge ∧ edge.id = id)
        (chain.zip chain.tail) ((JoinGraph.ofView view).edgeIds chain)) ∧
    (∀ edge ∈ (JoinGraph.ofView view).edges, ∀ other ∈ (JoinGraph.ofView view).edges,
      edge.id < other.id ↔ view.firstJoin edge.ends < view.firstJoin other.ends) := by
  have earliest := inRange.ascending.shortestPath?_earliest found
  rw [JoinGraph.Earliest, inRange.linked_eq_joined] at earliest
  refine ⟨earliest, fun _ _ here => JoinGraph.shortestPath?_take inRange.closed found here, ?_,
    fun _ among _ otherAmong => id_lt_iff among otherAmong⟩
  intro first last chain joined
  rw [← inRange.linked_eq_joined] at joined
  exact inRange.ascending.edgeIds_along joined

/-- A deal reaches its city over the buyer, by the first and the last join, not over the seller. -/
theorem path_precedes_deals : deals.JoinsInRange ∧
    (JoinGraph.ofView deals).shortestPath? 0 3 = some [0, 1, 3] ∧
    (JoinGraph.ofView deals).edgeIds [0, 1, 3] = [0, 3] ∧
    (JoinGraph.ofView deals).edgeIds [0, 2, 3] = [1, 2] ∧
    (∀ other, Chain deals.Joined 0 3 other → other.length = 3 →
      [0, 3] ≤ (JoinGraph.ofView deals).edgeIds other) ∧
    (JoinGraph.ofView deals).shortestPath? 0 1 = some [0, 1] := by
  have found : (JoinGraph.ofView deals).shortestPath? 0 3 = some [0, 1, 3] := by decide
  obtain ⟨earliest, prefixes, _⟩ := path_precedes deals_joinsInRange found
  exact ⟨deals_joinsInRange, found, by decide, by decide, earliest, prefixes 1 1 rfl⟩

end View

end Rejoin
