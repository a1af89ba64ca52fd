import Mathlib.Data.List.Perm.Subperm
import Rejoin.JoinGraph.Trail
import Rejoin.Proofs.JoinGraph.Chain
import Rejoin.Proofs.Keyed

/-!
# Breadth-first search finds shortest chains

`Frontier` is the invariant of the rounds: the trails of a round are shortest
chains of one length, the seen sources are those within that length, and every
source at exactly that distance has a trail.
-/

namespace Rejoin.JoinGraph

variable {graph : JoinGraph} {anchor depth : Nat} {seen : List Nat} {round : List Trail}

/-- The search steps from the first source to the second. -/
def Linked (graph : JoinGraph) (first second : Nat) : Prop :=
  ∃ edge, (second, edge) ∈ graph.neighbors first

/-- The sources that the search steps to from a source, in order. -/
def successors (graph : JoinGraph) (node : Nat) : List Nat :=
  (graph.neighbors node).map Prod.fst

theorem mem_successors {first second : Nat} :
    second ∈ graph.successors first ↔ graph.Linked first second := by
  simp [successors, Linked]

theorem extensions_eq (graph : JoinGraph) (trail : Trail) :
    graph.extensions trail = (graph.successors trail.tip).map trail.extend := by
  rw [extensions, successors, List.map_map]
  rfl

theorem mem_extensions {trail longer : Trail} :
    longer ∈ graph.extensions trail ↔
      ∃ next, graph.Linked trail.tip next ∧ longer = trail.extend next := by
  simp only [extensions_eq, List.mem_map, mem_successors, eq_comm]

/-- A trail of the next round extends one of the round to a new source. -/
theorem of_mem_nextRound {trail : Trail} (among : trail ∈ graph.nextRound seen round) :
    ∃ earlier ∈ round, ∃ next, graph.Linked earlier.tip next ∧ next ∉ seen ∧
      trail = earlier.extend next := by
  obtain ⟨extended, fresh⟩ := List.mem_filter.1 (mem_of_mem_eraseDupsBy among)
  obtain ⟨earlier, held, longer⟩ := List.mem_flatMap.1 extended
  obtain ⟨next, link, rfl⟩ := mem_extensions.1 longer
  exact ⟨earlier, held, next, link, by simpa [Trail.extend] using fresh, rfl⟩

theorem fresh_of_mem_nextRound {trail : Trail} (among : trail ∈ graph.nextRound seen round) :
    trail.tip ∉ seen := by
  obtain ⟨_, _, _, _, fresh, rfl⟩ := of_mem_nextRound among
  exact fresh

/-- The round is extended to every new source that it is joined to. -/
theorem extend_mem_fresh {node : Nat} (fresh : node ∉ seen) {earlier : Trail}
    (held : earlier ∈ round) (link : graph.Linked earlier.tip node) :
    earlier.extend node ∈
      (round.flatMap graph.extensions).filter (fun trail => !seen.contains trail.tip) := by
  refine List.mem_filter.2 ⟨?_, ?_⟩
  · exact List.mem_flatMap.2 ⟨earlier, held, mem_extensions.2 ⟨node, link, rfl⟩⟩
  · simpa [Trail.extend] using fresh

/-- The next round arrives at every new source that the round is joined to. -/
theorem mem_tips_nextRound {node : Nat} (fresh : node ∉ seen) {earlier : Trail}
    (held : earlier ∈ round) (link : graph.Linked earlier.tip node) :
    node ∈ (graph.nextRound seen round).map Trail.tip := by
  rw [nextRound, map_eraseDupsBy, List.mem_eraseDups]
  exact List.mem_map.2 ⟨earlier.extend node, extend_mem_fresh fresh held link, rfl⟩

/-- What holds of a round whose trails have `depth` joins. -/
structure Frontier (graph : JoinGraph) (anchor depth : Nat) (seen : List Nat)
    (round : List Trail) : Prop where
  shortest : ∀ trail ∈ round, Shortest graph.Linked anchor trail.tip trail.toList ∧
    trail.toList.length = depth + 1
  seen : ∀ node, node ∈ seen ↔
    ∃ path, Chain graph.Linked anchor node path ∧ path.length ≤ depth + 1
  reaches : ∀ node path, Shortest graph.Linked anchor node path → path.length = depth + 1 →
    ∃ trail ∈ round, trail.tip = node

namespace Frontier

theorem start (graph : JoinGraph) (anchor : Nat) :
    Frontier graph anchor 0 [anchor] [.start anchor] := by
  have only {node : Nat} {path : List Nat} (chain : Chain graph.Linked anchor node path)
      (short : path.length ≤ 1) : node = anchor := by
    rcases chain.eq_snoc with ⟨_, same⟩ | ⟨before, front, shorter, _, rfl⟩
    · exact same.symm
    · cases shorter <;> simp at short
  constructor
  case shortest =>
    intro trail among
    obtain rfl := List.mem_singleton.1 among
    exact ⟨.single anchor, rfl⟩
  case seen =>
    intro node
    rw [List.mem_singleton]
    constructor
    · rintro rfl
      exact ⟨[node], .single node, Nat.le_refl 1⟩
    · rintro ⟨path, chain, short⟩
      exact only chain short
  case reaches =>
    intro node path shortest single
    exact ⟨.start anchor, List.mem_singleton.2 rfl,
      (only shortest.chain (Nat.le_of_eq single)).symm⟩

/-- A chain to a source one join further than the seen ones arrives there from the round. -/
theorem exists_earlier (frontier : Frontier graph anchor depth seen round) {node : Nat}
    {path : List Nat} (chain : Chain graph.Linked anchor node path)
    (short : path.length ≤ depth + 2) (fresh : node ∉ seen) :
    ∃ earlier ∈ round, ∃ front, Chain graph.Linked anchor earlier.tip front ∧
      front.length = depth + 1 ∧ graph.Linked earlier.tip node ∧ path = front ++ [node] := by
  have far {other : List Nat} (candidate : Chain graph.Linked anchor node other) :
      depth + 1 < other.length := by
    by_contra near
    exact fresh ((frontier.seen node).2 ⟨other, candidate, Nat.le_of_not_lt near⟩)
  rcases chain.eq_snoc with ⟨rfl, rfl⟩ | ⟨before, front, shorter, link, rfl⟩
  · have bound := far chain
    simp at bound
  · have size : front.length = depth + 1 := by
      have bound := far chain
      simp only [List.length_append, List.length_singleton] at bound short
      omega
    have shortest : Shortest graph.Linked anchor before front := by
      refine ⟨shorter, fun other candidate => ?_⟩
      have bound := far (candidate.snoc link)
      simp only [List.length_append, List.length_singleton] at bound
      omega
    obtain ⟨earlier, held, rfl⟩ := frontier.reaches before front shortest size
    exact ⟨earlier, held, front, shorter, size, link, rfl⟩

/-- A source one join further than the seen ones is arrived at in the next round. -/
theorem seen_next (frontier : Frontier graph anchor depth seen round) {node : Nat}
    {path : List Nat} (chain : Chain graph.Linked anchor node path)
    (short : path.length ≤ depth + 2) (fresh : node ∉ seen) :
    node ∈ (graph.nextRound seen round).map Trail.tip := by
  obtain ⟨earlier, held, _, _, _, link, _⟩ := frontier.exists_earlier chain short fresh
  exact mem_tips_nextRound fresh held link

theorem next (frontier : Frontier graph anchor depth seen round) :
    Frontier graph anchor (depth + 1) (seen ++ (graph.nextRound seen round).map Trail.tip)
      (graph.nextRound seen round) := by
  have shortest : ∀ trail ∈ graph.nextRound seen round,
      Shortest graph.Linked anchor trail.tip trail.toList ∧
        trail.toList.length = depth + 2 := by
    intro trail among
    obtain ⟨earlier, held, next, link, fresh, rfl⟩ := of_mem_nextRound among
    obtain ⟨reached, size⟩ := frontier.shortest earlier held
    have longer : (earlier.extend next).toList.length = depth + 2 := by simp [size]
    refine ⟨⟨?_, fun other candidate => ?_⟩, longer⟩
    · rw [Trail.toList_extend]
      exact reached.chain.snoc link
    · by_contra shorter
      exact fresh ((frontier.seen next).2 ⟨other, candidate, by omega⟩)
  constructor
  case shortest => exact shortest
  case seen =>
    intro node
    rw [List.mem_append]
    constructor
    · rintro (early | late)
      · obtain ⟨path, chain, short⟩ := (frontier.seen node).1 early
        exact ⟨path, chain, Nat.le_succ_of_le short⟩
      · obtain ⟨trail, among, rfl⟩ := List.mem_map.1 late
        obtain ⟨reached, size⟩ := shortest trail among
        exact ⟨trail.toList, reached.chain, Nat.le_of_eq size⟩
    · rintro ⟨path, chain, short⟩
      by_cases early : node ∈ seen
      · exact .inl early
      · exact .inr (frontier.seen_next chain short early)
  case reaches =>
    intro node path reached size
    have fresh : node ∉ seen := by
      intro early
      obtain ⟨other, chain, short⟩ := (frontier.seen node).1 early
      have bound := reached.least other chain
      omega
    exact List.mem_map.1 (frontier.seen_next reached.chain (Nat.le_of_eq size) fresh)

/-- Every trail of every round is a shortest chain. -/
theorem rounds_shortest (frontier : Frontier graph anchor depth seen round) (count : Nat)
    {trail : Trail} (among : trail ∈ graph.rounds count seen round) :
    Shortest graph.Linked anchor trail.tip trail.toList := by
  induction count generalizing depth seen round with
  | zero => cases among
  | succ count ih =>
      rcases List.mem_append.1 among with now | later
      · exact (frontier.shortest trail now).1
      · exact ih frontier.next later

/-- Every source that is not further than the rounds go has a trail. -/
theorem rounds_reaches (frontier : Frontier graph anchor depth seen round) {count node : Nat}
    {path : List Nat} (shortest : Shortest graph.Linked anchor node path)
    (ahead : depth < path.length) (within : path.length ≤ depth + count) :
    ∃ trail ∈ graph.rounds count seen round, trail.tip = node := by
  induction count generalizing depth seen round with
  | zero => omega
  | succ count ih =>
      by_cases now : path.length = depth + 1
      · obtain ⟨trail, held, tip⟩ := frontier.reaches node path shortest now
        exact ⟨trail, List.mem_append_left _ held, tip⟩
      · obtain ⟨trail, later, tip⟩ := ih frontier.next (by omega) (by omega)
        exact ⟨trail, List.mem_append_right _ later, tip⟩

end Frontier

theorem shortest_of_mem_trails {trail : Trail} (among : trail ∈ graph.trails anchor) :
    Shortest graph.Linked anchor trail.tip trail.toList := by
  unfold trails at among
  split at among
  · exact (Frontier.start graph anchor).rounds_shortest _ among
  · cases among

theorem shortestPath?_shortest {target : Nat} {path : List Nat}
    (found : graph.shortestPath? anchor target = some path) :
    Shortest graph.Linked anchor target path := by
  unfold shortestPath? at found
  split at found
  · obtain ⟨trail, selected, rfl⟩ := Option.map_eq_some_iff.1 found
    obtain rfl : trail.tip = target := by simpa using List.find?_some selected
    exact shortest_of_mem_trails (List.mem_of_find?_eq_some selected)
  · cases found

theorem Linked.contains {first second : Nat} (link : graph.Linked first second) :
    graph.contains first = true := by
  obtain ⟨edge, among⟩ := link
  by_contra beyond
  simp [neighbors, beyond] at among

/-- No step leads out of the graph. -/
def Closed (graph : JoinGraph) : Prop :=
  ∀ first second, graph.Linked first second → graph.contains second = true

theorem Closed.contains_last (closed : graph.Closed) (anchored : graph.contains anchor = true)
    {last : Nat} {path : List Nat} (chain : Chain graph.Linked anchor last path) :
    graph.contains last = true := by
  rcases chain.eq_snoc with ⟨_, rfl⟩ | ⟨_, _, _, link, _⟩
  · exact anchored
  · exact closed _ _ link

/-- A shortest chain has no more sources than the graph, so the rounds are enough for it. -/
theorem length_le_of_shortest {target : Nat} {path : List Nat}
    (shortest : Shortest graph.Linked anchor target path) (known : graph.contains target = true) :
    path.length ≤ graph.nodes.length := by
  have within : ∀ node ∈ path, graph.contains node = true :=
    shortest.chain.forall_mem (fun _ _ link => link.contains) known
  have bounded : path ⊆ List.range graph.nodes.length := by
    intro node among
    simpa [contains] using within node among
  simpa using (shortest.nodup.subperm bounded).length_le

/-- There is a trail to every known source that some chain leads to. -/
theorem exists_trail {target : Nat} {path : List Nat}
    (chain : Chain graph.Linked anchor target path) (known : graph.contains target = true) :
    ∃ trail ∈ graph.trails anchor, trail.tip = target := by
  obtain ⟨least, shortest⟩ := chain.exists_shortest
  have anchored : graph.contains anchor = true := by
    cases chain with
    | single => exact known
    | cons link => exact link.contains
  have nonempty : 0 < least.length := by
    cases shortest.chain <;> simp
  have bound : least.length ≤ 0 + graph.nodes.length := by
    simpa using length_le_of_shortest shortest known
  rw [trails, if_pos anchored]
  exact (Frontier.start graph anchor).rounds_reaches shortest nonempty bound

/-- The search finds a path to a known source exactly if some chain leads there. -/
theorem exists_shortestPath?_iff {target : Nat} (known : graph.contains target = true) :
    (∃ found, graph.shortestPath? anchor target = some found) ↔
      ∃ path, Chain graph.Linked anchor target path := by
  constructor
  · rintro ⟨path, found⟩
    exact ⟨path, (shortestPath?_shortest found).chain⟩
  · rintro ⟨path, chain⟩
    obtain ⟨trail, among, tip⟩ := exists_trail chain known
    have present : ((graph.trails anchor).find? (fun trail => trail.tip == target)).isSome := by
      rw [List.find?_isSome]
      exact ⟨trail, among, by simpa using tip⟩
    obtain ⟨first, selected⟩ := Option.isSome_iff_exists.1 present
    exact ⟨first.toList, by rw [shortestPath?, if_pos known, selected, Option.map_some]⟩

/-- A known source is reached exactly if some chain leads there. -/
theorem mem_reachable_iff {target : Nat} (known : graph.contains target = true) :
    target ∈ graph.reachable anchor ↔ ∃ path, Chain graph.Linked anchor target path := by
  rw [reachable, List.mem_map]
  constructor
  · rintro ⟨trail, among, rfl⟩
    exact ⟨trail.toList, (shortest_of_mem_trails among).chain⟩
  · rintro ⟨path, chain⟩
    exact exists_trail chain known

/-- Graphs with the same steps have the same rounds. -/
theorem rounds_congr {other : JoinGraph}
    (steps : ∀ node, graph.successors node = other.successors node) (count : Nat)
    (seen : List Nat) (round : List Trail) :
    graph.rounds count seen round = other.rounds count seen round := by
  have extended : graph.extensions = other.extensions := by
    funext trail
    rw [extensions_eq, extensions_eq, steps]
  induction count generalizing seen round with
  | zero => rfl
  | succ count ih => simp only [rounds, nextRound, extended, ih]

/-- The search depends on nothing but the steps that it can take. -/
theorem shortestPath?_congr {other : JoinGraph} (size : graph.nodes.length = other.nodes.length)
    (steps : ∀ node, graph.successors node = other.successors node) (anchor target : Nat) :
    graph.shortestPath? anchor target = other.shortestPath? anchor target := by
  have known : graph.contains = other.contains := by
    funext node
    rw [contains, contains, size]
  rw [shortestPath?, shortestPath?, trails, trails, known, size, rounds_congr steps]

end Rejoin.JoinGraph
