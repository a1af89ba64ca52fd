import Rejoin.Proofs.JoinGraph.Paths
import Rejoin.Proofs.JoinGraph.Tables
import Rejoin.Proofs.Plan.Route
import Rejoin.Proofs.View.Sides

/-!
# How a join graph holds the conditions of its view

Every condition of a view goes to one edge of its join graph or becomes one
guard, and nothing else is in the graph.  Edges are told by their ends and
numbered by their first conditions; what is looked up for two sources and what
is listed for one of them are the same edges.
-/

namespace Rejoin

namespace ColumnPair

/-- A condition has the ends of a pair when it relates them. -/
theorem map_ends_ofCondition? {first second : Nat} (condition : Condition Nat Literal) :
    ((ofCondition? condition).map ends == some (endsOf first second)) =
      condition.relates first second := by
  cases found : ofCondition? condition with
  | none => exact (not_relates_of_ofCondition? found first second).symm
  | some pair =>
      obtain ⟨rfl, apart⟩ := ofCondition?_eq_some_iff.1 found
      exact (relates_condition apart first second).symm

/-- The columns of a pair on its two ends, in both directions. -/
theorem exists_columns? {pair : ColumnPair} (apart : pair.left.source ≠ pair.right.source)
    {first second : Nat} (ends : pair.ends = endsOf first second) :
    ∃ columns, pair.columns? first second = some columns ∧
      pair.columns? second first = some columns.swap := by
  rcases endsOf_eq_iff.1 ends with ⟨rfl, rfl⟩ | ⟨rfl, rfl⟩
  · exact ⟨(pair.left.column, pair.right.column), by simp [columns?, columnOf?, apart],
      by simp [columns?, columnOf?, apart]⟩
  · exact ⟨(pair.right.column, pair.left.column), by simp [columns?, columnOf?, apart],
      by simp [columns?, columnOf?, apart]⟩

end ColumnPair

/-- Where a reading succeeds on every entry, its results answer to the entries one by one. -/
theorem forall₂_filterMap {α β : Type} {read : α → Option β} {entries : List α}
    (succeeds : ∀ entry ∈ entries, ∃ value, read entry = some value) :
    List.Forall₂ (fun entry value => read entry = some value) entries
      (entries.filterMap read) := by
  induction entries with
  | nil => exact .nil
  | cons entry rest ih =>
      obtain ⟨value, found⟩ := succeeds entry List.mem_cons_self
      rw [List.filterMap_cons_some found]
      exact .cons found (ih fun later among => succeeds later (List.mem_cons_of_mem _ among))

/-- Two measures that rise along the same entries compare them alike. -/
theorem lt_iff_of_pairwise {α : Type} {measure other : α → Nat} {entries : List α}
    (rises : entries.Pairwise (fun earlier later => measure earlier < measure later))
    (otherRises : entries.Pairwise (fun earlier later => other earlier < other later))
    {entry next : α} (among : entry ∈ entries) (nextAmong : next ∈ entries) :
    measure entry < measure next ↔ other entry < other next := by
  obtain ⟨place, within, rfl⟩ := List.mem_iff_getElem.1 among
  obtain ⟨later, laterWithin, rfl⟩ := List.mem_iff_getElem.1 nextAmong
  rw [List.pairwise_iff_getElem] at rises otherRises
  rcases Nat.lt_trichotomy place later with before | rfl | after
  · exact iff_of_true (rises _ _ _ _ before) (otherRises _ _ _ _ before)
  · exact iff_of_false (Nat.lt_irrefl _) (Nat.lt_irrefl _)
  · exact iff_of_false (Nat.lt_asymm (rises _ _ _ _ after)) (Nat.lt_asymm (otherRises _ _ _ _ after))

namespace View

variable {view : View} {first second : Nat}

/-- Where two sources are joined first, counting the conditions of the view. -/
def firstJoin (view : View) (ends : Nat × Nat) : Nat :=
  view.conditions.findIdx (fun condition => condition.relates ends.1 ends.2)

/-- The guard keeps a declared condition, for the one source it names or else for its declarer. -/
structure Guards (entry : Declared) (guard : Guard) : Prop where
  condition : guard.condition = entry.condition
  named : ∀ ref ∈ entry.condition.references, ref.source = guard.owner
  unnamed : entry.condition.references = [] → guard.owner = entry.declarer

/-- Edges and guards share out the conditions, in declaration order. -/
structure SharedOut (view : View) (graph : JoinGraph) : Prop where
  join : ∀ condition ∈ view.conditions, condition.isJoin = true →
    ∃! edge, edge ∈ graph.edges ∧ condition.relates edge.ends.1 edge.ends.2 = true
  pairs : ∀ edge ∈ graph.edges, edge.pairs.map ColumnPair.condition =
    view.joinsBetween edge.ends.1 edge.ends.2
  guards : List.Forall₂ Guards (view.declaredWhere (fun _ condition => !condition.isJoin))
    graph.guards
  whole : (graph.edges.flatMap (fun edge => edge.pairs.map ColumnPair.condition) ++
    graph.guards.map Guard.condition).Perm view.conditions

/-- Edges are numbered by position, as their ends are first joined. -/
structure Numbered (view : View) (graph : JoinGraph) : Prop where
  position : ∀ (position : Nat) (edge : Edge), graph.edges[position]? = some edge →
    edge.id = position
  ends : ∀ edge ∈ graph.edges, edge.ends.1 < edge.ends.2 ∧ edge.ends.2 < view.sources.length
  distinct : (graph.edges.map Edge.ends).Nodup
  ordered : ∀ edge ∈ graph.edges, ∀ other ∈ graph.edges,
    edge.id < other.id ↔ view.firstJoin edge.ends < view.firstJoin other.ends

/-- What is found for two sources and what is listed for one are the edges of their joins. -/
structure Indexed (view : View) (graph : JoinGraph) : Prop where
  symmetric : ∀ first second, graph.edgeBetween? first second = graph.edgeBetween? second first
  between : ∀ first second edge, graph.edgeBetween? first second = some edge ↔
    edge ∈ graph.edges ∧ edge.ends = endsOf first second
  joined : ∀ first second,
    (∃ edge, graph.edgeBetween? first second = some edge) ↔ view.Joined first second
  neighbors : ∀ node next edge,
    (next, edge) ∈ graph.neighbors node ↔ graph.edgeBetween? node next = some edge
  once : ∀ node, ((graph.neighbors node).map Prod.fst).Nodup
  ascending : ∀ node,
    (graph.neighbors node).Pairwise (fun earlier later => earlier.2.id < later.2.id)
  guardsOf : ∀ node, (graph.guardsOf node).map Guard.condition = view.guardsOn node

/-- The columns of an edge on its two ends are those of its pairs, in either direction. -/
def Columned (edge : Edge) : Prop :=
  ∀ first second, edge.ends = endsOf first second →
    List.Forall₂
        (fun pair columns => pair.condition.Equates ⟨first, columns.1⟩ ⟨second, columns.2⟩)
        edge.pairs (edge.columnsBetween first second) ∧
      edge.columnsBetween second first = (edge.columnsBetween first second).map Prod.swap

/-! ## Edges and their numbers -/

theorem edgeBetween?_eq_some_iff {edge : Edge} :
    (JoinGraph.ofView view).edgeBetween? first second = some edge ↔
      edge ∈ (JoinGraph.ofView view).edges ∧ edge.ends = endsOf first second :=
  find?_key_eq_some_iff (nodup_ends_edgesOf view.joinPairs)

/-- The ends of an edge are those of a declared join. -/
theorem exists_pair_of_mem_edges {edge : Edge} (among : edge ∈ (JoinGraph.ofView view).edges) :
    ∃ pair ∈ view.joinPairs, pair.ends = edge.ends :=
  List.mem_map.1 (mem_edgesOf among).1

theorem ends_lt_of_mem_edges {edge : Edge} (among : edge ∈ (JoinGraph.ofView view).edges) :
    edge.ends.1 < edge.ends.2 := by
  obtain ⟨pair, held, ends⟩ := exists_pair_of_mem_edges among
  rw [← ends]
  exact ColumnPair.ends_lt (mem_joinPairs.1 held).2

theorem endsOf_of_mem_edges {edge : Edge} (among : edge ∈ (JoinGraph.ofView view).edges) :
    endsOf edge.ends.1 edge.ends.2 = edge.ends := by
  have ordered := ends_lt_of_mem_edges among
  rw [endsOf, Nat.min_eq_left (Nat.le_of_lt ordered), Nat.max_eq_right (Nat.le_of_lt ordered)]

theorem edges_pairwise_id (view : View) :
    (JoinGraph.ofView view).edges.Pairwise (fun edge other => edge.id < other.id) := by
  rw [List.pairwise_iff_getElem]
  intro position later within laterWithin before
  rwa [id_of_getElem?_edgesOf (List.getElem?_eq_getElem within),
    id_of_getElem?_edgesOf (List.getElem?_eq_getElem laterWithin)]

/-- The edges come in the order in which their ends are first joined. -/
theorem edges_pairwise_firstJoin (view : View) :
    (JoinGraph.ofView view).edges.Pairwise
      (fun edge other => view.firstJoin edge.ends < view.firstJoin other.ends) := by
  have keys : view.joinPairs.map ColumnPair.ends = view.conditions.filterMap
      (fun condition => (ColumnPair.ofCondition? condition).map ColumnPair.ends) := by
    rw [joinPairs, List.map_filterMap]
  have ordered := pairwise_findIdx_eraseDups
    (fun condition => (ColumnPair.ofCondition? condition).map ColumnPair.ends) view.conditions
  rw [← keys, ← map_ends_edgesOf, List.pairwise_map] at ordered
  refine ordered.imp_of_mem fun {edge other} among otherAmong before => ?_
  rw [← endsOf_of_mem_edges among, ← endsOf_of_mem_edges otherAmong] at before
  simpa only [ColumnPair.map_ends_ofCondition?, firstJoin] using before

/-- Edges are numbered in the order in which their ends are first joined. -/
theorem id_lt_iff {edge other : Edge} (among : edge ∈ (JoinGraph.ofView view).edges)
    (otherAmong : other ∈ (JoinGraph.ofView view).edges) :
    edge.id < other.id ↔ view.firstJoin edge.ends < view.firstJoin other.ends :=
  lt_iff_of_pairwise view.edges_pairwise_id view.edges_pairwise_firstJoin among otherAmong

theorem JoinsInRange.numbered (inRange : view.JoinsInRange) :
    view.Numbered (JoinGraph.ofView view) where
  position := fun _ _ found => id_of_getElem?_edgesOf found
  ends := by
    intro edge among
    obtain ⟨pair, held, ends⟩ := exists_pair_of_mem_edges among
    exact ⟨ends_lt_of_mem_edges among, ends ▸ inRange.lt_of_mem_joinPairs held⟩
  distinct := nodup_ends_edgesOf view.joinPairs
  ordered := fun _ among _ otherAmong => id_lt_iff among otherAmong

/-! ## What is found and what is listed -/

theorem JoinsInRange.mem_neighbors_iff (inRange : view.JoinsInRange) {node next : Nat}
    {edge : Edge} : (next, edge) ∈ (JoinGraph.ofView view).neighbors node ↔
      (JoinGraph.ofView view).edgeBetween? node next = some edge := by
  rw [edgeBetween?_eq_some_iff, JoinGraph.neighbors]
  split
  · next known =>
      simp only [List.mem_filterMap, Option.map_eq_some_iff, Prod.mk.injEq]
      constructor
      · rintro ⟨edge, among, _, leads, rfl, rfl⟩
        exact ⟨among, (otherEnd?_eq_some_iff (ends_lt_of_mem_edges among)).1 leads⟩
      · rintro ⟨among, ends⟩
        exact ⟨edge, among, next, (otherEnd?_eq_some_iff (ends_lt_of_mem_edges among)).2 ends,
          rfl, rfl⟩
  · next unknown =>
      rw [contains_ofView] at unknown
      refine iff_of_false List.not_mem_nil fun found => unknown ?_
      obtain ⟨pair, held, ends⟩ := exists_pair_of_mem_edges found.1
      exact inRange.lt_of_joined (joined_iff.2 ⟨pair, held, ends.trans found.2⟩)

theorem neighbors_pairwise_id (view : View) (node : Nat) :
    ((JoinGraph.ofView view).neighbors node).Pairwise
      (fun earlier later => earlier.2.id < later.2.id) := by
  rw [JoinGraph.neighbors]
  split
  · rw [List.pairwise_filterMap]
    refine view.edges_pairwise_id.imp fun before _ leads _ later => ?_
    obtain ⟨_, _, rfl⟩ := Option.map_eq_some_iff.1 leads
    obtain ⟨_, _, rfl⟩ := Option.map_eq_some_iff.1 later
    exact before
  · exact .nil

theorem JoinsInRange.indexed (inRange : view.JoinsInRange) :
    view.Indexed (JoinGraph.ofView view) where
  symmetric := (JoinGraph.ofView view).edgeBetween?_comm
  between := fun _ _ _ => edgeBetween?_eq_some_iff
  joined := fun _ _ => ⟨fun ⟨_, found⟩ => (edgeBetween?_eq_some found).2,
    Joined.exists_edgeBetween?⟩
  neighbors := fun _ _ _ => inRange.mem_neighbors_iff
  once := by
    intro node
    change ((JoinGraph.ofView view).successors node).Nodup
    rw [successors_ofView]
    split
    · exact nodup_eraseDups _
    · exact .nil
  ascending := view.neighbors_pairwise_id
  guardsOf := view.guards_of_owner

/-! ## Shares -/

/-- A condition that is no join makes a guard that keeps it. -/
theorem guards_of_ofCondition? {entry : Declared} {guard : Guard}
    (found : Guard.ofCondition? entry.declarer entry.condition = some guard) :
    Guards entry guard := by
  have about : entry.condition.constrains entry.declarer guard.owner = true := by
    rw [Guard.constrains_eq, found, Option.any_some, beq_self_eq_true]
  refine ⟨Guard.condition_of_ofCondition? found,
    fun _ named => Condition.source_of_constrains about named, fun unnamed => ?_⟩
  have own : entry.declarer ∈ entry.condition.subjects entry.declarer := by
    simp [Condition.subjects, unnamed]
  exact (Condition.subject_of_constrains about own).symm

theorem guards_eq_filterMap (view : View) :
    view.guards = view.declared.filterMap
      (fun entry => Guard.ofCondition? entry.declarer entry.condition) := by
  have each (placed : Source × Nat) :
      (placed.1.conditions.zipIdx.map (fun numbered => (⟨placed.1.index,
          ⟨placed.2, numbered.2⟩, numbered.1⟩ : Declared))).filterMap
            (fun entry => Guard.ofCondition? entry.declarer entry.condition) =
        placed.1.conditions.filterMap (Guard.ofCondition? placed.1.index) := by
    rw [List.filterMap_map, ← List.zipIdx_map_fst 0 placed.1.conditions, List.filterMap_map,
      List.zipIdx_map_fst]
    rfl
  rw [declared, List.filterMap_flatMap]
  simp only [each]
  rw [guards, ← List.flatMap_map (f := Prod.fst)
    (g := fun source : Source => source.conditions.filterMap (Guard.ofCondition? source.index)),
    List.zipIdx_map_fst]

/-- The guards keep the conditions that are no joins, one by one. -/
theorem forall₂_guards (view : View) :
    List.Forall₂ Guards (view.declaredWhere (fun _ condition => !condition.isJoin))
      view.guards := by
  have read : view.guards = (view.declaredWhere (fun _ condition => !condition.isJoin)).filterMap
      (fun entry => Guard.ofCondition? entry.declarer entry.condition) := by
    rw [guards_eq_filterMap, declaredWhere, List.filterMap_filter]
    refine List.filterMap_congr fun entry _ => ?_
    cases joins : entry.condition.isJoin <;> simp [Guard.ofCondition?, joins]
  have made : List.Forall₂
      (fun entry guard => Guard.ofCondition? entry.declarer entry.condition = some guard)
      (view.declaredWhere (fun _ condition => !condition.isJoin)) view.guards := by
    rw [read]
    refine forall₂_filterMap fun entry among => ?_
    have apart : entry.condition.isJoin = false := by simpa using (List.mem_filter.1 among).2
    exact ⟨_, if_neg (Bool.eq_false_iff.1 apart)⟩
  exact made.imp fun _ _ => guards_of_ofCondition?

theorem map_condition_guards (view : View) :
    view.guards.map Guard.condition =
      view.conditions.filter (fun condition => !condition.isJoin) := by
  have kept := view.forall₂_guards.imp fun _ _ guards => guards.condition.symm
  rw [← List.forall₂_map_right_iff (f := Guard.condition),
    ← List.forall₂_map_left_iff (f := Declared.condition), List.forall₂_eq_eq_eq] at kept
  rw [← kept, map_condition_declaredWhere, conditionsWhere, conditions, List.filter_flatMap]

theorem map_condition_joinPairs (view : View) :
    view.joinPairs.map ColumnPair.condition =
      view.conditions.filter (fun condition => condition.isJoin) := by
  rw [joinPairs, List.map_filterMap, ← List.filterMap_eq_filter]
  refine List.filterMap_congr fun condition _ => ?_
  rw [Option.guard, ← ColumnPair.isSome_ofCondition?]
  cases found : ColumnPair.ofCondition? condition with
  | none => rfl
  | some pair => simp [(ColumnPair.ofCondition?_eq_some_iff.1 found).1]

/-- Edges and guards hold every condition once. -/
theorem shares_perm (view : View) :
    ((JoinGraph.ofView view).edges.flatMap (fun edge => edge.pairs.map ColumnPair.condition) ++
      view.guards.map Guard.condition).Perm view.conditions := by
  have grouped : (JoinGraph.ofView view).edges.flatMap
      (fun edge => edge.pairs.map ColumnPair.condition) =
        ((view.joinPairs.map ColumnPair.ends).eraseDups.flatMap
          (fun ends => view.joinPairs.filter (fun pair => pair.ends == ends))).map
            ColumnPair.condition := by
    rw [← map_ends_edgesOf, List.flatMap_map, List.map_flatMap]
    refine List.flatMap_congr fun edge among => ?_
    rw [(mem_edgesOf among).2]
  rw [grouped, map_condition_guards]
  refine (((flatMap_groups_perm ColumnPair.ends view.joinPairs).map _).append_right _).trans ?_
  rw [map_condition_joinPairs]
  exact List.filter_append_perm _ _

/-- A join belongs to one edge. -/
theorem existsUnique_edge {condition : Condition Nat Literal}
    (declared : condition ∈ view.conditions) (joins : condition.isJoin = true) :
    ∃! edge, edge ∈ (JoinGraph.ofView view).edges ∧
      condition.relates edge.ends.1 edge.ends.2 = true := by
  rw [← ColumnPair.isSome_ofCondition?, Option.isSome_iff_exists] at joins
  obtain ⟨pair, found⟩ := joins
  obtain ⟨rfl, apart⟩ := ColumnPair.ofCondition?_eq_some_iff.1 found
  have relates_iff {edge : Edge} (among : edge ∈ (JoinGraph.ofView view).edges) :
      pair.condition.relates edge.ends.1 edge.ends.2 = true ↔ edge.ends = pair.ends := by
    rw [ColumnPair.relates_condition apart, endsOf_of_mem_edges among, beq_iff_eq, eq_comm]
  obtain ⟨edge, among, ends⟩ := exists_mem_edgesOf (mem_joinPairs.2 ⟨declared, apart⟩)
  refine ⟨edge, ⟨among, (relates_iff among).2 ends⟩, ?_⟩
  rintro other ⟨otherAmong, relates⟩
  exact List.inj_on_of_nodup_map (nodup_ends_edgesOf view.joinPairs) otherAmong among
    (((relates_iff otherAmong).1 relates).trans ends.symm)

theorem sharedOut (view : View) : view.SharedOut (JoinGraph.ofView view) where
  join := fun _ => existsUnique_edge
  pairs := by
    intro edge among
    exact (edgeBetween?_eq_some
      (edgeBetween?_eq_some_iff.2 ⟨among, (endsOf_of_mem_edges among).symm⟩)).1
  guards := view.forall₂_guards
  whole := view.shares_perm

theorem columned_of_mem_edges {edge : Edge} (among : edge ∈ (JoinGraph.ofView view).edges) :
    Columned edge := by
  intro first second ends
  have apart : first ≠ second := by
    have ordered := ends_lt_of_mem_edges among
    rw [ends, endsOf] at ordered
    omega
  have reads (pair : ColumnPair) (held : pair ∈ edge.pairs) :
      ∃ columns, pair.columns? first second = some columns ∧
        pair.columns? second first = some columns.swap := by
    rw [(mem_edgesOf among).2] at held
    obtain ⟨joins, same⟩ := List.mem_filter.1 held
    exact ColumnPair.exists_columns? (mem_joinPairs.1 joins).2
      ((beq_iff_eq.1 same).trans ends)
  constructor
  · have each : List.Forall₂ (fun pair columns => pair.columns? first second = some columns)
        edge.pairs (edge.columnsBetween first second) :=
      forall₂_filterMap fun pair held => (reads pair held).imp fun _ found => found.1
    exact each.imp fun _ _ found => ColumnPair.equates_of_columns? apart found
  · rw [Edge.columnsBetween, Edge.columnsBetween, List.map_filterMap]
    refine List.filterMap_congr fun pair held => ?_
    obtain ⟨columns, found, swapped⟩ := reads pair held
    rw [found, swapped, Option.map_some]

/--
Where joins name no other positions than those of the view, edges and guards
share out its conditions, edges are numbered as they are first declared, and
what is found for two sources and listed for one are the same edges, whose
columns read the same in both directions.  Tables that are filled while the
conditions are read one after the other answer in the same way.
-/
theorem graph_partition (inRange : view.JoinsInRange) :
    view.SharedOut (JoinGraph.ofView view) ∧ view.Numbered (JoinGraph.ofView view) ∧
      view.Indexed (JoinGraph.ofView view) ∧
      (∀ edge ∈ (JoinGraph.ofView view).edges, Columned edge) ∧
      ∃ tables, Tables.ofView? view = some tables ∧ tables.Serves (JoinGraph.ofView view) :=
  ⟨view.sharedOut, inRange.numbered, inRange.indexed, fun _ among => columned_of_mem_edges among,
    Tables.exists_serves inRange⟩

/-- The joins of a deal with its buyer, seller and city make four edges, and one guard is left. -/
theorem graph_partition_deals : deals.JoinsInRange ∧ deals.SharedOut (JoinGraph.ofView deals) ∧
    deals.Numbered (JoinGraph.ofView deals) ∧ deals.Indexed (JoinGraph.ofView deals) ∧
    (JoinGraph.ofView deals).edges.map Edge.ends = [(0, 1), (0, 2), (2, 3), (1, 3)] ∧
    (JoinGraph.ofView deals).guards.map Guard.owner = [3] := by
  obtain ⟨shared, numbered, indexed, _⟩ := graph_partition deals_joinsInRange
  exact ⟨deals_joinsInRange, shared, numbered, indexed, by decide, by decide⟩

end View

end Rejoin
