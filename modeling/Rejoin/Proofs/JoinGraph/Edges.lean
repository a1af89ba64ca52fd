import Rejoin.Proofs.JoinGraph.Search
import Rejoin.Proofs.View.Conditions

/-!
# The edges and guards of a view's join graph

The edge between two sources holds the declared joins of the two and no others,
the guards of a source are the conditions on it alone, and the search steps
exactly along declared joins.
-/

namespace Rejoin

namespace ColumnPair

theorem ofCondition?_eq_some_iff {condition : Condition Nat Literal} {pair : ColumnPair} :
    ofCondition? condition = some pair ↔
      condition = pair.condition ∧ pair.left.source ≠ pair.right.source := by
  simp only [ofCondition?, Option.map_eq_some_iff, Prod.exists, Condition.join?_eq_some_iff]
  constructor
  · rintro ⟨left, right, joins, rfl⟩
    exact joins
  · rintro joins
    exact ⟨pair.left, pair.right, joins, rfl⟩

theorem isSome_ofCondition? (condition : Condition Nat Literal) :
    (ofCondition? condition).isSome = condition.isJoin := by
  rw [ofCondition?, Option.isSome_map, Condition.isJoin]

/-- A pair has the ends of two sources when its condition relates them. -/
theorem relates_condition {pair : ColumnPair} (apart : pair.left.source ≠ pair.right.source)
    (first second : Nat) :
    pair.condition.relates first second = (pair.ends == endsOf first second) := by
  rw [Bool.eq_iff_iff]
  simp [condition, Condition.relates, ends, endsOf_eq_iff, apart]

theorem not_relates_of_ofCondition? {condition : Condition Nat Literal}
    (free : ofCondition? condition = none) (first second : Nat) :
    condition.relates first second = false := by
  rw [Bool.eq_false_iff]
  intro joins
  obtain ⟨left | left, right | right⟩ := condition <;> simp [Condition.relates] at joins
  simp [ofCondition?, Condition.join?, joins.1] at free

/-- The pairs between two sources are the conditions that relate them. -/
theorem filter_ends_condition (conditions : List (Condition Nat Literal)) (first second : Nat) :
    ((conditions.filterMap ofCondition?).filter
        (fun pair => pair.ends == endsOf first second)).map condition =
      conditions.filter (fun condition => condition.relates first second) := by
  induction conditions with
  | nil => rfl
  | cons condition rest ih =>
      cases found : ofCondition? condition with
      | none =>
          have free := not_relates_of_ofCondition? found first second
          simp only [List.filterMap_cons_none found, List.filter_cons, free]
          exact ih
      | some pair =>
          obtain ⟨rfl, apart⟩ := ofCondition?_eq_some_iff.1 found
          rw [List.filterMap_cons_some found, List.filter_cons, List.filter_cons,
            relates_condition apart]
          split
          · rw [List.map_cons, ih]
          · exact ih

end ColumnPair

theorem mem_edgesOf {pairs : List ColumnPair} {edge : Edge} (among : edge ∈ edgesOf pairs) :
    edge.ends ∈ pairs.map ColumnPair.ends ∧
      edge.pairs = pairs.filter (fun pair => pair.ends == edge.ends) := by
  obtain ⟨id, within, rfl⟩ := List.mem_mapIdx.1 among
  exact ⟨List.mem_eraseDups.1 (List.getElem_mem within), rfl⟩

theorem exists_mem_edgesOf {pairs : List ColumnPair} {pair : ColumnPair} (among : pair ∈ pairs) :
    ∃ edge ∈ edgesOf pairs, edge.ends = pair.ends := by
  have kept : pair.ends ∈ (pairs.map ColumnPair.ends).eraseDups :=
    List.mem_eraseDups.2 (List.mem_map_of_mem among)
  obtain ⟨id, within, found⟩ := List.mem_iff_getElem.1 kept
  exact ⟨_, List.mem_mapIdx.2 ⟨id, within, rfl⟩, found⟩

theorem map_ends_edgesOf (pairs : List ColumnPair) :
    (edgesOf pairs).map Edge.ends = (pairs.map ColumnPair.ends).eraseDups := by
  refine List.ext_getElem? fun id => ?_
  rw [edgesOf, List.getElem?_map, List.getElem?_mapIdx, Option.map_map]
  exact Option.map_id'

/-- Edges are numbered by their positions. -/
theorem id_of_getElem?_edgesOf {pairs : List ColumnPair} {position : Nat} {edge : Edge}
    (found : (edgesOf pairs)[position]? = some edge) : edge.id = position := by
  rw [edgesOf, List.getElem?_mapIdx] at found
  obtain ⟨ends, _, rfl⟩ := Option.map_eq_some_iff.1 found
  rfl

theorem getElem?_id_edgesOf {pairs : List ColumnPair} {edge : Edge}
    (among : edge ∈ edgesOf pairs) : (edgesOf pairs)[edge.id]? = some edge := by
  obtain ⟨position, found⟩ := List.mem_iff_getElem?.1 among
  rwa [id_of_getElem?_edgesOf found]

theorem nodup_ends_edgesOf (pairs : List ColumnPair) : ((edgesOf pairs).map Edge.ends).Nodup := by
  rw [map_ends_edgesOf]
  exact nodup_eraseDups _

/-- An edge is told by its number as well as by its ends. -/
theorem id_eq_iff_ends_eq {pairs : List ColumnPair} {edge other : Edge} (among : edge ∈ edgesOf pairs)
    (otherAmong : other ∈ edgesOf pairs) : edge.id = other.id ↔ edge.ends = other.ends := by
  constructor
  · intro same
    have found := getElem?_id_edgesOf among
    rw [same, getElem?_id_edgesOf otherAmong] at found
    rw [Option.some.inj found]
  · intro same
    rw [List.inj_on_of_nodup_map (nodup_ends_edgesOf pairs) among otherAmong same]

/-- Of two ends the one that is not the given one. -/
def otherEnd? (node : Nat) (ends : Nat × Nat) : Option Nat :=
  Edge.other? ⟨0, ends, []⟩ node

theorem otherEnd?_eq_some_iff {ends : Nat × Nat} (ordered : ends.1 < ends.2) {first second : Nat} :
    otherEnd? first ends = some second ↔ ends = endsOf first second := by
  obtain ⟨low, high⟩ := ends
  change low < high at ordered
  simp only [otherEnd?, Edge.other?, endsOf, Prod.mk.injEq]
  split
  · simp only [Option.some.injEq]
    omega
  · split
    · simp only [Option.some.injEq]
      omega
    · simp only [reduceCtorEq, false_iff]
      omega

namespace ColumnPair

theorem ends_lt {pair : ColumnPair} (apart : pair.left.source ≠ pair.right.source) :
    pair.ends.1 < pair.ends.2 := by
  simp only [ends, endsOf]
  omega

/-- The pair of a condition leads where the condition does. -/
theorem bind_otherEnd? (node : Nat) (condition : Condition Nat Literal) :
    (ofCondition? condition).bind (fun pair => otherEnd? node pair.ends) =
      condition.partner? node := by
  ext next
  rw [Condition.partner?_eq_some_iff]
  cases found : ofCondition? condition with
  | none => simp [not_relates_of_ofCondition? found]
  | some pair =>
      obtain ⟨rfl, apart⟩ := ofCondition?_eq_some_iff.1 found
      rw [Option.bind_some, otherEnd?_eq_some_iff (ends_lt apart), relates_condition apart,
        beq_iff_eq]

end ColumnPair

namespace Guard

/-- A condition is a guard of the source it constrains, and none when it constrains no source. -/
theorem constrains_eq (declarer node : Nat) (condition : Condition Nat Literal) :
    condition.constrains declarer node =
      (ofCondition? declarer condition).any (fun guard => guard.owner == node) := by
  obtain ⟨left | left, right | right⟩ := condition
  case reference.reference =>
    change (left.source == node && (right.source == node && true)) = _
    by_cases same : left.source = right.source
    · simp [ofCondition?, Condition.isJoin, Condition.join?, Condition.references,
        Condition.operands, Operand.reference?, same]
    · simp only [ofCondition?, Condition.isJoin, Condition.join?, same, if_false,
        Option.isSome_some, if_true, Option.any_none, Bool.and_true, Bool.and_eq_false_iff,
        beq_eq_false_iff_ne]
      omega
  case reference.literal => exact Bool.and_true _
  case literal.reference => exact Bool.and_true _
  case literal.literal => exact Bool.and_true _

theorem condition_of_ofCondition? {declarer : Nat} {condition : Condition Nat Literal}
    {guard : Guard} (found : ofCondition? declarer condition = some guard) :
    guard.condition = condition := by
  unfold ofCondition? at found
  split at found
  · cases found
  · cases found
    rfl

/-- The guards of a source are the conditions that constrain it. -/
theorem filter_owner_condition (declarer node : Nat) (conditions : List (Condition Nat Literal)) :
    ((conditions.filterMap (ofCondition? declarer)).filter
        (fun guard => guard.owner == node)).map condition =
      conditions.filter (Condition.constrains declarer node) := by
  induction conditions with
  | nil => rfl
  | cons condition rest ih =>
      rw [List.filter_cons, constrains_eq]
      cases found : ofCondition? declarer condition with
      | none =>
          rw [List.filterMap_cons_none found]
          exact ih
      | some guard =>
          rw [List.filterMap_cons_some found, List.filter_cons, Option.any_some]
          split
          · rw [List.map_cons, ih, condition_of_ofCondition? found]
          · exact ih

end Guard

namespace View

variable {view : View}

theorem mem_joinPairs {pair : ColumnPair} :
    pair ∈ view.joinPairs ↔
      pair.condition ∈ view.conditions ∧ pair.left.source ≠ pair.right.source := by
  simp only [joinPairs, List.mem_filterMap, ColumnPair.ofCondition?_eq_some_iff]
  constructor
  · rintro ⟨_, declared, rfl, apart⟩
    exact ⟨declared, apart⟩
  · rintro ⟨declared, apart⟩
    exact ⟨_, declared, rfl, apart⟩

/-- Two sources are joined when a pair has them as its ends. -/
theorem joined_iff {first second : Nat} :
    view.Joined first second ↔
      ∃ pair ∈ view.joinPairs, pair.ends = endsOf first second := by
  constructor
  · rintro ⟨condition, declared, joins⟩
    cases found : ColumnPair.ofCondition? condition with
    | none =>
        rw [ColumnPair.not_relates_of_ofCondition? found] at joins
        cases joins
    | some pair =>
        obtain ⟨rfl, apart⟩ := ColumnPair.ofCondition?_eq_some_iff.1 found
        rw [ColumnPair.relates_condition apart] at joins
        exact ⟨pair, mem_joinPairs.2 ⟨declared, apart⟩, by simpa using joins⟩
  · rintro ⟨pair, among, ends⟩
    obtain ⟨declared, apart⟩ := mem_joinPairs.1 among
    refine ⟨pair.condition, declared, ?_⟩
    rw [ColumnPair.relates_condition apart, ends, beq_self_eq_true]

theorem Joined.ne {first second : Nat} (joined : view.Joined first second) : first ≠ second := by
  obtain ⟨pair, among, ends⟩ := joined_iff.1 joined
  obtain ⟨_, apart⟩ := mem_joinPairs.1 among
  rcases endsOf_eq_iff.1 ends with ⟨rfl, rfl⟩ | ⟨rfl, rfl⟩
  · exact apart
  · exact apart.symm

/-- The edge between two sources holds the conditions that join them, in declaration order. -/
theorem edgeBetween?_eq_some {first second : Nat} {edge : Edge}
    (found : (JoinGraph.ofView view).edgeBetween? first second = some edge) :
    edge.pairs.map ColumnPair.condition = view.joinsBetween first second ∧
      view.Joined first second := by
  have among : edge ∈ edgesOf view.joinPairs := List.mem_of_find?_eq_some found
  have ends : edge.ends = endsOf first second := by simpa using List.find?_some found
  obtain ⟨declared, pairs⟩ := mem_edgesOf among
  rw [ends] at declared pairs
  constructor
  · rw [pairs]
    exact ColumnPair.filter_ends_condition view.conditions first second
  · obtain ⟨pair, held, same⟩ := List.mem_map.1 declared
    exact joined_iff.2 ⟨pair, held, same⟩

theorem Joined.exists_edgeBetween? {first second : Nat} (joined : view.Joined first second) :
    ∃ edge, (JoinGraph.ofView view).edgeBetween? first second = some edge := by
  obtain ⟨pair, held, ends⟩ := joined_iff.1 joined
  obtain ⟨edge, among, same⟩ := exists_mem_edgesOf held
  apply Option.isSome_iff_exists.1
  rw [JoinGraph.edgeBetween?, List.find?_isSome]
  exact ⟨edge, among, by simp [same, ends]⟩

theorem contains_ofView {node : Nat} :
    (JoinGraph.ofView view).contains node = true ↔ node < view.sources.length := by
  simp [JoinGraph.contains, JoinGraph.ofView, aliases]

/-- The search steps to the sources that conditions join to a source, by first declaration. -/
theorem successors_ofView (view : View) (node : Nat) :
    (JoinGraph.ofView view).successors node =
      if node < view.sources.length then
        (view.conditions.filterMap (Condition.partner? node)).eraseDups
      else [] := by
  have ordered : ∀ ends ∈ view.joinPairs.map ColumnPair.ends, ends.1 < ends.2 := by
    rintro _ among
    obtain ⟨pair, held, rfl⟩ := List.mem_map.1 among
    exact ColumnPair.ends_lt (mem_joinPairs.1 held).2
  have stepped : (edgesOf view.joinPairs).filterMap (fun edge => edge.other? node) =
      (view.conditions.filterMap (Condition.partner? node)).eraseDups := by
    calc (edgesOf view.joinPairs).filterMap (fun edge => edge.other? node)
      _ = ((edgesOf view.joinPairs).map Edge.ends).filterMap (otherEnd? node) := by
          rw [List.filterMap_map]
          rfl
      _ = ((view.joinPairs.map ColumnPair.ends).filterMap (otherEnd? node)).eraseDups := by
          rw [map_ends_edgesOf, filterMap_eraseDups]
          intro ends among other otherAmong next leads otherLeads
          rw [otherEnd?_eq_some_iff (ordered ends among)] at leads
          rw [otherEnd?_eq_some_iff (ordered other otherAmong)] at otherLeads
          exact leads.trans otherLeads.symm
      _ = (view.conditions.filterMap (Condition.partner? node)).eraseDups := by
          rw [List.filterMap_map, joinPairs, List.filterMap_filterMap]
          simp only [Function.comp_apply, ColumnPair.bind_otherEnd?]
  rw [JoinGraph.successors, JoinGraph.neighbors, JoinGraph.contains, ← stepped]
  simp only [JoinGraph.ofView, aliases, List.length_map, decide_eq_true_eq]
  split
  · rw [List.map_filterMap]
    simp [Function.comp_def]
  · rfl

/-- The search steps from a source of the view along each join declared with it. -/
theorem linked_iff {first second : Nat} :
    (JoinGraph.ofView view).Linked first second ↔
      first < view.sources.length ∧ view.Joined first second := by
  rw [← JoinGraph.mem_successors, successors_ofView]
  split
  · next within =>
      simp [within, Joined, Condition.partner?_eq_some_iff]
  · next beyond => simp [beyond]

/-- The guards that a source owns are the conditions on it alone. -/
theorem guards_of_owner (view : View) (node : Nat) :
    (view.guards.filter (fun guard => guard.owner == node)).map Guard.condition =
      view.guardsOn node := by
  rw [guards, List.filter_flatMap, List.map_flatMap]
  exact List.flatMap_congr fun source _ =>
    Guard.filter_owner_condition source.index node source.conditions

/-- The joins of a view name positions that it has. -/
def JoinsInRange (view : View) : Prop :=
  ∀ condition ∈ view.conditions, condition.isJoin = true →
    ∀ ref ∈ condition.references, ref.source < view.sources.length

theorem JoinsInRange.lt_of_joined (inRange : view.JoinsInRange) {first second : Nat}
    (joined : view.Joined first second) : first < view.sources.length := by
  obtain ⟨condition, declared, joins⟩ := joined.symm
  obtain ⟨ref, named, rfl⟩ := Condition.exists_reference_of_relates joins
  exact inRange condition declared (Condition.isJoin_iff.2 ⟨_, _, joins⟩) ref named

theorem JoinsInRange.lt_of_mem_joinPairs (inRange : view.JoinsInRange) {pair : ColumnPair}
    (held : pair ∈ view.joinPairs) : pair.ends.2 < view.sources.length := by
  have joined : view.Joined pair.left.source pair.right.source := joined_iff.2 ⟨pair, held, rfl⟩
  exact Nat.max_lt.2 ⟨inRange.lt_of_joined joined, inRange.lt_of_joined joined.symm⟩

/-- The search steps exactly along the declared joins of a view that has all sources they name. -/
theorem JoinsInRange.linked_eq_joined (inRange : view.JoinsInRange) :
    (JoinGraph.ofView view).Linked = view.Joined := by
  funext first second
  rw [linked_iff, eq_iff_iff, and_iff_right_iff_imp]
  exact inRange.lt_of_joined

theorem JoinsInRange.closed (inRange : view.JoinsInRange) : (JoinGraph.ofView view).Closed := by
  intro first second link
  rw [inRange.linked_eq_joined] at link
  rw [contains_ofView]
  exact inRange.lt_of_joined link.symm

theorem WellFormed.joinsInRange (wellFormed : view.WellFormed) : view.JoinsInRange := by
  intro condition declared _ ref named
  obtain ⟨source, found, _⟩ := wellFormed.reads declared named
  exact exists_source?_iff.1 ⟨source, found⟩

/-- The search steps exactly along the declared joins of a well-formed view. -/
theorem WellFormed.linked_eq_joined (wellFormed : view.WellFormed) :
    (JoinGraph.ofView view).Linked = view.Joined :=
  wellFormed.joinsInRange.linked_eq_joined

theorem WellFormed.lt_of_joined (wellFormed : view.WellFormed) {first second : Nat}
    (joined : view.Joined first second) : first < view.sources.length :=
  wellFormed.joinsInRange.lt_of_joined joined

end View

end Rejoin
