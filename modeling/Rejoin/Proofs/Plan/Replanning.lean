import Rejoin.Proofs.Plan.Outcome
import Rejoin.Proofs.Plan.WellFormed

/-!
# Planning a slice again

A slice is a view itself, whose sources are joined one after the other and in
no other way.  Cut along its own sources it carries what it carried before, so
planning the same columns again gives the slice itself.
-/

namespace Rejoin

/-- Nothing moves when every source keeps its position. -/
theorem relocate_range (size : Nat) : relocate (List.range size) = id := by
  funext source
  rw [relocate]
  cases placed : lastPlace? source (List.range size) with
  | none => rfl
  | some place =>
      obtain ⟨_, same⟩ := List.getElem?_eq_some_iff.1 (getElem?_lastPlace? placed)
      simpa using same

namespace View

variable {view slice : View} {order : List Nat} {request : Request}

/-! ## The conditions of a slice as those of a view -/

namespace CutAlong

variable {position node : Nat} {condition : Condition Nat Literal}

theorem index_eq (cut : view.CutAlong order request slice) {source : Source}
    (found : slice.source? position = some source) : source.index = position := by
  obtain ⟨_, _, _, _, rfl⟩ := cut.source?_cases found
  rfl

/-- The joins that lead to a source are moved to joins with the position before. -/
theorem relates_of_joinsInto (cut : view.CutAlong order request slice)
    (named : order[position]? = some node)
    (join : condition ∈ view.joinsInto (before? none order position) node) :
    ∃ before, position = before + 1 ∧
      (condition.mapSource (relocate order)).relates before position = true := by
  obtain ⟨_, first, earlier, joins⟩ := mem_joinsInto.1 join
  cases position with
  | zero => cases earlier
  | succ before =>
      have here := relocate_eq cut.distinct earlier
      have there := relocate_eq cut.distinct named
      have apart : relocate order first ≠ relocate order node := by omega
      have moved := Condition.relates_mapSource (relocate order) joins apart
      rw [here, there] at moved
      exact ⟨before, rfl, moved⟩

/-- The guards of a source are moved to guards of its position. -/
theorem constrains_of_guardsOn (cut : view.CutAlong order request slice)
    (named : order[position]? = some node) (guard : condition ∈ view.guardsOn node) :
    (condition.mapSource (relocate order)).constrains position position = true := by
  obtain ⟨_, _, _, about⟩ := mem_conditionsWhere.1 guard
  have moved := Condition.constrains_mapSource (relocate order) about
  rwa [relocate_eq cut.distinct named] at moved

/-- A source of a slice has joins with the one before and guards, and nothing else. -/
theorem relates_or_constrains (cut : view.CutAlong order request slice) {source : Source}
    (found : slice.source? position = some source) (own : condition ∈ source.conditions) :
    (∃ before, position = before + 1 ∧ condition.relates before position = true) ∨
      condition.constrains position position = true := by
  obtain ⟨node, entry, named, _, rfl⟩ := cut.source?_cases found
  obtain ⟨original, carried, rfl⟩ := List.mem_map.1 own
  rcases List.mem_append.1 carried with join | guard
  · exact .inl (cut.relates_of_joinsInto named join)
  · exact .inr (cut.constrains_of_guardsOn named guard)

/-- A join stands on one of the two sources that it joins, and the other one is just before. -/
theorem position_of_relates (cut : view.CutAlong order request slice) {source : Source}
    (found : slice.source? position = some source) (own : condition ∈ source.conditions)
    {first second : Nat} (joins : condition.relates first second = true) :
    position = second ∧ second = first + 1 ∨ position = first ∧ first = second + 1 := by
  rcases cut.relates_or_constrains found own with ⟨before, rfl, again⟩ | about
  · have same := Condition.relates_unique again joins
    omega
  · rw [Condition.not_relates_of_constrains about] at joins
    cases joins

/-- In a slice the guards of a source are those that it carries. -/
theorem guardsOn_eq (cut : view.CutAlong order request slice)
    (named : order[position]? = some node) :
    slice.guardsOn position =
      (view.guardsOn node).map (Condition.mapSource (relocate order)) := by
  obtain ⟨entry, _, moved⟩ := cut.source position node named
  have elsewhere : ∀ other next, slice.source? other = some next → other ≠ position →
      ∀ condition ∈ next.conditions, condition.constrains next.index position = false := by
    intro other next held apart condition own
    rw [cut.index_eq held]
    rcases cut.relates_or_constrains held own with ⟨before, _, joins⟩ | about
    · exact Condition.not_constrains_of_relates joins
    · rw [Bool.eq_false_iff]
      exact fun again => apart (Condition.constrains_unique about again)
  have joins : ((view.joinsInto (before? none order position) node).map
      (Condition.mapSource (relocate order))).filter
        (Condition.constrains position position) = [] := by
    rw [List.filter_eq_nil_iff, List.forall_mem_map]
    intro condition join
    obtain ⟨before, _, joins⟩ := cut.relates_of_joinsInto named join
    rw [Condition.not_constrains_of_relates joins]
    exact Bool.false_ne_true
  have guards : ((view.guardsOn node).map (Condition.mapSource (relocate order))).filter
      (Condition.constrains position position) =
      (view.guardsOn node).map (Condition.mapSource (relocate order)) := by
    rw [List.filter_eq_self, List.forall_mem_map]
    exact fun condition guard => cut.constrains_of_guardsOn named guard
  rw [guardsOn, conditionsWhere_eq_filter moved elsewhere]
  simp only [movedSource, carried, List.map_append, List.filter_append]
  rw [joins, guards, List.nil_append]

/-- In a slice the joins of neighbours are those that the later one carries. -/
theorem joinsBetween_eq (cut : view.CutAlong order request slice) {before : Nat}
    (first : order[position]? = some before) (second : order[position + 1]? = some node) :
    slice.joinsBetween position (position + 1) =
      (view.joinsBetween before node).map (Condition.mapSource (relocate order)) := by
  obtain ⟨entry, _, moved⟩ := cut.source (position + 1) node second
  have elsewhere : ∀ other next, slice.source? other = some next → other ≠ position + 1 →
      ∀ condition ∈ next.conditions, condition.relates position (position + 1) = false := by
    intro other next held apart condition own
    rw [Bool.eq_false_iff]
    intro joins
    have stands := cut.position_of_relates held own joins
    omega
  have led : before? none order (position + 1) = some before := first
  have joins : ((view.joinsBetween before node).map (Condition.mapSource (relocate order))).filter
      (fun condition => condition.relates position (position + 1)) =
      (view.joinsBetween before node).map (Condition.mapSource (relocate order)) := by
    rw [List.filter_eq_self, List.forall_mem_map]
    intro condition join
    obtain ⟨earlier, same, joins⟩ := cut.relates_of_joinsInto second (by rw [led]; exact join)
    obtain rfl : position = earlier := Nat.succ.inj same
    exact joins
  have guards : ((view.guardsOn node).map (Condition.mapSource (relocate order))).filter
      (fun condition => condition.relates position (position + 1)) = [] := by
    rw [List.filter_eq_nil_iff, List.forall_mem_map]
    intro condition guard
    rw [Condition.not_relates_of_constrains (cut.constrains_of_guardsOn second guard)]
    exact Bool.false_ne_true
  rw [joinsBetween_eq_where, conditionsWhere_eq_filter moved elsewhere]
  simp only [movedSource, carried, led, joinsInto, List.map_append, List.filter_append]
  rw [joins, guards, List.append_nil]

/-- Planned along its own positions a slice carries what it has. -/
theorem carried_eq (cut : view.CutAlong order request slice)
    (named : order[position]? = some node) :
    slice.carried (before? none (List.range order.length) position) position =
      (view.carried (before? none order position) node).map
        (Condition.mapSource (relocate order)) := by
  rw [carried, carried, List.map_append, cut.guardsOn_eq named]
  congr 1
  cases position with
  | zero => rfl
  | succ position =>
      have within : position < order.length :=
        Nat.lt_of_succ_lt (List.getElem?_eq_some_iff.1 named).1
      have first : order[position]? = some order[position] := List.getElem?_eq_getElem within
      have ranged : (List.range order.length)[position]? = some position := by simp [within]
      rw [before?, before?, first, ranged]
      exact cut.joinsBetween_eq first named

/-- Planned along its own positions a source of a slice stays as it is. -/
theorem movedSource_eq (cut : view.CutAlong order request slice) {source : Source}
    (found : slice.source? position = some source) :
    slice.movedSource (List.range order.length) (before? none (List.range order.length) position)
      position position source = source := by
  obtain ⟨node, entry, named, _, rfl⟩ := cut.source?_cases found
  have stays (conditions : List (Condition Nat Literal)) :
      conditions.map (Condition.mapSource id) = conditions := by
    rw [List.map_congr_left fun condition _ => condition.mapSource_id, List.map_id']
  rw [movedSource, cut.carried_eq named, relocate_range, stays]
  rfl

theorem joinColumns_eq (cut : view.CutAlong order request slice) {before : Nat}
    (first : order[position]? = some before) (second : order[position + 1]? = some node)
    (apart : before ≠ node) :
    slice.joinColumns position (position + 1) = view.joinColumns before node := by
  have here := relocate_eq cut.distinct first
  have there := relocate_eq cut.distinct second
  rw [joinColumns_eq_filterMap (Nat.ne_of_lt (Nat.lt_succ_self position)),
    joinColumns_eq_filterMap apart, cut.joinsBetween_eq first second, List.filterMap_map]
  refine List.filterMap_congr fun condition join => ?_
  have moved := Condition.columnsOn_mapSource (relocate order) (by omega)
    (List.mem_filter.1 join).2
  rwa [here, there] at moved

/-! ## The joins of a slice -/

/-- No join of a slice skips over a source. -/
theorem joined_le (cut : view.CutAlong order request slice) {first second : Nat}
    (joined : slice.Joined first second) : second ≤ first + 1 := by
  obtain ⟨condition, held, joins⟩ := joined
  obtain ⟨source, among, own⟩ := mem_conditions.1 held
  obtain ⟨position, found⟩ := exists_source?_of_mem among
  have stands := cut.position_of_relates found own joins
  omega

/-- The sources of a slice along a chain are joined one after the other. -/
theorem joined_succ (cut : view.CutAlong order request slice) {start last : Nat}
    (chain : Chain view.Joined start last order) (within : position + 1 < order.length) :
    slice.Joined position (position + 1) := by
  have first : order[position]? = some order[position] :=
    List.getElem?_eq_getElem (Nat.lt_of_succ_lt within)
  have second : order[position + 1]? = some order[position + 1] := List.getElem?_eq_getElem within
  obtain ⟨condition, declared, joins⟩ := chain.joined_next first second
  have join : condition.mapSource (relocate order) ∈
      slice.joinsBetween position (position + 1) := by
    rw [cut.joinsBetween_eq first second]
    exact List.mem_map_of_mem (List.mem_filter.2 ⟨declared, joins⟩)
  obtain ⟨held, moved⟩ := List.mem_filter.1 join
  exact ⟨_, held, moved⟩

theorem ascends (cut : view.CutAlong order request slice) {start last : Nat}
    (chain : Chain view.Joined start last order) :
    Chain slice.Joined 0 (order.length - 1) (List.range order.length) := by
  have nonempty := List.length_pos_iff.2 cut.nonempty
  have ascending := Chain.ascending 0 (order.length - 1) fun node _ below =>
    cut.joined_succ chain (by omega)
  rwa [Nat.zero_add, Nat.sub_add_cancel nonempty, ← List.range_eq_range'] at ascending

/-- The one shortest chain from the first source of a slice to the last passes all in order. -/
theorem eq_range_of_shortest (cut : view.CutAlong order request slice) {start last : Nat}
    (chain : Chain view.Joined start last order) {path : List Nat}
    (shortest : Shortest slice.Joined 0 (order.length - 1) path) :
    path = List.range order.length := by
  have bound := shortest.least _ (cut.ascends chain)
  rw [List.length_range] at bound
  obtain ⟨covers, ascends⟩ := shortest.chain.eq_ascending fun _ _ => cut.joined_le
  have nonempty := List.length_pos_iff.2 cut.nonempty
  have tight : path.length = order.length := by omega
  rw [ascends (by omega), tight, List.range_eq_range']

end CutAlong

/-! ## The plan of a slice -/

variable {options : Options} {anchor : String} {goal : Goal} {start : Nat}

/-- The same columns are requested of sources of one schema. -/
theorem fieldsRequest_of_schema {target place : Nat} {source entry : Source}
    {names : List String} (found : view.source? target = some source)
    (placed : slice.source? place = some entry) (same : entry.schema = source.schema)
    (made : view.fieldsRequest target names = .ok request) :
    slice.fieldsRequest place names = .ok ⟨place, request.projections⟩ := by
  obtain ⟨again, foundAgain, existing, rfl⟩ := fieldsRequest_eq_ok_iff.1 made
  obtain rfl : source = again := Option.some.inj (found.symm.trans foundAgain)
  rw [← same] at existing ⊢
  exact fieldsRequest_eq_ok_iff.2 ⟨entry, placed, existing, rfl⟩

/--
Where the view takes no shortcut along a path, the slice takes none: only one of
two sources joins its ends, and it joins them as the view does.
-/
theorem CutAlong.shortcut?_eq_none (cut : view.CutAlong order request slice)
    (chain : Chain view.Joined start request.target order)
    (free : view.shortcut? options start request = none) :
    slice.shortcut? options 0 ⟨order.length - 1, request.projections⟩ = none := by
  rw [Option.eq_none_iff_forall_ne_some]
  intro found taken
  obtain ⟨allowed, shortened⟩ := shortcut?_eq_some_iff.1 taken
  obtain ⟨apart, nonempty, link, ⟨source, held, reads⟩, _, _, renamed⟩ :=
    Shortcut.find?_eq_some_iff.1 shortened
  -- the ends are joined and no join skips a source, so they are all there is
  have adjacent : order.length = 2 := by
    have bound := cut.joined_le link
    change 0 ≠ order.length - 1 at apart
    change order.length - 1 ≤ 0 + 1 at bound
    omega
  obtain ⟨first, second, rfl⟩ := List.length_eq_two.1 adjacent
  obtain rfl : first = start := by simpa using chain.head?
  obtain rfl : second = request.target := by simpa using chain.getLast?
  have distinct : first ≠ request.target := by simpa using cut.distinct
  have columns : slice.joinColumns 0 1 = view.joinColumns first request.target :=
    cut.joinColumns_eq rfl rfl distinct
  change ∀ pair ∈ slice.joinColumns 0 1, _ at reads
  change List.Forall₂ (fun name rename =>
    Shortcut.rename? (slice.joinColumns 0 1) name = some rename) _ _ at renamed
  rw [columns] at reads renamed
  obtain ⟨entry, existing, moved⟩ := cut.source 0 first rfl
  obtain rfl : source = _ := Option.some.inj (held.symm.trans moved)
  have head : [first, request.target][0]? = some first := rfl
  have joined : view.Joined first request.target := chain.joined_next head rfl
  have again : view.shortcut? options first request =
      some ⟨first, request.target, found.renames⟩ :=
    shortcut?_eq_some_iff.2 ⟨allowed, Shortcut.find?_eq_some_iff.2 ⟨distinct, nonempty, joined,
      ⟨entry, existing, reads⟩, rfl, rfl, renamed⟩⟩
  cases free.symm.trans again

/-- What is laid out along the positions of a slice is the slice itself. -/
theorem LaidOut.eq_of_range {copy : View} (laid : view.LaidOut order id request slice)
    (copied : slice.LaidOut (List.range order.length) id
      ⟨order.length - 1, request.projections⟩ copy) : copy = slice := by
  apply copied.cut.eq_of_sources laid.cut copied.name
  · refine List.ext_getElem? fun position => ?_
    cases held : slice.source? position with
    | none =>
        have beyond : slice.sources.length ≤ position := List.getElem?_eq_none_iff.1 held
        have outside : copy.sources.length ≤ position := by
          rwa [copied.cut.length, List.length_range, ← laid.cut.length]
        exact (List.getElem?_eq_none_iff.2 outside).trans held.symm
    | some source =>
        have within : position < order.length := by
          rw [← laid.cut.length]
          exact exists_source?_iff.1 ⟨source, held⟩
        have ranged : (List.range order.length)[position]? = some position := by simp [within]
        obtain ⟨entry, found, moved⟩ := copied.cut.source position position ranged
        obtain rfl : entry = source := Option.some.inj (found.symm.trans held)
        rw [laid.cut.movedSource_eq held] at moved
        exact moved.trans held.symm
  · rw [copied.columns, laid.columns, List.length_range]

/-- A slice along a shortest path is what it gives for the same columns again. -/
theorem LaidOut.plan_eq (laid : view.LaidOut order id request slice)
    (wellFormed : view.WellFormed) (fits : request.Fits view)
    (shortest : Shortest view.Joined start request.target order)
    (free : view.shortcut? options start request = none)
    (anchored : slice.indexOf? anchor = some 0)
    (made : goal.request slice = .ok ⟨order.length - 1, request.projections⟩) :
    slice.plan options anchor goal = .ok (some slice) := by
  have sliceFormed := laid.cut.wellFormed wellFormed fits
  obtain ⟨path, reached⟩ := sliceFormed.exists_path
    (goal.request_fits sliceFormed made).target (laid.cut.ascends shortest.chain)
  have again := JoinGraph.shortestPath?_shortest reached
  rw [sliceFormed.linked_eq_joined] at again
  obtain rfl := laid.cut.eq_range_of_shortest shortest.chain again
  obtain ⟨copy, planned, ⟨_, taken, _⟩ | ⟨_, copied⟩⟩ :=
    plan_laidOut sliceFormed options anchored made reached
  · rw [laid.cut.shortcut?_eq_none shortest.chain free] at taken
    cases taken
  · rw [planned, laid.eq_of_range copied]

/-- The alias of a source leads to its position in the slice. -/
theorem CutAlong.indexOf?_eq (cut : view.CutAlong order request slice)
    (sliceFormed : slice.WellFormed) {position node : Nat} {source : Source}
    (named : order[position]? = some node) (found : view.source? node = some source) :
    slice.indexOf? source.name = some position := by
  obtain ⟨entry, existing, moved⟩ := cut.source position node named
  obtain rfl : entry = source := Option.some.inj (existing.symm.trans found)
  exact sliceFormed.indexOf?_eq_some_iff.2 ⟨_, moved, rfl⟩

/--
Planning the same fields of a slice that still has their source gives the slice
itself, to the last condition and literal.
-/
theorem fieldsFrom_replanned {definition : Definition} (resolved : definition.resolve = .ok view)
    {target : String} {names : List String}
    (planned : view.fieldsFrom options anchor target names = .ok (some slice))
    (kept : target ∈ slice.aliases) :
    slice.fieldsFrom options anchor target names = .ok (some slice) := by
  have wellFormed := (Definition.wellFormed_of_resolve resolved).1
  unfold fieldsFrom at planned
  split at planned
  · cases planned
  · next index aimed =>
      obtain ⟨start, request, path, anchored, made, shortest, laidOut⟩ :=
        laidOut_of_plan wellFormed planned
      have fits := Goal.request_fits wellFormed made
      obtain ⟨source, held, same⟩ := wellFormed.indexOf?_eq_some_iff.1 aimed
      obtain ⟨origin, originHeld, originSame⟩ := wellFormed.indexOf?_eq_some_iff.1 anchored
      have aims : request.target = index := by
        obtain ⟨_, _, _, rfl⟩ := fieldsRequest_eq_ok_iff.1 made
        rfl
      rcases laidOut with ⟨shortcut, taken, laid⟩ | ⟨free, laid⟩
      · -- a shortcut has dropped the target, against `kept`
        have apart : start ≠ index := by
          rw [← aims]
          exact (Shortcut.find?_eq_some_iff.1 (shortcut?_eq_some_iff.1 taken).2).1
        rw [laid.cut.aliases, List.map_singleton, List.mem_singleton,
          aliasAt_of_source? originHeld, ← same] at kept
        exact absurd (position_unique wellFormed.distinct originHeld held kept.symm) apart
      · have sliceFormed := laid.cut.wellFormed wellFormed fits
        have first : path[0]? = some start := by
          rw [← List.head?_eq_getElem?]
          exact shortest.chain.head?
        have last : path[path.length - 1]? = some index := by
          rw [← List.getLast?_eq_getElem?, ← aims]
          exact shortest.chain.getLast?
        have begins : slice.indexOf? anchor = some 0 := by
          rw [← originSame]
          exact laid.cut.indexOf?_eq sliceFormed first originHeld
        have ends : slice.indexOf? target = some (path.length - 1) := by
          rw [← same]
          exact laid.cut.indexOf?_eq sliceFormed last held
        obtain ⟨entry, existing, moved⟩ := laid.cut.source _ index last
        obtain rfl : entry = source := Option.some.inj (existing.symm.trans held)
        have asked := fieldsRequest_of_schema held moved rfl made
        unfold fieldsFrom
        simp only [ends]
        exact laid.plan_eq wellFormed fits shortest free begins asked

/-- The fields of an order that a note leads to are planned again from the slice. -/
theorem fieldsFrom_replanned_parcels :
    parcels.fieldsFrom {} "note" "order" ["id"] = .ok (some parcelsOfNote) ∧
      parcelsOfNote.fieldsFrom {} "note" "order" ["id"] = .ok (some parcelsOfNote) := by
  have planned : parcels.fieldsFrom {} "note" "order" ["id"] = .ok (some parcelsOfNote) := rfl
  exact ⟨planned, fieldsFrom_replanned parcels_resolved planned (by decide)⟩

end View

end Rejoin
