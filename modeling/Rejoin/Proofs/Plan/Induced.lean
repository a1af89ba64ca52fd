import Rejoin.Proofs.Plan.Assembly

/-!
# A slice is the part of a view that its sources induce

Seen from the view, each source of a slice carries the joins with the source
before it and the guards on it in their declared order.  Along a shortest chain
nothing else stays within the sources, so the slice has neither lost nor added
a condition.
-/

namespace Rejoin.View

/-- The source of a view that stands at a position of an order. -/
def standing (order : List Nat) (position : Nat) : Nat :=
  (order[position]?).getD position

namespace CutAlong

variable {view slice : View} {order : List Nat} {request : Request}

/-- A carried condition is the declared one again when it is moved back. -/
theorem mapSource_standing (cut : view.CutAlong order request slice) {position node : Nat}
    (named : order[position]? = some node) {condition : Condition Nat Literal}
    (carried : condition ∈ view.carried (before? none order position) node) :
    (condition.mapSource (relocate order)).mapSource (standing order) = condition := by
  refine Condition.mapSource_mapSource_cancel fun ref among => ?_
  rw [standing, (cut.relocate_of_mem_carried named carried among).2, Option.getD_some]

/-- Source by source the slice has what its sources carry along the order. -/
theorem conditions_eq (cut : view.CutAlong order request slice) :
    slice.sources.map (fun source => source.conditions.map (Condition.mapSource (standing order))) =
      List.zipWith view.carried (none :: order.map some) order := by
  refine List.ext_getElem? fun position => ?_
  rw [List.getElem?_map, List.getElem?_zipWith]
  cases named : order[position]? with
  | none =>
      have beyond : slice.sources[position]? = none := by
        rw [List.getElem?_eq_none_iff, cut.length]
        exact List.getElem?_eq_none_iff.1 named
      rw [beyond]
      cases (none :: order.map some)[position]? <;> rfl
  | some node =>
      have before : (none :: order.map some)[position]? = some (before? none order position) := by
        cases position with
        | zero => rfl
        | succ position =>
            have within : position + 1 < order.length := (List.getElem?_eq_some_iff.1 named).1
            simp [before?, Nat.lt_of_succ_lt within]
      obtain ⟨entry, _, moved⟩ := cut.source position node named
      have back : (view.carried (before? none order position) node).map
          (Condition.mapSource (standing order) ∘ Condition.mapSource (relocate order)) =
          view.carried (before? none order position) node :=
        (List.map_congr_left fun condition carried =>
          cut.mapSource_standing named carried).trans (List.map_id _)
      change slice.sources[position]? = _ at moved
      rw [before, moved, Option.map_some, movedSource, List.map_map, back]

theorem conditions_perm (cut : view.CutAlong order request slice) {first last : Nat}
    (shortest : Shortest view.Joined first last order) :
    (slice.conditions.map (Condition.mapSource (standing order))).Perm (view.induced order) := by
  have flattened : slice.conditions.map (Condition.mapSource (standing order)) =
      (List.zipWith view.carried (none :: order.map some) order).flatten := by
    rw [← cut.conditions_eq, conditions, List.map_flatMap, List.flatMap_def]
  rw [flattened]
  exact carried_perm_induced shortest

end CutAlong

/-- What identifies a source apart from its place in the view. -/
def Source.identity (source : Source) : String × String × Schema :=
  (source.table, source.name, source.schema)

/--
A slice of a resolved view stands along a shortest chain of declared joins, or
on the anchor alone in place of its join with the target.  Seen from the view
its sources are those of the order and their conditions are what the order
carries, which are exactly the declared conditions that stay within it.
-/
theorem slice_induced {definition : Definition} {view slice : View}
    (resolved : definition.resolve = .ok view) {options : Options} {anchor : String} {goal : Goal}
    (planned : view.plan options anchor goal = .ok (some slice)) :
    ∃ start request order, view.indexOf? anchor = some start ∧
      goal.request view = .ok request ∧
      (Shortest view.Joined start request.target order ∨
        options.shortcuts = true ∧ view.Joined start request.target ∧ order = [start]) ∧
      slice.sources.map (fun source => some source.identity) =
        order.map (fun node => (view.source? node).map Source.identity) ∧
      slice.sources.map (fun source =>
          source.conditions.map (Condition.mapSource (standing order))) =
        List.zipWith view.carried (none :: order.map some) order ∧
      (slice.conditions.map (Condition.mapSource (standing order))).Perm (view.induced order) := by
  have wellFormed := (Definition.wellFormed_of_resolve resolved).1
  obtain ⟨start, request, path, order, anchored, made, shortest, along, cut⟩ :=
    plan_cases wellFormed planned
  refine ⟨start, request, order, anchored, made, ?_, cut.source?_map _ fun _ _ _ _ => rfl,
    cut.conditions_eq, ?_⟩
  · rcases along with rfl | shortened
    · exact .inl shortest
    · exact .inr shortened
  · rcases along with rfl | ⟨_, _, rfl⟩
    · exact cut.conditions_perm shortest
    · exact cut.conditions_perm (Shortest.single start)

/-- The slice that leads from a note to its orders keeps all four conditions. -/
theorem slice_induced_parcels :
    ∃ order, parcelsOfNote.sources.map (fun source => some source.identity) =
        order.map (fun node => (parcels.source? node).map Source.identity) ∧
      (parcelsOfNote.conditions.map (Condition.mapSource (standing order))).Perm
        (parcels.induced order) := by
  obtain ⟨_, _, order, _, _, _, sources, _, induced⟩ :=
    slice_induced parcels_resolved parcels_keyPath
  exact ⟨order, sources, induced⟩

end Rejoin.View
