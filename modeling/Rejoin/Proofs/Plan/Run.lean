import Mathlib.Logic.Relation
import Rejoin.Proofs.Definition.Resolution
import Rejoin.Proofs.Plan.Assembly
import Rejoin.Proofs.Plan.WellFormed

/-!
# Runs of planning

Slices are views, so planning can be repeated on them.  However often it is,
slices of resolved views are well-formed, and each is what some definition
resolves to.
-/

namespace Rejoin

namespace View

/-- The slice is what one of the ways to plan returns for the view. -/
inductive SliceOf (view slice : View) : Prop where
  | plan {options : Options} {anchor : String} {goal : Goal}
      (returned : view.plan options anchor goal = .ok (some slice))
  | keyPath {options : Options} {anchor : String}
      (returned : view.keyPath options anchor = .ok (some slice))
  | fieldsFrom {options : Options} {anchor target : String} {names : List String}
      (returned : view.fieldsFrom options anchor target names = .ok (some slice))
  | fields {options : Options} {anchor : String} {names : List String}
      (returned : view.fields options anchor names = .ok (some slice))
  | computedKey {options : Options} {anchor : String}
      (returned : view.computedKey options anchor = .ok (some slice))
  | keyPaths {options : Options} {plans : List KeyPathPlan} {planned : KeyPathPlan}
      (returned : view.keyPaths options = .ok plans) (among : planned ∈ plans)
      (holds : planned.slice = some slice)

variable {view slice : View}

theorem plan_of_fieldsFrom {options : Options} {anchor target : String} {names : List String}
    (returned : view.fieldsFrom options anchor target names = .ok (some slice)) :
    ∃ goal, view.plan options anchor goal = .ok (some slice) := by
  unfold View.fieldsFrom at returned
  split at returned
  · cases returned
  · exact ⟨_, returned⟩

/-- Every way to plan is planning for some goal. -/
theorem SliceOf.planned (slices : view.SliceOf slice) :
    ∃ options anchor goal, view.plan options anchor goal = .ok (some slice) := by
  cases slices with
  | plan returned => exact ⟨_, _, _, returned⟩
  | keyPath returned => exact ⟨_, _, .keyPath, returned⟩
  | fieldsFrom returned => exact ⟨_, _, plan_of_fieldsFrom returned⟩
  | fields returned =>
      unfold View.fields at returned
      split at returned
      · cases returned
      · exact ⟨_, _, plan_of_fieldsFrom returned⟩
  | computedKey returned => exact ⟨_, _, .computedKey, returned⟩
  | keyPaths returned among holds =>
      obtain ⟨source, _, attempted⟩ := exists_of_mem_right (mapM_eq_ok_iff.1 returned) among
      split at attempted
      · obtain ⟨_, returned, rfl⟩ := map_eq_ok_iff.1 attempted
        cases holds
        exact ⟨_, _, .keyPath, returned⟩
      · cases attempted
        cases holds

/-- What planning leaves out of every slice: outer joins, the filter and the key override. -/
structure Bare (slice : View) : Prop where
  inner : ∀ position source, slice.source? position = some source → position ≠ 0 →
    source.mode = .inner
  filter : slice.filter = none
  keyOverride : slice.keyOverride = none

/-- One way to plan keeps a view well-formed and leaves a bare slice. -/
theorem SliceOf.wellFormed (slices : view.SliceOf slice) (wellFormed : view.WellFormed) :
    slice.WellFormed ∧ slice.Bare := by
  obtain ⟨_, _, goal, planned⟩ := slices.planned
  obtain ⟨_, request, _, order, _, made, _, _, cut⟩ := plan_cases wellFormed planned
  refine ⟨cut.wellFormed wellFormed (goal.request_fits wellFormed made), ?_, cut.filter,
    cut.keyOverride⟩
  intro position source found later
  obtain ⟨_, _, _, _, rfl⟩ := cut.source?_cases found
  exact if_neg later

/-- Planning slices of slices keeps them well-formed. -/
theorem wellFormed_of_run (run : Relation.TransGen SliceOf view slice)
    (wellFormed : view.WellFormed) : slice.WellFormed ∧ slice.Bare := by
  induction run with
  | single slices => exact slices.wellFormed wellFormed
  | tail _ slices ih => exact slices.wellFormed ih.1

/-- Two ways to plan, one on the slice of the other. -/
theorem parcels_run : Relation.TransGen SliceOf parcels customerOfNote :=
  .tail (.single (.keyPath parcels_keyPath)) (.fieldsFrom parcelsOfNote_fieldsFrom)

/-- Resolving gives only well-formed views, and runs of planning lead only to such ones again. -/
theorem planning_wellFormed :
    (∀ (definition : Definition) (view : View), definition.resolve = .ok view →
      view.WellFormed) ∧
    ∀ view slice : View, view.WellFormed → Relation.TransGen SliceOf view slice →
      slice.WellFormed ∧ slice.Bare := by
  constructor
  · intro definition view resolved
    exact (Definition.wellFormed_of_resolve resolved).1
  · intro view slice wellFormed run
    exact wellFormed_of_run run wellFormed

theorem planning_wellFormed_parcels : customerOfNote.WellFormed ∧ customerOfNote.Bare :=
  planning_wellFormed.2 parcels customerOfNote
    (planning_wellFormed.1 parcels.unresolve parcels parcels_resolved) parcels_run

/--
Resolution is a bijection between the definitions that it accepts and the
well-formed views, whose inverse is `unresolve`; runs of planning stay in its range.
-/
theorem resolution_lossless :
    (∀ (definition : Definition) (view : View),
      definition.resolve = .ok view ↔ view.WellFormed ∧ definition = view.unresolve) ∧
    ∀ view slice : View, view.WellFormed → Relation.TransGen SliceOf view slice →
      slice.unresolve.resolve = .ok slice := by
  constructor
  · intro definition view
    exact Definition.resolve_eq_ok_iff
  · intro view slice wellFormed run
    exact Definition.resolve_unresolve (wellFormed_of_run run wellFormed).1

theorem resolution_lossless_parcels :
    parcels.WellFormed ∧ customerOfNote.unresolve.resolve = .ok customerOfNote := by
  have wellFormed := ((resolution_lossless.1 _ _).1 parcels_resolved).1
  exact ⟨wellFormed, resolution_lossless.2 parcels customerOfNote wellFormed parcels_run⟩

end View

end Rejoin
