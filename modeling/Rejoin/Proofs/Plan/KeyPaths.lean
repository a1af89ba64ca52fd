import Rejoin.Proofs.Plan.Outcome
import Rejoin.Proofs.Plan.Run

/-!
# The key paths of all sources

The key paths are planned only for the sources that are reached from MAIN.  As
joins lead both ways, these are the sources from which a path to MAIN is found,
so leaving out the others changes nothing: each entry is what planning its
source alone returns.
-/

namespace Rejoin.View

variable {view slice : View} {options : Options}

/-- The entry of a source is its own plan, without a slice if no path leads to MAIN. -/
structure PlannedAlone (view : View) (options : Options) (source : Source) (entry : KeyPathPlan) :
    Prop where
  anchor : entry.anchor = source.name
  slice : view.keyPath options source.name = .ok entry.slice
  unlinked : entry.slice = none ↔
    (JoinGraph.ofView view).shortestPath? source.index 0 = none

/-- MAIN reaches the sources from which a path to MAIN is found. -/
theorem WellFormed.mem_reachable_main_iff (wellFormed : view.WellFormed) {node : Nat}
    (known : ∃ source, view.source? node = some source) :
    node ∈ (JoinGraph.ofView view).reachable 0 ↔
      ∃ path, (JoinGraph.ofView view).shortestPath? node 0 = some path := by
  have main : ∃ source, view.source? 0 = some source :=
    exists_source?_iff.2 (List.length_pos_iff.2 wellFormed.nonempty)
  rw [JoinGraph.mem_reachable_iff (contains_iff.2 known),
    JoinGraph.exists_shortestPath?_iff (contains_iff.2 main), wellFormed.linked_eq_joined]
  have back {first last : Nat} : (∃ path, Chain view.Joined first last path) →
      ∃ path, Chain view.Joined last first path :=
    fun ⟨path, chain⟩ => ⟨path.reverse, chain.reverse fun _ _ joined => joined.symm⟩
  exact ⟨back, back⟩

/-- The key path of a source is planned without failure, and is missing without a path to MAIN. -/
theorem keyPath_of_source (wellFormed : view.WellFormed) (options : Options) {position : Nat}
    {source : Source} (found : view.source? position = some source) :
    ∃ outcome, view.keyPath options source.name = .ok outcome ∧
      (outcome = none ↔ (JoinGraph.ofView view).shortestPath? position 0 = none) := by
  have anchored : view.indexOf? source.name = some position :=
    wellFormed.indexOf?_eq_some_iff.2 ⟨source, found, rfl⟩
  obtain ⟨main, others, sources⟩ := List.exists_cons_of_ne_nil wellFormed.nonempty
  have made : Goal.keyPath.request view =
      .ok ⟨0, main.schema.primaryKey.map Projection.ofName⟩ := by
    change view.keyPathRequest = _
    rw [keyPathRequest, main?, sources, List.head?_cons]
  cases reached : (JoinGraph.ofView view).shortestPath? position 0 with
  | none => exact ⟨none, plan_eq_none anchored made reached, by simp⟩
  | some path =>
      obtain ⟨slice, planned, _⟩ := plan_laidOut wellFormed options anchored made reached
      exact ⟨some slice, planned, by simp⟩

/-- The sources that are left out are those whose own plan has no slice. -/
theorem keyPaths_eq (wellFormed : view.WellFormed) (options : Options) :
    view.keyPaths options = view.sources.mapM (fun source =>
      (view.keyPath options source.name).map (fun slice => ⟨source.name, slice⟩)) := by
  unfold keyPaths
  refine mapM_congr fun source among => ?_
  obtain ⟨position, found⟩ := exists_source?_of_mem among
  split
  · rfl
  · next left =>
      obtain ⟨outcome, planned, missing⟩ := keyPath_of_source wellFormed options found
      rw [List.contains_iff_mem, wellFormed.indexed position source found,
        wellFormed.mem_reachable_main_iff ⟨source, found⟩, ← Option.isSome_iff_exists,
        Option.not_isSome_iff_eq_none, ← missing] at left
      rw [planned, left]
      rfl

/-- Every source has an entry, in declaration order. -/
theorem keyPaths_plannedAlone (wellFormed : view.WellFormed) (options : Options) :
    ∃ plans, view.keyPaths options = .ok plans ∧
      List.Forall₂ (view.PlannedAlone options) view.sources plans := by
  rw [keyPaths_eq wellFormed]
  have succeeds : ∀ source ∈ view.sources, ∃ entry,
      (view.keyPath options source.name).map (KeyPathPlan.mk source.name) = .ok entry := by
    intro source among
    obtain ⟨position, found⟩ := exists_source?_of_mem among
    obtain ⟨outcome, planned, _⟩ := keyPath_of_source wellFormed options found
    exact ⟨_, map_eq_ok_iff.2 ⟨outcome, planned, rfl⟩⟩
  obtain ⟨plans, traversed⟩ := exists_mapM succeeds
  refine ⟨plans, traversed, ?_⟩
  have each := (List.forall₂_and_left _ _).2
    ⟨fun source (among : source ∈ view.sources) => among, mapM_eq_ok_iff.1 traversed⟩
  refine each.imp fun source entry answered => ?_
  obtain ⟨among, made⟩ := answered
  obtain ⟨position, found⟩ := exists_source?_of_mem among
  obtain ⟨outcome, planned, missing⟩ := keyPath_of_source wellFormed options found
  obtain ⟨again, plannedAgain, rfl⟩ := map_eq_ok_iff.1 made
  obtain rfl : again = outcome := Except.ok.inj (plannedAgain.symm.trans planned)
  exact ⟨rfl, planned, by rw [wellFormed.indexed position source found, missing]⟩

/--
For a resolved view and for every slice that runs of planning lead to, the key
paths never fail.  Each source has one entry, its own plan, and the sources that
MAIN does not reach are those from which no path to MAIN is found.
-/
theorem keyPaths_agree {definition : Definition} (resolved : definition.resolve = .ok view)
    (run : Relation.ReflTransGen SliceOf view slice) (options : Options) :
    (∃ plans, slice.keyPaths options = .ok plans ∧
      List.Forall₂ (slice.PlannedAlone options) slice.sources plans) ∧
    ∀ source ∈ slice.sources, source.index ∉ (JoinGraph.ofView slice).reachable 0 ↔
      (JoinGraph.ofView slice).shortestPath? source.index 0 = none := by
  have wellFormed : slice.WellFormed := by
    have viewFormed := (Definition.wellFormed_of_resolve resolved).1
    rcases Relation.reflTransGen_iff_eq_or_transGen.1 run with rfl | run
    · exact viewFormed
    · exact (wellFormed_of_run run viewFormed).1
  refine ⟨keyPaths_plannedAlone wellFormed options, fun source among => ?_⟩
  obtain ⟨position, found⟩ := exists_source?_of_mem among
  rw [wellFormed.indexed position source found,
    wellFormed.mem_reachable_main_iff ⟨source, found⟩, ← Option.isSome_iff_exists,
    Option.not_isSome_iff_eq_none]

/-- In the slice of a note every source has an entry, whose MAIN source is the note. -/
theorem keyPaths_agree_parcels :
    ∃ plans, parcelsOfNote.keyPaths {} = .ok plans ∧
      List.Forall₂ (parcelsOfNote.PlannedAlone {}) parcelsOfNote.sources plans :=
  (keyPaths_agree parcels_resolved (.single (.keyPath parcels_keyPath)) {}).1

end Rejoin.View
