import Rejoin.Plan.Request
import Rejoin.Proofs.Traversal
import Rejoin.Proofs.View.WellFormed

/-!
# Requests fit the view

A goal that makes a request of a well-formed view asks for existing columns of
one existing source and copies only computed columns of the view.
-/

namespace Rejoin

/-- Every part of a request exists in the view. -/
structure Request.Fits (request : Request) (view : View) : Prop where
  target : ∃ source, view.source? request.target = some source
  wanted : ∀ name column, .column name column ∈ request.projections →
    view.Reads ⟨request.target, column⟩
  copied : ∀ column, .copied column ∈ request.projections →
    column ∈ view.columns ∧ column.origin.reference? = none

/-- One more fitting projection in front keeps a request fitting. -/
theorem Request.Fits.project {view : View} {request : Request} (fits : request.Fits view)
    {projection : Projection}
    (wanted : ∀ name column, projection = .column name column →
      view.Reads ⟨request.target, column⟩)
    (copied : ∀ column, projection = .copied column →
      column ∈ view.columns ∧ column.origin.reference? = none) :
    (request.project projection).Fits view where
  target := fits.target
  wanted := by
    intro name column among
    rcases List.mem_cons.1 among with same | among
    · exact wanted name column same.symm
    · exact fits.wanted name column among
  copied := by
    intro column among
    rcases List.mem_cons.1 among with same | among
    · exact copied column same.symm
    · exact fits.copied column among

namespace View

variable {view : View}

/-- Columns requested under their own names fit when the source has them. -/
theorem fits_ofName {target : Nat} {source : Source} {names : List String}
    (found : view.source? target = some source)
    (existing : ∀ name ∈ names, name ∈ source.schema.columnNames) :
    (⟨target, names.map Projection.ofName⟩ : Request).Fits view where
  target := ⟨source, found⟩
  wanted := by
    intro name column among
    obtain ⟨_, held, same⟩ := List.mem_map.1 among
    cases same
    exact ⟨source, found, Schema.hasColumn_iff.2 (existing _ held)⟩
  copied := by
    intro column among
    obtain ⟨_, _, same⟩ := List.mem_map.1 among
    cases same

theorem keyPathRequest_fits (wellFormed : view.WellFormed) {request : Request}
    (made : view.keyPathRequest = .ok request) : request.Fits view := by
  unfold keyPathRequest at made
  split at made
  · cases made
  · next main found =>
      cases made
      have held : view.source? 0 = some main := by rwa [main?, List.head?_eq_getElem?] at found
      exact fits_ofName held (wellFormed.keyed main (source?_mem held)).contained

/-- Existing columns of an existing source are requested; no name stands for all of them. -/
theorem fieldsRequest_eq_ok_iff {target : Nat} {names : List String} {request : Request} :
    view.fieldsRequest target names = .ok request ↔
      ∃ source, view.source? target = some source ∧
        (∀ name ∈ names, name ∈ source.schema.columnNames) ∧
        request = ⟨target, (if names.isEmpty then source.schema.columnNames
          else names.eraseDups).map Projection.ofName⟩ := by
  unfold fieldsRequest
  cases view.source? target with
  | none => simp
  | some source =>
      simp only [Option.some.injEq, exists_eq_left', ← Schema.hasColumn_iff]
      cases names with
      | nil =>
          constructor
          · intro made
            exact ⟨nofun, (Except.ok.inj made).symm⟩
          · rintro ⟨_, rfl⟩
            rfl
      | cons first rest =>
          simp only [List.isEmpty_cons, Bool.false_eq_true, if_false]
          split
          · next unknown missing =>
              simp only [reduceCtorEq, false_iff, not_and]
              intro existing
              have absent := List.find?_some missing
              simp [existing unknown (List.mem_of_find?_eq_some missing)] at absent
          · next known =>
              have existing : ∀ name ∈ first :: rest, source.schema.hasColumn name = true := by
                intro name among
                simpa using List.find?_eq_none.1 known name among
              rw [Except.ok.injEq, and_iff_right existing, eq_comm]

theorem fieldsRequest_fits {target : Nat} {names : List String} {request : Request}
    (made : view.fieldsRequest target names = .ok request) : request.Fits view := by
  obtain ⟨source, found, existing, rfl⟩ := fieldsRequest_eq_ok_iff.1 made
  refine fits_ofName found fun name among => ?_
  split at among
  · exact among
  · exact existing name (List.mem_eraseDups.1 among)

/-- A key whose earlier columns have settled an existing target keeps that target. -/
theorem keyColumnsRequest_fits (wellFormed : view.WellFormed) {settled : Option Nat}
    {names : List String} {request : Request}
    (existing : ∀ target, settled = some target → ∃ source, view.source? target = some source)
    (made : view.keyColumnsRequest settled names = .ok request) :
    request.Fits view ∧ ∀ target, settled = some target → request.target = target := by
  induction names generalizing settled request with
  | nil =>
      cases made
      refine ⟨⟨?_, nofun, nofun⟩, ?_⟩
      · cases settled with
        | none =>
            exact exists_source?_iff.2 (List.length_pos_iff.2 wellFormed.nonempty)
        | some target => exact existing target rfl
      · rintro target rfl
        rfl
  | cons name rest ih =>
      unfold keyColumnsRequest at made
      split at made
      · cases made
      · next column found =>
          have held : column ∈ view.columns := List.mem_of_find?_eq_some found
          split at made
          · next expression literal computed =>
              obtain ⟨later, laterMade, rfl⟩ := map_eq_ok_iff.1 made
              obtain ⟨fits, kept⟩ := ih existing laterMade
              refine ⟨fits.project nofun fun copied same => ?_, kept⟩
              cases same
              exact ⟨held, by rw [computed]; rfl⟩
          · next ref referenced =>
              split at made
              · cases made
              · next agrees =>
                  have reads : view.Reads ref :=
                    wellFormed.outputs column held ref (by rw [referenced]; rfl)
                  obtain ⟨later, laterMade, rfl⟩ := map_eq_ok_iff.1 made
                  obtain ⟨fits, kept⟩ := ih
                    (fun target same => by
                      cases same
                      obtain ⟨source, found, _⟩ := reads
                      exact ⟨source, found⟩) laterMade
                  have target := kept ref.source rfl
                  refine ⟨fits.project (fun name wanted same => ?_) nofun, ?_⟩
                  · cases same
                    rwa [target]
                  · rintro other rfl
                    change later.target = other
                    have same : other = ref.source := by simpa using agrees
                    rw [target, same]

theorem computedKeyRequest_fits (wellFormed : view.WellFormed) {request : Request}
    (made : view.computedKeyRequest = .ok request) : request.Fits view := by
  unfold computedKeyRequest at made
  split at made
  · cases made
  · cases made
  · exact (keyColumnsRequest_fits wellFormed (fun _ same => by cases same) made).1

end View

theorem Goal.request_fits {view : View} (wellFormed : view.WellFormed) {goal : Goal}
    {request : Request} (made : goal.request view = .ok request) : request.Fits view := by
  cases goal with
  | keyPath => exact View.keyPathRequest_fits wellFormed made
  | fields target names => exact View.fieldsRequest_fits made
  | computedKey => exact View.computedKeyRequest_fits wellFormed made

end Rejoin
