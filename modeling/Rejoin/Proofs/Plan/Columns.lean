import Rejoin.Proofs.Plan.Outcome

/-!
# The output columns of a slice

What a goal asks for is settled by the view alone: `Goal.Asks` lists it in
order.  A slice has one output column for each entry, which reads the column of
the target itself or the column of the anchor that a declared condition equates
with it.
-/

namespace Rejoin

/-- What a key name asks for: the first output column of that name, if it is computed as it is. -/
inductive View.AsksByName (view : View) (name : String) : Projection → Prop where
  | computed {column : OutputColumn Nat Literal} (found : view.column? name = some column)
      (computed : column.isComputed = true) : AsksByName view name (.copied column)
  | referenced {column : OutputColumn Nat Literal} {ref : ColumnRef Nat}
      (found : view.column? name = some column) (read : column.origin.reference? = some ref) :
      AsksByName view name (.column name ref.column)

/-- The output columns that a goal asks for; a field named again is not asked for again. -/
inductive Goal.Asks (view : View) : Goal → List Projection → Prop where
  | keyPath {main : View.Source} (led : view.main? = some main) :
      Asks view .keyPath (main.schema.primaryKey.map Projection.ofName)
  | everyField {target : Nat} {source : View.Source} (found : view.source? target = some source) :
      Asks view (.fields target []) (source.schema.columnNames.map Projection.ofName)
  | fields {target : Nat} {names fields : List String} (named : names ≠ [])
      (first : FirstUses names fields) :
      Asks view (.fields target names) (fields.map Projection.ofName)
  | computedKey {names : List String} {projections : List Projection}
      (key : view.keyOverride = some names)
      (asked : List.Forall₂ view.AsksByName names projections) :
      Asks view .computedKey projections

namespace View

variable {view slice : View} {options : Options} {anchor : String} {goal : Goal} {start : Nat}
  {request : Request}

/-- Key names are requested one by one, whichever source earlier ones have settled. -/
theorem keyColumnsRequest_asks {settled : Option Nat} {names : List String}
    (made : view.keyColumnsRequest settled names = .ok request) :
    List.Forall₂ view.AsksByName names request.projections := by
  induction names generalizing settled request with
  | nil =>
      cases made
      exact .nil
  | cons name rest ih =>
      cases found : view.column? name with
      | none =>
          rw [keyColumnsRequest, found] at made
          cases made
      | some column =>
          have called : column.name = name := by simpa using List.find?_some found
          cases read : column.origin.reference? with
          | none =>
              rw [keyColumnsRequest_computed found read] at made
              obtain ⟨later, laterMade, rfl⟩ := map_eq_ok_iff.1 made
              exact .cons (.computed found (by rw [OutputColumn.isComputed, read]; rfl))
                (ih laterMade)
          | some ref =>
              rw [keyColumnsRequest_referenced found read] at made
              split at made
              · cases made
              · obtain ⟨later, laterMade, rfl⟩ := map_eq_ok_iff.1 made
                rw [called]
                exact .cons (.referenced found read) (ih laterMade)

/-- A request is for what its goal asks for. -/
theorem request_asks (made : goal.request view = .ok request) :
    goal.Asks view request.projections := by
  cases goal with
  | keyPath =>
      change view.keyPathRequest = _ at made
      unfold keyPathRequest at made
      split at made
      · cases made
      · next main led =>
          cases made
          exact .keyPath led
  | fields target names =>
      obtain ⟨source, found, _, rfl⟩ := fieldsRequest_eq_ok_iff.1 made
      cases names with
      | nil => exact .everyField found
      | cons name rest => exact .fields (List.cons_ne_nil name rest) (firstUses_eraseDups _)
  | computedKey =>
      change view.computedKeyRequest = _ at made
      unfold computedKeyRequest at made
      split at made
      · cases made
      · cases made
      · next names _ key => exact .computedKey key (keyColumnsRequest_asks made)

/--
How a slice answers what is asked of a target.  A column of the target is read
from the last source, which is the target, or, if shortcuts are allowed and the
anchor is another source, from the anchor alone, in a column that the view
equates with it.
-/
inductive Shows (view : View) (options : Options) (slice : View) (start target : Nat) :
    Projection → OutputColumn Nat Literal → Prop where
  | copied (column : OutputColumn Nat Literal) :
      Shows view options slice start target (.copied column) column
  | target {name wanted : String} {position : Nat} {source : Source}
      (last : position + 1 = slice.sources.length) (found : slice.source? position = some source)
      (aimed : view.aliases[target]? = some source.name) :
      Shows view options slice start target (.column name wanted)
        ⟨name, .reference ⟨position, wanted⟩⟩
  | anchor {name wanted stored : String} {source : Source} {condition : Condition Nat Literal}
      (allowed : options.shortcuts = true) (apart : start ≠ target)
      (alone : slice.sources = [source]) (begins : view.aliases[start]? = some source.name)
      (declared : condition ∈ view.conditions)
      (equates : condition.Equates ⟨start, stored⟩ ⟨target, wanted⟩) :
      Shows view options slice start target (.column name wanted) ⟨name, .reference ⟨0, stored⟩⟩

/-- A slice along a path reads the target's columns from its last source. -/
theorem LaidOut.shows_target {path : List Nat}
    (laid : view.LaidOut path id request slice)
    (chain : Chain view.Joined start request.target path) :
    List.Forall₂ (view.Shows options slice start request.target)
      request.projections slice.columns := by
  have nonempty := List.length_pos_iff.2 laid.cut.nonempty
  have last : path[path.length - 1]? = some request.target := by
    rw [← List.getLast?_eq_getElem?]
    exact chain.getLast?
  obtain ⟨entry, existing, moved⟩ := laid.cut.source _ _ last
  rw [laid.columns, List.forall₂_map_right_iff, List.forall₂_same]
  intro projection _
  cases projection with
  | copied column => exact .copied column
  | column name wanted =>
      refine .target ?_ moved ?_
      · rw [laid.cut.length]
        omega
      · rw [aliases_getElem?, existing]
        rfl

/-- A slice by a shortcut reads them from the columns of the anchor that the join equates. -/
theorem LaidOut.shows_anchor {found : Shortcut}
    (laid : view.LaidOut [start] found.stored request slice)
    (taken : view.shortcut? options start request = some found) :
    List.Forall₂ (view.Shows options slice start request.target)
      request.projections slice.columns := by
  obtain ⟨allowed, shortened⟩ := shortcut?_eq_some_iff.1 taken
  have apart := (Shortcut.find?_eq_some_iff.1 shortened).1
  obtain ⟨entry, existing, moved⟩ := laid.cut.source 0 start rfl
  obtain ⟨source, alone⟩ := List.length_eq_one_iff.1 laid.cut.length
  rw [source?, alone] at moved
  obtain rfl : source = _ := Option.some.inj moved
  rw [laid.columns, List.forall₂_map_right_iff, List.forall₂_same]
  intro projection requested
  cases projection with
  | copied column => exact .copied column
  | column name wanted =>
      obtain ⟨condition, declared, equates⟩ := (mem_joinColumns apart).1
        (Shortcut.stored_mem shortened (Request.mem_needed.2 ⟨name, requested⟩))
      refine .anchor allowed apart alone ?_ declared equates
      rw [aliases_getElem?, existing]
      rfl

/-- A slice has one output column for each one that is asked for. -/
theorem length_columns_of_plan (wellFormed : view.WellFormed)
    (made : goal.request view = .ok request)
    (planned : view.plan options anchor goal = .ok (some slice)) :
    slice.columns.length = request.projections.length := by
  obtain ⟨_, again, _, _, _, madeAgain, _, _, cut⟩ := plan_cases wellFormed planned
  obtain rfl : again = request := Except.ok.inj (madeAgain.symm.trans made)
  exact cut.columns.length_eq.symm

/--
The output columns of a slice answer, one by one and in order, to what the goal
asks for.  How many they are is the same from every anchor, with any options.
-/
theorem slice_columns {definition : Definition} (resolved : definition.resolve = .ok view)
    (planned : view.plan options anchor goal = .ok (some slice)) :
    (∃ start target projections, view.aliases[start]? = some anchor ∧
      goal.Targets view target ∧ goal.Asks view projections ∧
      List.Forall₂ (view.Shows options slice start target) projections slice.columns) ∧
    ∀ (otherOptions : Options) (otherAnchor : String) (other : View),
      view.plan otherOptions otherAnchor goal = .ok (some other) →
        other.columns.length = slice.columns.length := by
  have wellFormed := (Definition.wellFormed_of_resolve resolved).1
  obtain ⟨start, request, path, anchored, made, shortest, laidOut⟩ :=
    laidOut_of_plan wellFormed planned
  constructor
  · have answered := view.request_answered wellFormed goal
    rw [made] at answered
    refine ⟨start, request.target, request.projections,
      wellFormed.indexOf?_eq_some_iff_alias.1 anchored, (answered.2 _).2 rfl, request_asks made, ?_⟩
    rcases laidOut with ⟨found, taken, laid⟩ | ⟨_, laid⟩
    · exact laid.shows_anchor taken
    · exact laid.shows_target shortest.chain
  · intro otherOptions otherAnchor other otherPlanned
    rw [length_columns_of_plan wellFormed made otherPlanned,
      length_columns_of_plan wellFormed made planned]

/-- From a note the overriding key of a parcel is the order's key and a computed kind. -/
theorem slice_columns_parcels :
    ∃ slice projections, parcels.plan {} "note" .computedKey = .ok (some slice) ∧
      Goal.computedKey.Asks parcels projections ∧
      List.Forall₂ (parcels.Shows {} slice 2 0) projections slice.columns := by
  have planned : parcels.plan {} "note" .computedKey = .ok (some _) := rfl
  obtain ⟨⟨start, target, projections, named, targets, asked, shown⟩, _⟩ :=
    slice_columns parcels_resolved planned
  obtain rfl : 2 = start := by
    have wellFormed := (Definition.wellFormed_of_resolve parcels_resolved).1
    exact Option.some.inj (wellFormed.indexOf?_eq_some_iff_alias.2 named)
  obtain rfl : target = 0 := by
    cases targets with
    | referencedKey key read =>
        cases key
        rw [List.mem_singleton.1 (show _ ∈ [(⟨0, "id"⟩ : ColumnRef Nat)] from read)]
    | computedKey => rfl
  exact ⟨_, projections, planned, asked, shown⟩

end View

end Rejoin
