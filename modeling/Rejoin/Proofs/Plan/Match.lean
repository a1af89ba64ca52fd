import Rejoin.Proofs.Plan.Assembly
import Rejoin.Proofs.Plan.Request

/-!
# No affected row is missed

A match of a view chooses a row for every source so that all conditions hold,
whatever the join modes.  Each match of a view is one of every slice of it, and
the slice reads from it the very values that its target has there.
-/

namespace Rejoin

variable {α : Type}

/-- The value of an operand, given those of the literals and a row for every source. -/
def Operand.value (valuation : Literal → α) (rows : Nat → String → α) : Operand Nat Literal → α
  | .reference ref => rows ref.source ref.column
  | .literal value => valuation value

namespace Condition

/-- Both operands have the same value. -/
def Holds (valuation : Literal → α) (rows : Nat → String → α)
    (condition : Condition Nat Literal) : Prop :=
  condition.left.value valuation rows = condition.right.value valuation rows

instance [DecidableEq α] (valuation : Literal → α) (rows : Nat → String → α)
    (condition : Condition Nat Literal) : Decidable (condition.Holds valuation rows) :=
  inferInstanceAs (Decidable (_ = _))

/-- A condition that is moved together with the rows of its sources holds as before. -/
theorem holds_mapSource_iff {valuation : Literal → α} {rows moved : Nat → String → α}
    {rename : Nat → Nat} {condition : Condition Nat Literal}
    (follows : ∀ ref ∈ condition.references, moved (rename ref.source) = rows ref.source) :
    (condition.mapSource rename).Holds valuation moved ↔ condition.Holds valuation rows := by
  obtain ⟨left, right⟩ := condition
  rw [forall_references] at follows
  have side (operand : Operand Nat Literal)
      (follows : ∀ ref, operand.reference? = some ref →
        moved (rename ref.source) = rows ref.source) :
      (operand.mapSource rename).value valuation moved = operand.value valuation rows := by
    cases operand with
    | reference ref => exact congrFun (follows ref rfl) ref.column
    | literal value => rfl
  simp only [Holds, mapSource, side left follows.1, side right follows.2]

end Condition

namespace View

/-- The chosen rows satisfy every condition of the view. -/
def Matches (view : View) (valuation : Literal → α) (rows : Nat → String → α) : Prop :=
  ∀ condition ∈ view.conditions, condition.Holds valuation rows

instance [DecidableEq α] (view : View) (valuation : Literal → α) (rows : Nat → String → α) :
    Decidable (view.Matches valuation rows) :=
  inferInstanceAs (Decidable (∀ condition ∈ view.conditions, condition.Holds valuation rows))

/-- For each source of a slice the row chosen for the source of the view with the same alias. -/
def rowsOf (slice view : View) (rows : Nat → String → α) (position : Nat) : String → α :=
  rows ((view.indexOf? (slice.aliasAt position)).getD position)

/-- An output column reads, in a slice with these rows, what the projection asks of the target. -/
def Answers (slice : View) (sliceRows : Nat → String → α) (targetRow : String → α) :
    Projection → OutputColumn Nat Literal → Prop
  | .copied copy, column => column = copy
  | .column name wanted, column => column.name = name ∧
      ∃ ref, column.origin = .reference ref ∧ slice.Reads ref ∧
        sliceRows ref.source ref.column = targetRow wanted

variable {view slice : View} {valuation : Literal → α} {rows : Nat → String → α}

/-- In a match the column that supplies another one holds its value. -/
theorem Supplies.value_eq {wanted stored : ColumnRef Nat} (supplies : view.Supplies wanted stored)
    (matched : view.Matches valuation rows) :
    rows stored.source stored.column = rows wanted.source wanted.column := by
  cases supplies with
  | own => rfl
  | equated declared equates =>
      have holds := matched _ declared
      rcases equates with rfl | rfl
      · exact holds
      · exact holds.symm

namespace CutAlong

variable {order : List Nat} {request : Request}

/-- The source at a position of a slice has the row of the source that stands there. -/
theorem rowsOf_eq (cut : view.CutAlong order request slice) (wellFormed : view.WellFormed)
    {position node : Nat} (named : order[position]? = some node) :
    slice.rowsOf view rows position = rows node := by
  obtain ⟨entry, found, moved⟩ := cut.source position node named
  have index : view.indexOf? entry.name = some node :=
    wellFormed.indexOf?_eq_some_iff.2 ⟨entry, found, rfl⟩
  rw [rowsOf, aliasAt_of_source? moved, movedSource, index, Option.getD_some]

/-- A match of the view is one of the slice. -/
theorem matches_rowsOf (cut : view.CutAlong order request slice) (wellFormed : view.WellFormed)
    (matched : view.Matches valuation rows) :
    slice.Matches valuation (slice.rowsOf view rows) := by
  intro condition held
  obtain ⟨original, declared, kept, rfl⟩ := cut.exists_of_mem_conditions held
  rw [Condition.holds_mapSource_iff fun ref among => cut.rowsOf_eq wellFormed (kept ref among)]
  exact matched original declared

/-- Every requested column is read from the match as the target has it. -/
theorem answers (cut : view.CutAlong order request slice) (wellFormed : view.WellFormed)
    (fits : request.Fits view) (matched : view.Matches valuation rows) :
    List.Forall₂ (slice.Answers (slice.rowsOf view rows) (rows request.target))
      request.projections slice.columns := by
  have requested : List.Forall₂
      (fun projection column => projection ∈ request.projections ∧
        view.Projects order request.target projection column)
      request.projections slice.columns :=
    (List.forall₂_and_left _ _).2 ⟨fun _ among => among, cut.columns⟩
  refine requested.imp fun projection column answered => ?_
  obtain ⟨among, projects⟩ := answered
  cases projects with
  | copied => rfl
  | column kept supplies =>
      refine ⟨rfl, _, rfl, ?_, ?_⟩
      · exact (cut.reads_iff kept).2 (supplies.reads wellFormed (fits.wanted _ _ among))
      · rw [cut.rowsOf_eq wellFormed kept]
        exact supplies.value_eq matched

end CutAlong

/--
A match of a resolved view, cut to the aliases of any slice planned for it, is a
match of the slice, from which each requested column of the target is read.
-/
theorem slice_of_match {definition : Definition} (resolved : definition.resolve = .ok view)
    (matched : view.Matches valuation rows) {options : Options} {anchor : String} {goal : Goal}
    (planned : view.plan options anchor goal = .ok (some slice)) :
    (∀ position source, slice.source? position = some source → ∃ node entry,
        view.source? node = some entry ∧ entry.name = source.name ∧
          slice.rowsOf view rows position = rows node) ∧
      slice.Matches valuation (slice.rowsOf view rows) ∧
      ∃ request, goal.request view = .ok request ∧
        List.Forall₂ (slice.Answers (slice.rowsOf view rows) (rows request.target))
          request.projections slice.columns := by
  have wellFormed := (Definition.wellFormed_of_resolve resolved).1
  obtain ⟨_, request, _, order, _, made, _, _, cut⟩ := plan_cases wellFormed planned
  refine ⟨fun position source found => ?_, cut.matches_rowsOf wellFormed matched, request, made,
    cut.answers wellFormed (goal.request_fits wellFormed made) matched⟩
  obtain ⟨node, entry, named, original, rfl⟩ := cut.source?_cases found
  exact ⟨node, entry, original, rfl, cut.rowsOf_eq wellFormed named⟩

/-- A note on a customer of high grade, with one order of that customer. -/
def parcelRows : Nat → String → String
  | 0, "id" => "41"
  | 0, "customer" => "7"
  | 1, "id" => "7"
  | 1, "grade" => "3"
  | 2, "id" => "12"
  | 2, "customer" => "7"
  | _, _ => "north"

/-- The slice that leads from the note to the order has the match at its own positions. -/
theorem slice_of_match_parcels :
    parcels.Matches Literal.value parcelRows ∧
      parcelsOfNote.Matches Literal.value (parcelsOfNote.rowsOf parcels parcelRows) ∧
      parcelsOfNote.rowsOf parcels parcelRows 2 "id" = "41" := by
  have matched : parcels.Matches Literal.value parcelRows := by decide
  exact ⟨matched, (slice_of_match parcels_resolved matched parcels_keyPath).2.1, by decide⟩

end View

end Rejoin
