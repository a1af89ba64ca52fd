import Rejoin.Plan.Slice
import Rejoin.Proofs.Plan.Route
import Rejoin.Proofs.View.Conditions

/-!
# Cuts along an order of sources

A slice is cut along an order of sources.  The source that stands at a position
of the order keeps its alias, table and schema and carries, at the new
positions, the joins with the source before it and the guards on it.
-/

namespace Rejoin

/-! ## New positions -/

/-- The new position of a source that is kept. -/
def relocate (order : List Nat) (source : Nat) : Nat :=
  (lastPlace? source order).getD source

/-- In an order without repetition the last place of a source is its only one. -/
theorem lastPlace?_eq_some_iff {order : List Nat} (distinct : order.Nodup) {node position : Nat} :
    lastPlace? node order = some position ↔ order[position]? = some node := by
  constructor
  · exact getElem?_lastPlace?
  · intro found
    obtain ⟨place, located⟩ := Option.isSome_iff_exists.1
      (lastPlace?_isSome_iff.2 (List.mem_of_getElem? found))
    have within := (List.getElem?_eq_some_iff.1 found).1
    rw [located, (List.getElem?_inj within distinct).1
      (found.trans (getElem?_lastPlace? located).symm)]

theorem relocate_eq {order : List Nat} (distinct : order.Nodup) {node position : Nat}
    (found : order[position]? = some node) : relocate order node = position := by
  rw [relocate, (lastPlace?_eq_some_iff distinct).2 found, Option.getD_some]

/-- The source before a position of an order; `previous` stands before the first. -/
def before? (previous : Option Nat) (order : List Nat) : Nat → Option Nat
  | 0 => previous
  | position + 1 => order[position]?

namespace View

/-- A source of a view as it stands in a slice. -/
def movedSource (view : View) (order : List Nat) (previous : Option Nat) (position node : Nat)
    (entry : Source) : Source where
  index := position
  table := entry.table
  name := entry.name
  mode := if position = 0 then .main else .inner
  schema := entry.schema
  conditions := (view.carried previous node).map (Condition.mapSource (relocate order))

/-- How an output column of a slice answers to a projection on the target. -/
inductive Projects (view : View) (order : List Nat) (target : Nat) :
    Projection → OutputColumn Nat Literal → Prop where
  | copied (column : OutputColumn Nat Literal) : Projects view order target (.copied column) column
  | column {name wanted stored : String} {position node : Nat}
      (kept : order[position]? = some node)
      (supplies : view.Supplies ⟨target, wanted⟩ ⟨node, stored⟩) :
      Projects view order target (.column name wanted) ⟨name, .reference ⟨position, stored⟩⟩

/-- The slice holds the sources of an order and answers to a request. -/
structure CutAlong (view : View) (order : List Nat) (request : Request) (slice : View) :
    Prop where
  nonempty : order ≠ []
  distinct : order.Nodup
  length : slice.sources.length = order.length
  source : ∀ position node, order[position]? = some node → ∃ entry,
    view.source? node = some entry ∧ slice.source? position =
      some (view.movedSource order (before? none order position) position node entry)
  columns : List.Forall₂ (view.Projects order request.target) request.projections slice.columns
  literals : slice.literals = usedLiterals slice.sources slice.columns
  filter : slice.filter = none
  keyOverride : slice.keyOverride = none

namespace CutAlong

variable {view slice : View} {order : List Nat} {request : Request}

/-- Every source of a slice is one of the view, moved. -/
theorem source?_cases (cut : view.CutAlong order request slice) {position : Nat} {source : Source}
    (found : slice.source? position = some source) :
    ∃ node entry, order[position]? = some node ∧ view.source? node = some entry ∧
      source = view.movedSource order (before? none order position) position node entry := by
  have within : position < order.length := by
    rw [← cut.length]
    exact exists_source?_iff.1 ⟨source, found⟩
  have named : order[position]? = some order[position] := List.getElem?_eq_getElem within
  obtain ⟨entry, original, moved⟩ := cut.source position _ named
  exact ⟨_, entry, named, original, Option.some.inj (found.symm.trans moved)⟩

/-- A slice keeps the alias, table and schema of every source. -/
theorem source?_map {α : Type} (cut : view.CutAlong order request slice) (keep : Source → α)
    (kept : ∀ previous position node entry,
      keep (view.movedSource order previous position node entry) = keep entry) :
    slice.sources.map (fun source => some (keep source)) =
      order.map (fun node => (view.source? node).map keep) := by
  refine List.ext_getElem? fun position => ?_
  rw [List.getElem?_map, List.getElem?_map]
  cases named : order[position]? with
  | none =>
      have beyond : slice.sources[position]? = none := by
        rw [List.getElem?_eq_none_iff, cut.length]
        exact List.getElem?_eq_none_iff.1 named
      rw [beyond]
      rfl
  | some node =>
      obtain ⟨entry, found, moved⟩ := cut.source position node named
      change slice.sources[position]? = _ at moved
      rw [moved, Option.map_some, Option.map_some, kept, found]
      rfl

theorem aliases (cut : view.CutAlong order request slice) :
    slice.aliases = order.map view.aliasAt := by
  apply List.map_injective_iff.2 fun _ _ same => Option.some.inj same
  rw [View.aliases, List.map_map, List.map_map]
  refine (cut.source?_map Source.name fun _ _ _ _ => rfl).trans
    (List.map_congr_left fun node among => ?_)
  obtain ⟨position, named⟩ := List.mem_iff_getElem?.1 among
  obtain ⟨entry, found, _⟩ := cut.source position node named
  rw [found, Function.comp_apply, aliasAt_of_source? found, Option.map_some]

/-- A column exists in the slice as it does in the view. -/
theorem reads_iff (cut : view.CutAlong order request slice) {position node : Nat}
    (named : order[position]? = some node) {column : String} :
    slice.Reads ⟨position, column⟩ ↔ view.Reads ⟨node, column⟩ := by
  obtain ⟨entry, found, moved⟩ := cut.source position node named
  simp [Reads, found, moved, movedSource]

/--
A condition that a position carries names sources of the order, none of them
after that position.
-/
theorem relocate_of_mem_carried (cut : view.CutAlong order request slice) {position node : Nat}
    (named : order[position]? = some node) {condition : Condition Nat Literal}
    (carried : condition ∈ view.carried (before? none order position) node)
    {ref : ColumnRef Nat} (among : ref ∈ condition.references) :
    relocate order ref.source ≤ position ∧
      order[relocate order ref.source]? = some ref.source := by
  rcases source_of_mem_carried carried among with same | earlier
  · rw [same, relocate_eq cut.distinct named]
    exact ⟨Nat.le_refl _, named⟩
  · cases position with
    | zero => cases earlier
    | succ position =>
        have before : order[position]? = some ref.source := earlier
        rw [relocate_eq cut.distinct before]
        exact ⟨Nat.le_succ _, before⟩

/-- A condition of the slice is one of the view on sources of the order, moved. -/
theorem exists_of_mem_conditions (cut : view.CutAlong order request slice)
    {condition : Condition Nat Literal} (held : condition ∈ slice.conditions) :
    ∃ original ∈ view.conditions,
      (∀ ref ∈ original.references, order[relocate order ref.source]? = some ref.source) ∧
        condition = original.mapSource (relocate order) := by
  obtain ⟨source, among, own⟩ := mem_conditions.1 held
  obtain ⟨position, found⟩ := exists_source?_of_mem among
  obtain ⟨node, entry, named, _, rfl⟩ := cut.source?_cases found
  obtain ⟨original, carried, rfl⟩ := List.mem_map.1 own
  exact ⟨original, mem_conditions_of_mem_carried carried,
    fun ref declared => (cut.relocate_of_mem_carried named carried declared).2, rfl⟩

end CutAlong

end View

end Rejoin
