import Mathlib.Data.Set.Basic
import Rejoin.Proofs.Plan.Layout
import Rejoin.Proofs.Plan.Match

/-!
# The tuples of a slice

A view yields a tuple for every match of it with rows of its tables.  The
conditions of a slice fall apart into what each source asks of its own row and
what joins ask of two rows, so the tuples of a slice on one source, and those of
one on two joined sources, can be told from the tables.
-/

namespace Rejoin

variable {α : Type}

namespace Condition

variable {condition : Condition Nat Literal}

/-- Only the rows of the sources that a condition names matter. -/
theorem holds_congr {valuation : Literal → α} {rows other : Nat → String → α}
    (agree : ∀ ref ∈ condition.references, rows ref.source = other ref.source) :
    condition.Holds valuation rows ↔ condition.Holds valuation other := by
  have moved : (condition.mapSource id).Holds valuation rows ↔ condition.Holds valuation other :=
    holds_mapSource_iff agree
  have stays : (condition.mapSource id).Holds valuation rows ↔ condition.Holds valuation rows :=
    holds_mapSource_iff fun _ _ => rfl
  exact stays.symm.trans moved

end Condition

/-- What a request wants, read off a row of its target. -/
def Request.tuple (request : Request) (read : String → α) : List α :=
  request.projections.filterMap (fun projection => projection.needed?.map read)

theorem Request.tuple_congr {request : Request} {read other : String → α}
    (agree : ∀ column ∈ request.needed, read column = other column) :
    request.tuple read = request.tuple other := by
  refine List.filterMap_congr fun projection requested => ?_
  cases projection with
  | copied column => rfl
  | column name wanted =>
      exact congrArg some (agree wanted (Request.mem_needed.2 ⟨name, requested⟩))

namespace View

/-- The values of the output columns that are read from sources, in order. -/
def tuple (view : View) (rows : Nat → String → α) : List α :=
  view.columns.filterMap (fun column =>
    column.origin.reference?.map (fun ref => rows ref.source ref.column))

/--
Some match takes `first` for MAIN and rows of the tables for all sources and
reads the tuple; the tables are found by alias.
-/
def Yields (view : View) (valuation : Literal → α) (tables : String → Set (String → α))
    (first : String → α) (tuple : List α) : Prop :=
  ∃ rows : Nat → String → α, rows 0 = first ∧
    (∀ position source, view.source? position = some source →
      rows position ∈ tables source.name) ∧
    view.Matches valuation rows ∧ view.tuple rows = tuple

/-- The row satisfies the conditions on the source alone. -/
def Guarded (view : View) (valuation : Literal → α) (node : Nat) (row : String → α) : Prop :=
  ∀ condition ∈ view.guardsOn node, condition.Holds valuation (fun _ => row)

instance [DecidableEq α] (view : View) (valuation : Literal → α) (node : Nat)
    (row : String → α) : Decidable (view.Guarded valuation node row) :=
  inferInstanceAs (Decidable (∀ condition ∈ view.guardsOn node,
    condition.Holds valuation (fun _ => row)))

variable {view slice : View} {valuation : Literal → α} {rows : Nat → String → α}
  {order : List Nat} {stored : String → String} {request : Request}

/-- Guards ask for nothing but the row of their source. -/
theorem guarded_iff {node : Nat} :
    (∀ condition ∈ view.guardsOn node, condition.Holds valuation rows) ↔
      view.Guarded valuation node (rows node) := by
  refine forall₂_congr fun condition guard => Condition.holds_congr fun ref among => ?_
  obtain ⟨_, _, _, about⟩ := mem_conditionsWhere.1 guard
  rw [Condition.source_of_constrains about among]

/-- Joins ask that the rows of the two sources agree on the columns that are equated. -/
theorem joins_hold_iff {first second : Nat} (apart : first ≠ second) :
    (∀ condition ∈ view.joinsBetween first second, condition.Holds valuation rows) ↔
      ∀ pair ∈ view.joinColumns first second, rows first pair.1 = rows second pair.2 := by
  constructor
  · rintro holds ⟨own, other⟩ among
    obtain ⟨condition, declared, equates⟩ := (mem_joinColumns apart).1 among
    have joins : condition.relates first second = true := by
      rw [← Condition.columnsOn_isSome apart, (Condition.columnsOn_eq_some_iff apart).2 equates,
        Option.isSome_some]
    have held := holds condition (List.mem_filter.2 ⟨declared, joins⟩)
    rcases equates with rfl | rfl
    · exact held
    · exact held.symm
  · intro agree condition among
    obtain ⟨declared, joins⟩ := List.mem_filter.1 among
    rw [← Condition.columnsOn_isSome apart] at joins
    obtain ⟨⟨own, other⟩, columns⟩ := Option.isSome_iff_exists.1 joins
    have equates := (Condition.columnsOn_eq_some_iff apart).1 columns
    have held := agree _ ((mem_joinColumns apart).2 ⟨condition, declared, equates⟩)
    rcases equates with rfl | rfl
    · exact held
    · exact held.symm

/-- A slice matches when all that is carried along its order holds of the same rows. -/
theorem CutAlong.matches_iff_carried (cut : view.CutAlong order request slice)
    {seen : Nat → String → α}
    (follows : ∀ position node, order[position]? = some node → seen node = rows position) :
    slice.Matches valuation rows ↔ ∀ position node, order[position]? = some node →
      ∀ condition ∈ view.carried (before? none order position) node,
        condition.Holds valuation seen := by
  have moves {position node : Nat} (named : order[position]? = some node)
      {condition : Condition Nat Literal}
      (carried : condition ∈ view.carried (before? none order position) node) :
      (condition.mapSource (relocate order)).Holds valuation rows ↔
        condition.Holds valuation seen :=
    Condition.holds_mapSource_iff fun _ among =>
      (follows _ _ (cut.relocate_of_mem_carried named carried among).2).symm
  constructor
  · intro matched position node named condition carried
    obtain ⟨entry, _, moved⟩ := cut.source position node named
    refine (moves named carried).1 (matched _ (mem_conditions.2 ⟨_, source?_mem moved, ?_⟩))
    exact List.mem_map_of_mem carried
  · intro holds condition held
    obtain ⟨source, among, own⟩ := mem_conditions.1 held
    obtain ⟨position, found⟩ := exists_source?_of_mem among
    obtain ⟨node, entry, named, _, rfl⟩ := cut.source?_cases found
    obtain ⟨original, carried, rfl⟩ := List.mem_map.1 own
    exact (moves named carried).2 (holds position node named original carried)

/-- A slice matches when every row is guarded and each agrees with the next one. -/
theorem CutAlong.matches_iff (cut : view.CutAlong order request slice) :
    slice.Matches valuation rows ↔
      (∀ position node, order[position]? = some node →
        view.Guarded valuation node (rows position)) ∧
      ∀ position before node, order[position]? = some before → order[position + 1]? = some node →
        ∀ pair ∈ view.joinColumns before node,
          rows position pair.1 = rows (position + 1) pair.2 := by
  obtain ⟨seen, follows⟩ : ∃ seen : Nat → String → α,
      ∀ position node, order[position]? = some node → seen node = rows position :=
    ⟨fun source => rows (relocate order source),
      fun _ _ named => congrArg rows (relocate_eq cut.distinct named)⟩
  have apart {position before node : Nat} (first : order[position]? = some before)
      (second : order[position + 1]? = some node) : before ≠ node := by
    rintro rfl
    have within := (List.getElem?_eq_some_iff.1 first).1
    exact absurd ((List.getElem?_inj within cut.distinct).1 (first.trans second.symm)) (by simp)
  rw [cut.matches_iff_carried follows]
  constructor
  · intro holds
    refine ⟨fun position node named => ?_, fun position before node first second => ?_⟩
    · rw [← follows _ _ named, ← guarded_iff]
      exact fun condition guard =>
        holds position node named condition (List.mem_append_right _ guard)
    · rw [← follows _ _ first, ← follows _ _ second, ← joins_hold_iff (apart first second)]
      intro condition join
      refine holds (position + 1) node second condition (List.mem_append_left _ ?_)
      rwa [before?, first]
  · rintro ⟨guarded, agree⟩ position node named condition carried
    rcases List.mem_append.1 carried with join | guard
    · cases position with
      | zero => cases join
      | succ position =>
          obtain ⟨_, before, first, _⟩ := mem_joinsInto.1 join
          have first : order[position]? = some before := first
          rw [before?, first] at join
          have pairs := agree position before node first named
          rw [← follows _ _ first, ← follows _ _ named] at pairs
          exact (joins_hold_iff (apart first named)).2 pairs condition join
    · have guards := guarded position node named
      rw [← follows _ _ named] at guards
      exact guarded_iff.2 guards condition guard

namespace LaidOut

/-- A slice reads what the request wants from the row of its last source. -/
theorem tuple_eq (laid : view.LaidOut order stored request slice) (fits : request.Fits view) :
    slice.tuple rows = request.tuple (fun column => rows (order.length - 1) (stored column)) := by
  rw [tuple, laid.columns, List.filterMap_map, Request.tuple]
  refine List.filterMap_congr fun projection requested => ?_
  cases projection with
  | copied column =>
      simp only [Function.comp_apply, Projection.output, (fits.copied column requested).2]
      rfl
  | column name wanted => rfl

variable {tables : String → Set (String → α)} {first : String → α} {tuple : List α}
  {start target : Nat}

/-- Rows are drawn for the sources of a slice when they are for those of the order. -/
theorem drawn_iff (laid : view.LaidOut order stored request slice) :
    (∀ position source, slice.source? position = some source →
        rows position ∈ tables source.name) ↔
      ∀ position node, order[position]? = some node →
        rows position ∈ tables (view.aliasAt node) := by
  constructor
  · intro drawn position node named
    obtain ⟨entry, found, moved⟩ := laid.cut.source position node named
    have placed := drawn position _ moved
    rwa [movedSource, ← aliasAt_of_source? found] at placed
  · intro drawn position source held
    obtain ⟨node, entry, named, found, rfl⟩ := laid.cut.source?_cases held
    rw [movedSource, ← aliasAt_of_source? found]
    exact drawn position node named

/-- The tuples of a slice on one source are those of its guarded rows. -/
theorem yields_single_iff (laid : view.LaidOut [start] stored request slice)
    (fits : request.Fits view) :
    slice.Yields valuation tables first tuple ↔
      first ∈ tables (view.aliasAt start) ∧ view.Guarded valuation start first ∧
        request.tuple (fun column => first (stored column)) = tuple := by
  simp only [Yields, laid.drawn_iff, laid.cut.matches_iff, laid.tuple_eq fits]
  constructor
  · rintro ⟨rows, rfl, drawn, ⟨guarded, _⟩, rfl⟩
    exact ⟨drawn 0 start rfl, guarded 0 start rfl, rfl⟩
  · rintro ⟨drawn, guarded, rfl⟩
    have only {position node : Nat} (named : [start][position]? = some node) : node = start :=
      List.mem_singleton.1 (List.mem_of_getElem? named)
    refine ⟨fun _ => first, rfl, ?_, ⟨?_, ?_⟩, rfl⟩
    · intro position node named
      rwa [only named]
    · intro position node named
      rwa [only named]
    · intro position before node _ second
      cases second

/-- The tuples of a slice on two joined sources are those of guarded rows that agree. -/
theorem yields_pair_iff (laid : view.LaidOut [start, target] stored request slice)
    (fits : request.Fits view) :
    slice.Yields valuation tables first tuple ↔
      first ∈ tables (view.aliasAt start) ∧ view.Guarded valuation start first ∧
        ∃ second ∈ tables (view.aliasAt target), view.Guarded valuation target second ∧
          (∀ pair ∈ view.joinColumns start target, first pair.1 = second pair.2) ∧
          request.tuple (fun column => second (stored column)) = tuple := by
  simp only [Yields, laid.drawn_iff, laid.cut.matches_iff, laid.tuple_eq fits]
  constructor
  · rintro ⟨rows, rfl, drawn, ⟨guarded, agree⟩, rfl⟩
    exact ⟨drawn 0 start rfl, guarded 0 start rfl, rows 1, drawn 1 target rfl,
      guarded 1 target rfl, agree 0 start target rfl rfl, rfl⟩
  · rintro ⟨drawn, guarded, second, secondDrawn, secondGuarded, agree, rfl⟩
    refine ⟨fun position => if position = 0 then first else second, rfl, ?_, ⟨?_, ?_⟩, rfl⟩
    · rintro (_ | _ | position) node named <;> cases named
      · exact drawn
      · exact secondDrawn
    · rintro (_ | _ | position) node named <;> cases named
      · exact guarded
      · exact secondGuarded
    · rintro (_ | position) before node earlier later <;> cases later
      cases earlier
      exact agree

end LaidOut

end View

end Rejoin
