import Rejoin.Proofs.Plan.Columns
import Rejoin.Proofs.Plan.WellFormed

/-!
# The literals that a slice retains

A literal stands in a slice for one of two reasons: a condition on a source that
the slice keeps compares it, or a copied key column is bound to it.  The slice
lists its literals in the order in which it first uses them.
-/

namespace Rejoin

/-- The goal takes the column over as it is: a computed column of the overriding key. -/
inductive Goal.Copies (view : View) : Goal → OutputColumn Nat Literal → Prop where
  | keyColumn {names : List String} {name : String} {column : OutputColumn Nat Literal}
      (key : view.keyOverride = some names) (among : name ∈ names)
      (found : view.column? name = some column) (computed : column.isComputed = true) :
      Copies view .computedKey column

namespace View

/-- The slice keeps the source of the view, under its alias. -/
def Keeps (view slice : View) (node : Nat) : Prop :=
  ∃ source, view.source? node = some source ∧ source.name ∈ slice.aliases

/-- A condition on the owner compares the literal. -/
def ComparedOn (view : View) (owner : Nat) (literal : Literal) : Prop :=
  ∃ declarer ∈ view.sources, ∃ condition ∈ declarer.conditions,
    literal ∈ condition.literals ∧ owner ∈ condition.subjects declarer.index

variable {view slice : View} {order : List Nat} {request : Request} {goal : Goal}

/-- The guards of a source are the conditions on it that can compare a literal. -/
theorem comparedOn_iff {owner : Nat} {literal : Literal} :
    view.ComparedOn owner literal ↔
      ∃ condition ∈ view.guardsOn owner, literal ∈ condition.literals := by
  simp only [ComparedOn, guardsOn, mem_conditionsWhere]
  constructor
  · rintro ⟨declarer, among, condition, own, compared, subject⟩
    exact ⟨condition, ⟨declarer, among, own,
      (Condition.constrains_iff_of_mem_literals compared).2 subject⟩, compared⟩
  · rintro ⟨condition, ⟨declarer, among, own, about⟩, compared⟩
    exact ⟨declarer, among, condition, own, compared,
      (Condition.constrains_iff_of_mem_literals compared).1 about⟩

/-- What a request copies is what its goal copies. -/
theorem copies_iff (made : goal.request view = .ok request) {column : OutputColumn Nat Literal} :
    goal.Copies view column ↔ .copied column ∈ request.projections := by
  have plain {names : List String} : .copied column ∉ names.map Projection.ofName := by
    intro among
    obtain ⟨_, _, same⟩ := List.mem_map.1 among
    cases same
  have asks := request_asks made
  generalize request.projections = projections at asks ⊢
  cases asks with
  | keyPath => exact iff_of_false nofun plain
  | everyField => exact iff_of_false nofun plain
  | fields => exact iff_of_false nofun plain
  | @computedKey names _ key asked =>
      constructor
      · rintro ⟨again, among, found, computed⟩
        obtain rfl := Option.some.inj (key.symm.trans again)
        obtain ⟨projection, requested, asks⟩ := exists_of_mem_right asked.flip among
        cases asks with
        | computed foundAgain =>
            rwa [← Option.some.inj (foundAgain.symm.trans found)]
        | referenced foundAgain read =>
            rw [Option.some.inj (foundAgain.symm.trans found)] at read
            simp [OutputColumn.isComputed, read] at computed
      · intro requested
        obtain ⟨name, among, asks⟩ := exists_of_mem_right asked requested
        cases asks with
        | computed found computed => exact .keyColumn key among found computed

namespace CutAlong

/-- The sources of a slice are those of the order it is cut along. -/
theorem keeps_iff (cut : view.CutAlong order request slice) (wellFormed : view.WellFormed)
    {node : Nat} : view.Keeps slice node ↔ node ∈ order := by
  rw [Keeps, cut.aliases]
  constructor
  · rintro ⟨source, found, kept⟩
    obtain ⟨other, among, same⟩ := List.mem_map.1 kept
    obtain ⟨position, named⟩ := List.mem_iff_getElem?.1 among
    obtain ⟨entry, held, _⟩ := cut.source position other named
    rw [aliasAt_of_source? held] at same
    rwa [← position_unique wellFormed.distinct held found same]
  · intro among
    obtain ⟨position, named⟩ := List.mem_iff_getElem?.1 among
    obtain ⟨entry, held, _⟩ := cut.source position node named
    exact ⟨entry, held, List.mem_map.2 ⟨node, among, aliasAt_of_source? held⟩⟩

/-- The conditions of a slice compare the literals that the guards of its sources do. -/
theorem compares_iff (cut : view.CutAlong order request slice) {literal : Literal} :
    literal ∈ slice.conditions.flatMap Condition.literals ↔
      ∃ node ∈ order, view.ComparedOn node literal := by
  simp only [List.mem_flatMap, comparedOn_iff]
  constructor
  · rintro ⟨condition, held, compared⟩
    obtain ⟨source, among, own⟩ := mem_conditions.1 held
    obtain ⟨position, found⟩ := exists_source?_of_mem among
    obtain ⟨node, entry, named, _, rfl⟩ := cut.source?_cases found
    obtain ⟨original, carried, rfl⟩ := List.mem_map.1 own
    rw [Condition.literals_mapSource] at compared
    rcases List.mem_append.1 carried with join | guard
    · obtain ⟨_, _, _, joins⟩ := mem_joinsInto.1 join
      rw [Condition.literals_of_relates joins] at compared
      cases compared
    · exact ⟨node, List.mem_of_getElem? named, original, guard, compared⟩
  · rintro ⟨node, among, condition, guard, compared⟩
    obtain ⟨position, named⟩ := List.mem_iff_getElem?.1 among
    obtain ⟨entry, _, moved⟩ := cut.source position node named
    refine ⟨condition.mapSource (relocate order), mem_conditions.2 ⟨_, source?_mem moved, ?_⟩, ?_⟩
    · exact List.mem_map_of_mem (List.mem_append_right _ guard)
    · rwa [Condition.literals_mapSource]

/-- A slice has the columns that its goal copies. -/
theorem mem_columns_of_copies (cut : view.CutAlong order request slice)
    (made : goal.request view = .ok request) {column : OutputColumn Nat Literal}
    (copies : goal.Copies view column) : column ∈ slice.columns := by
  obtain ⟨held, among, projects⟩ :=
    exists_of_mem_right cut.columns.flip ((copies_iff made).1 copies)
  cases projects with
  | copied => exact among

/-- The output columns of a slice are bound to the literals of the columns that it copies. -/
theorem binds_iff (cut : view.CutAlong order request slice)
    (made : goal.request view = .ok request) {literal : Literal} :
    literal ∈ slice.columns.filterMap (fun column => column.origin.literal?) ↔
      ∃ column, goal.Copies view column ∧ column.origin.literal? = some literal := by
  rw [List.mem_filterMap]
  constructor
  · rintro ⟨column, held, bound⟩
    obtain ⟨projection, requested, projects⟩ := exists_of_mem_right cut.columns held
    cases projects with
    | copied => exact ⟨column, (copies_iff made).2 requested, bound⟩
    | column => cases bound
  · rintro ⟨column, copies, bound⟩
    exact ⟨column, cut.mem_columns_of_copies made copies, bound⟩

/-- What is written in a slice is compared on a source that it keeps, or bound to a copy. -/
theorem written_iff (cut : view.CutAlong order request slice) (wellFormed : view.WellFormed)
    (made : goal.request view = .ok request) {literal : Literal} :
    literal ∈ writtenLiterals slice.sources slice.columns ↔
      (∃ owner, view.Keeps slice owner ∧ view.ComparedOn owner literal) ∨
        ∃ column, goal.Copies view column ∧ column.origin.literal? = some literal := by
  rw [writtenLiterals, List.mem_append, ← conditions, cut.compares_iff, cut.binds_iff made]
  simp only [cut.keeps_iff wellFormed]

theorem firstUses_literals (cut : view.CutAlong order request slice) :
    FirstUses ((writtenLiterals slice.sources slice.columns).map Literal.id)
      (slice.literals.map Literal.id) := by
  rw [cut.literals, map_id_usedLiterals]
  exact firstUses_eraseDups _

theorem mem_literals_iff (cut : view.CutAlong order request slice) (wellFormed : view.WellFormed)
    (fits : request.Fits view) {literal : Literal} :
    literal ∈ slice.literals ↔ literal ∈ writtenLiterals slice.sources slice.columns := by
  constructor
  · intro used
    rw [cut.literals] at used
    exact mem_of_mem_eraseDupsBy used
  · exact cut.mem_literals_of_written wellFormed fits

/-- Slices in which the same literals are written declare them, if not in the same order. -/
theorem literals_perm {other copy : View} {places : List Nat} {asked : Request}
    (cut : view.CutAlong order request slice) (again : other.CutAlong places asked copy)
    (wellFormed : view.WellFormed) (otherFormed : other.WellFormed) (fits : request.Fits view)
    (fitsAgain : asked.Fits other)
    (same : ∀ literal, literal ∈ writtenLiterals copy.sources copy.columns ↔
      literal ∈ writtenLiterals slice.sources slice.columns) :
    copy.literals.Perm slice.literals := by
  have distinct := List.Nodup.of_map _ cut.firstUses_literals.nodup
  have distinctAgain := List.Nodup.of_map _ again.firstUses_literals.nodup
  rw [List.perm_ext_iff_of_nodup distinctAgain distinct]
  intro literal
  rw [again.mem_literals_iff otherFormed fitsAgain, cut.mem_literals_iff wellFormed fits]
  exact same literal

end CutAlong

/--
A literal identity stands in a slice exactly if a condition on a kept source
compares it or a copied column is bound to it.  Identities stand once, in order
of first use in conditions and then in output columns, with the declared value.
-/
theorem slice_literals {definition : Definition} (resolved : definition.resolve = .ok view)
    {options : Options} {anchor : String}
    (planned : view.plan options anchor goal = .ok (some slice)) :
    (∀ id, id ∈ slice.literals.map Literal.id ↔ ∃ literal,
      ((∃ owner, view.Keeps slice owner ∧ view.ComparedOn owner literal) ∨
        ∃ column, goal.Copies view column ∧ column.origin.literal? = some literal) ∧
      literal.id = id) ∧
    (∀ column, goal.Copies view column → column ∈ slice.columns) ∧
    (slice.literals.map Literal.id).Nodup ∧
    FirstUses ((writtenLiterals slice.sources slice.columns).map Literal.id)
      (slice.literals.map Literal.id) ∧
    ∀ literal ∈ slice.literals, view.literal? literal.id = some literal := by
  have wellFormed := (Definition.wellFormed_of_resolve resolved).1
  obtain ⟨_, request, _, order, _, made, _, _, cut⟩ := plan_cases wellFormed planned
  have first := cut.firstUses_literals
  refine ⟨fun id => ?_, fun _ => cut.mem_columns_of_copies made, first.nodup, first,
    fun literal used => ?_⟩
  · simp only [first.mem, List.mem_map, cut.written_iff wellFormed made]
  · rw [cut.literals] at used
    rw [literal?, find?_key_eq_some_iff wellFormed.identified]
    exact ⟨cut.declared_of_written wellFormed (goal.request_fits wellFormed made)
      (mem_of_mem_eraseDupsBy used), rfl⟩

/-- The overriding key of a note's parcel retains the grade compared and the kind copied. -/
theorem slice_literals_parcels :
    ∃ slice, parcels.plan {} "note" .computedKey = .ok (some slice) ∧
      "high" ∈ slice.literals.map Literal.id ∧ "kind" ∈ slice.literals.map Literal.id := by
  have planned : parcels.plan {} "note" .computedKey = .ok (some _) := rfl
  have graded : parcels.ComparedOn 1 ⟨"high", "3"⟩ :=
    comparedOn_iff.2 ⟨⟨.reference ⟨1, "grade"⟩, .literal ⟨"high", "3"⟩⟩, by decide, by decide⟩
  have copied : Goal.computedKey.Copies parcels
      ⟨"kind", .computation "TEXT" (some ⟨"kind", "parcel"⟩)⟩ :=
    .keyColumn rfl (List.mem_cons_of_mem _ List.mem_cons_self) rfl rfl
  obtain ⟨retained, _⟩ := slice_literals parcels_resolved planned
  exact ⟨_, planned,
    (retained "high").2 ⟨_, .inl ⟨1, ⟨_, rfl, by decide⟩, graded⟩, rfl⟩,
    (retained "kind").2 ⟨_, .inr ⟨_, copied, rfl⟩, rfl⟩⟩

end View

end Rejoin
