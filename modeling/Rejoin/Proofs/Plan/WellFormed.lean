import Rejoin.Proofs.Plan.Cut
import Rejoin.Proofs.Plan.Request

/-!
# Cuts are well-formed

A cut of a well-formed view for a request that fits it is well-formed: moving
keeps references looking backwards, and an identity has one value in all of the
view, so no literal that the slice uses is lost.
-/

namespace Rejoin

/-! ## The literals of a slice -/

section Literals

variable {sources : List View.Source} {columns : List (OutputColumn Nat Literal)}

/-- The literals of conditions and then of output columns, repeated ones included. -/
def writtenLiterals (sources : List View.Source) (columns : List (OutputColumn Nat Literal)) :
    List Literal :=
  (sources.flatMap View.Source.conditions).flatMap Condition.literals ++
    columns.filterMap (fun column => column.origin.literal?)

theorem map_id_usedLiterals :
    (usedLiterals sources columns).map Literal.id =
      ((writtenLiterals sources columns).map Literal.id).eraseDups :=
  map_eraseDupsBy Literal.id _

/-- No written literal is lost when its identity settles its value. -/
theorem mem_usedLiterals {literal : Literal}
    (settled : ∀ other ∈ writtenLiterals sources columns, other.id = literal.id → other = literal)
    (written : literal ∈ writtenLiterals sources columns) :
    literal ∈ usedLiterals sources columns := by
  have identity : literal.id ∈ (usedLiterals sources columns).map Literal.id := by
    rw [map_id_usedLiterals, List.mem_eraseDups]
    exact List.mem_map_of_mem written
  obtain ⟨other, used, same⟩ := List.mem_map.1 identity
  rwa [← settled other (mem_of_mem_eraseDupsBy used) same]

end Literals

namespace View.CutAlong

variable {view slice : View} {order : List Nat} {request : Request}

theorem nodup_aliases (cut : view.CutAlong order request slice) (wellFormed : view.WellFormed) :
    slice.aliases.Nodup := by
  rw [cut.aliases]
  refine List.Nodup.map_on (fun first among second other same => ?_) cut.distinct
  obtain ⟨_, firstNamed⟩ := List.mem_iff_getElem?.1 among
  obtain ⟨_, secondNamed⟩ := List.mem_iff_getElem?.1 other
  obtain ⟨_, firstFound, _⟩ := cut.source _ _ firstNamed
  obtain ⟨_, secondFound, _⟩ := cut.source _ _ secondNamed
  rw [aliasAt_of_source? firstFound, aliasAt_of_source? secondFound] at same
  exact position_unique wellFormed.distinct firstFound secondFound same

/-- Every literal written in the slice is one that the view declares. -/
theorem declared_of_written (cut : view.CutAlong order request slice)
    (wellFormed : view.WellFormed) (fits : request.Fits view) {literal : Literal}
    (written : literal ∈ writtenLiterals slice.sources slice.columns) :
    literal ∈ view.literals := by
  rcases List.mem_append.1 written with compared | computed
  · obtain ⟨condition, held, among⟩ := List.mem_flatMap.1 compared
    obtain ⟨original, declared, _, rfl⟩ := cut.exists_of_mem_conditions held
    rw [Condition.literals_mapSource] at among
    exact wellFormed.compared original declared literal among
  · obtain ⟨column, held, used⟩ := List.mem_filterMap.1 computed
    obtain ⟨projection, requested, projects⟩ := exists_of_mem_right cut.columns held
    cases projects with
    | copied =>
        exact wellFormed.computed column (fits.copied column requested).1 literal used
    | column kept supplies => cases used

theorem mem_literals_of_written (cut : view.CutAlong order request slice)
    (wellFormed : view.WellFormed) (fits : request.Fits view) {literal : Literal}
    (written : literal ∈ writtenLiterals slice.sources slice.columns) :
    literal ∈ slice.literals := by
  rw [cut.literals]
  refine mem_usedLiterals (fun other otherWritten same => ?_) written
  exact wellFormed.literal_unique (cut.declared_of_written wellFormed fits otherWritten)
    (cut.declared_of_written wellFormed fits written) same

/-- A cut of a well-formed view is well-formed. -/
theorem wellFormed (cut : view.CutAlong order request slice) (wellFormed : view.WellFormed)
    (fits : request.Fits view) : slice.WellFormed where
  nonempty := by
    rw [← List.length_pos_iff, cut.length]
    exact List.length_pos_iff.2 cut.nonempty
  indexed := by
    intro position source found
    obtain ⟨_, _, _, _, rfl⟩ := cut.source?_cases found
    rfl
  modes := by
    intro position source found
    obtain ⟨_, _, _, _, rfl⟩ := cut.source?_cases found
    by_cases first : position = 0 <;> simp [movedSource, first]
  distinct := cut.nodup_aliases wellFormed
  keyed := by
    intro source among
    obtain ⟨_, found⟩ := exists_source?_of_mem among
    obtain ⟨_, entry, _, original, rfl⟩ := cut.source?_cases found
    exact wellFormed.keyed entry (source?_mem original)
  backward := by
    intro position source found condition own ref among
    obtain ⟨node, entry, named, _, rfl⟩ := cut.source?_cases found
    obtain ⟨original, carried, rfl⟩ := List.mem_map.1 own
    rw [Condition.references_mapSource] at among
    obtain ⟨read, declared, rfl⟩ := List.mem_map.1 among
    obtain ⟨before, kept⟩ := cut.relocate_of_mem_carried named carried declared
    refine ⟨before, (cut.reads_iff kept).2 ?_⟩
    exact wellFormed.reads (mem_conditions_of_mem_carried carried) declared
  outputs := by
    intro column held ref reads
    obtain ⟨projection, requested, projects⟩ := exists_of_mem_right cut.columns held
    cases projects with
    | copied =>
        rw [(fits.copied column requested).2] at reads
        cases reads
    | column kept supplies =>
        cases reads
        exact (cut.reads_iff kept).2 (supplies.reads wellFormed (fits.wanted _ _ requested))
  identified := by
    rw [cut.literals, map_id_usedLiterals]
    exact nodup_eraseDups _
  compared := by
    intro condition held literal among
    exact cut.mem_literals_of_written wellFormed fits
      (List.mem_append_left _ (List.mem_flatMap.2 ⟨condition, held, among⟩))
  computed := by
    intro column held literal used
    exact cut.mem_literals_of_written wellFormed fits
      (List.mem_append_right _ (List.mem_filterMap.2 ⟨column, held, used⟩))
  keyNames := by
    intro names named
    rw [cut.keyOverride] at named
    cases named

end View.CutAlong

end Rejoin
