import Rejoin.Proofs.Keyed
import Rejoin.View.Basic

/-!
# Well-formed views

A view is plain data and may contradict itself.  `View.WellFormed` says what a
view has to satisfy so that every position and every name in it means what it
seems to mean: positions are in range and look backwards, aliases and literal
identities are distinct, columns exist, and every used literal is declared.
-/

namespace Rejoin

/-- The primary key is not empty and names columns of the table. -/
structure Schema.Keyed (schema : Schema) : Prop where
  nonempty : schema.primaryKey ≠ []
  contained : ∀ key ∈ schema.primaryKey, key ∈ schema.columnNames

namespace View

/-- A reference names an existing source and one of its columns. -/
def Reads (view : View) (ref : ColumnRef Nat) : Prop :=
  ∃ source, view.source? ref.source = some source ∧ source.schema.hasColumn ref.column = true

/-- The alias of the source at a position. -/
def aliasAt (view : View) (position : Nat) : String :=
  (view.aliases[position]?).getD ""

/-- What resolving a definition ensures of a view, and planning of a slice. -/
structure WellFormed (view : View) : Prop where
  nonempty : view.sources ≠ []
  indexed : ∀ position source, view.source? position = some source → source.index = position
  modes : ∀ position source, view.source? position = some source →
    (source.mode = .main ↔ position = 0)
  distinct : view.aliases.Nodup
  keyed : ∀ source ∈ view.sources, source.schema.Keyed
  backward : ∀ position source, view.source? position = some source →
    ∀ condition ∈ source.conditions, ∀ ref ∈ condition.references,
      ref.source ≤ position ∧ view.Reads ref
  outputs : ∀ column ∈ view.columns, ∀ ref, column.origin.reference? = some ref → view.Reads ref
  identified : (view.literals.map Literal.id).Nodup
  compared : ∀ condition ∈ view.conditions, ∀ literal ∈ condition.literals,
    literal ∈ view.literals
  computed : ∀ column ∈ view.columns, ∀ literal, column.origin.literal? = some literal →
    literal ∈ view.literals
  keyNames : ∀ names, view.keyOverride = some names →
    ∀ name ∈ names, name ∈ view.columns.map OutputColumn.name

theorem source?_mem {view : View} {position : Nat} {source : Source}
    (found : view.source? position = some source) : source ∈ view.sources :=
  List.mem_of_getElem? found

theorem exists_source?_of_mem {view : View} {source : Source} (among : source ∈ view.sources) :
    ∃ position, view.source? position = some source :=
  List.mem_iff_getElem?.1 among

theorem exists_source?_iff {view : View} {position : Nat} :
    (∃ source, view.source? position = some source) ↔ position < view.sources.length := by
  simp [source?, ← Option.isSome_iff_exists]

theorem mem_conditions {view : View} {condition : Condition Nat Literal} :
    condition ∈ view.conditions ↔ ∃ source ∈ view.sources, condition ∈ source.conditions := by
  simp [conditions]

theorem aliases_getElem? (view : View) (position : Nat) :
    view.aliases[position]? = (view.source? position).map Source.name := by
  simp [aliases, source?]

theorem aliasAt_of_source? {view : View} {position : Nat} {source : Source}
    (found : view.source? position = some source) : view.aliasAt position = source.name := by
  simp [aliasAt, aliases_getElem?, found]

/-- Sources with the same alias are the same source. -/
theorem position_unique {view : View} (distinct : view.aliases.Nodup) {first second : Nat}
    {source other : Source} (foundFirst : view.source? first = some source)
    (foundSecond : view.source? second = some other) (same : source.name = other.name) :
    first = second := by
  have within : first < view.aliases.length := by
    simpa [aliases] using (List.getElem?_eq_some_iff.1 foundFirst).1
  apply (List.getElem?_inj within distinct).1
  rw [aliases_getElem?, aliases_getElem?, foundFirst, foundSecond]
  simp [same]

namespace WellFormed

variable {view : View}

/-- A condition of the view reads existing columns. -/
theorem reads (wellFormed : view.WellFormed) {condition : Condition Nat Literal}
    (declared : condition ∈ view.conditions) {ref : ColumnRef Nat}
    (among : ref ∈ condition.references) : view.Reads ref := by
  obtain ⟨source, held, own⟩ := mem_conditions.1 declared
  obtain ⟨position, found⟩ := exists_source?_of_mem held
  exact (wellFormed.backward position source found condition own ref among).2

/-- An alias is found at the position of its source. -/
theorem indexOf?_eq_some_iff (wellFormed : view.WellFormed) {name : String} {position : Nat} :
    view.indexOf? name = some position ↔
      ∃ source, view.source? position = some source ∧ source.name = name := by
  have distinct : (view.sources.map Source.name).Nodup := wellFormed.distinct
  simp only [indexOf?, sourceByAlias?, Option.map_eq_some_iff, find?_key_eq_some_iff distinct]
  constructor
  · rintro ⟨source, ⟨among, same⟩, rfl⟩
    obtain ⟨place, held⟩ := exists_source?_of_mem among
    rw [wellFormed.indexed place source held]
    exact ⟨source, held, same⟩
  · rintro ⟨source, held, same⟩
    exact ⟨source, ⟨source?_mem held, same⟩, wellFormed.indexed position source held⟩

/-- Declared literals of one identity are equal. -/
theorem literal_unique (wellFormed : view.WellFormed) {first second : Literal}
    (firstDeclared : first ∈ view.literals) (secondDeclared : second ∈ view.literals)
    (same : first.id = second.id) : first = second :=
  List.inj_on_of_nodup_map wellFormed.identified firstDeclared secondDeclared same

end WellFormed

end View

end Rejoin
