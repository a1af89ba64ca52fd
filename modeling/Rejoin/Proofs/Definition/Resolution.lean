import Rejoin.Definition.Resolve
import Rejoin.Proofs.Condition
import Rejoin.Proofs.Traversal
import Rejoin.Proofs.View.WellFormed

/-!
# Resolution and its inverse

`View.unresolve` writes a view back as a definition: each position as the alias
it stands for and each literal as its identity.  `resolve_eq_ok_iff` says that
resolving undoes exactly this, on exactly the well-formed views.
-/

namespace Rejoin

namespace View

def unresolveOperand (view : View) : Operand Nat Literal → Operand String String
  | .reference ref => .reference (ref.mapSource view.aliasAt)
  | .literal literal => .literal literal.id

def unresolveCondition (view : View) (condition : Condition Nat Literal) :
    Condition String String :=
  ⟨view.unresolveOperand condition.left, view.unresolveOperand condition.right⟩

def unresolveSource (view : View) (source : Source) : Definition.Source where
  name := source.name
  table := source.table
  mode := source.mode
  schema := source.schema
  conditions := source.conditions.map view.unresolveCondition

def unresolveOrigin (view : View) : Origin Nat Literal → Origin String String
  | .reference ref => .reference (ref.mapSource view.aliasAt)
  | .computation expression literal => .computation expression (literal.map Literal.id)

def unresolveColumn (view : View) (column : OutputColumn Nat Literal) :
    OutputColumn String String :=
  ⟨column.name, view.unresolveOrigin column.origin⟩

/-- The definition that names sources by alias and literals by identity. -/
def unresolve (view : View) : Definition where
  name := view.name
  sources := view.sources.map view.unresolveSource
  columns := view.columns.map view.unresolveColumn
  filter := view.filter
  literals := view.literals
  key := view.keyOverride

end View

/-! ## Which definitions have no defect -/

@[simp] theorem Defect.refuse_eq_ok_iff {defect : Option Defect} {passed : Unit} :
    Defect.refuse defect = .ok passed ↔ defect = none := by
  cases defect <;> simp [Defect.refuse]

theorem Schema.defect?_eq_none_iff {schema : Schema} : schema.defect? = none ↔ schema.Keyed := by
  unfold Schema.defect?
  constructor
  · intro sound
    split at sound
    · cases sound
    · next nonempty =>
        refine ⟨fun empty => nonempty (by simp [empty]), fun key among => ?_⟩
        rw [← Schema.hasColumn_iff]
        simpa using List.find?_eq_none.1 (Option.map_eq_none_iff.1 sound) key among
  · rintro ⟨nonempty, contained⟩
    rw [if_neg (by simpa using nonempty), Option.map_eq_none_iff, List.find?_eq_none]
    intro key among
    simpa [Schema.hasColumn_iff] using contained key among

namespace Definition

theorem nameDefect?_eq_none_iff {definition : Definition} :
    definition.nameDefect? = none ↔
      (definition.sources.map Source.name).Nodup ∧ (definition.literals.map Literal.id).Nodup := by
  simp [nameDefect?, firstRepeated?_eq_none_iff]

theorem modeDefect?_eq_none_iff {definition : Definition} :
    definition.modeDefect? = none ↔ definition.sources ≠ [] ∧
      ∀ position source, definition.sources[position]? = some source →
        (source.mode = .main ↔ position = 0) := by
  unfold modeDefect?
  cases definition.sources with
  | nil => simp
  | cons first others =>
      by_cases leads : first.mode = .main
      · simp only [leads, if_true, Option.map_eq_none_iff, List.find?_eq_none, decide_eq_true_eq]
        constructor
        · intro single
          refine ⟨List.cons_ne_nil _ _, fun position source found => ?_⟩
          cases position with
          | zero =>
              obtain rfl : first = source := by simpa using found
              simp [leads]
          | succ position =>
              have among : source ∈ others := List.mem_of_getElem? (by simpa using found)
              simpa using single source among
        · rintro ⟨_, modes⟩ source among main
          obtain ⟨position, found⟩ := List.mem_iff_getElem?.1 among
          have later := (modes (position + 1) source (by simpa using found)).1 main
          cases later
      · simp only [leads, if_false, reduceCtorEq, false_iff, not_and]
        intro _ modes
        exact leads ((modes 0 first rfl).2 rfl)

theorem keyDefect?_eq_none_iff {definition : Definition} :
    definition.keyDefect? = none ↔ ∀ names, definition.key = some names →
      ∀ name ∈ names, name ∈ definition.columns.map OutputColumn.name := by
  unfold keyDefect?
  cases definition.key with
  | none => simp
  | some names => simp [List.find?_eq_none]

/-! ## Looking names up -/

/-- With distinct aliases an alias is located at its one position. -/
theorem locate?_eq_some_iff {definition : Definition}
    (distinct : (definition.sources.map Source.name).Nodup) {name : String} {source : Source}
    {index : Nat} :
    definition.locate? name = some (source, index) ↔
      definition.sources[index]? = some source ∧ source.name = name := by
  have keys : (definition.sources.zipIdx.map (fun placed => placed.1.name)).Nodup := by
    rw [show (fun placed : Source × Nat => placed.1.name) = Source.name ∘ Prod.fst from rfl,
      ← List.map_map, List.zipIdx_map_fst]
    exact distinct
  unfold locate?
  rw [find?_key_eq_some_iff keys, List.mem_zipIdx_iff_getElem?]

theorem resolveLiteral_eq_ok_iff {definition : Definition}
    (identified : (definition.literals.map Literal.id).Nodup) {id : String} {literal : Literal} :
    definition.resolveLiteral id = .ok literal ↔
      literal ∈ definition.literals ∧ id = literal.id := by
  rw [eq_comm (a := id), ← find?_key_eq_some_iff identified]
  unfold resolveLiteral
  split
  · next missing => simp [missing]
  · next found => simp [found]

/-- Entries written with their place come back as entries that know their place. -/
theorem zipIdx_eq_map_iff {α β : Type} {entries : List α} {values : List β} {write : β → α}
    {place : β → Nat} :
    entries.zipIdx = values.map (fun value => (write value, place value)) ↔
      entries = values.map write ∧
        ∀ (position : Nat) (value : β), values[position]? = some value →
          place value = position := by
  constructor
  · intro same
    constructor
    · simpa [Function.comp_def] using congrArg (List.map Prod.fst) same
    · intro position value found
      have entry := congrArg (fun pairs => pairs[position]?) same
      simp only [List.getElem?_zipIdx, List.getElem?_map, found, Option.map_some] at entry
      obtain ⟨_, _, paired⟩ := Option.map_eq_some_iff.1 entry
      simpa using (congrArg Prod.snd paired).symm
  · rintro ⟨rfl, placed⟩
    apply List.ext_getElem?
    intro position
    simp only [List.getElem?_zipIdx, List.getElem?_map, Option.map_map]
    cases found : values[position]? with
    | none => rfl
    | some value => simp [placed position value found]

/-! ## Names and positions -/

/-- Both sides declare the same aliases, schemas and literals in the same order. -/
structure Describes (definition : Definition) (view : View) : Prop where
  frame : definition.sources.map (fun source => (source.name, source.schema)) =
    view.sources.map (fun source => (source.name, source.schema))
  literals : definition.literals = view.literals

namespace Describes

variable {definition : Definition} {view : View}

theorem names (described : definition.Describes view) :
    definition.sources.map Source.name = view.aliases := by
  simpa [View.aliases, Function.comp_def] using congrArg (List.map Prod.fst) described.frame

/-- The source of a view at a position has its alias and schema in the definition. -/
theorem source? (described : definition.Describes view) {position : Nat} {name : String}
    {schema : Schema} :
    (∃ source, definition.sources[position]? = some source ∧ source.name = name ∧
        source.schema = schema) ↔
      ∃ source, view.source? position = some source ∧ source.name = name ∧
        source.schema = schema := by
  have framed := congrArg (fun frame => frame[position]?) described.frame
  simp only [List.getElem?_map] at framed
  have same := congrArg (fun entry => entry = some (name, schema)) framed
  simpa [View.source?] using same

/-- A resolved reference is the reading reference that is written with the alias. -/
theorem resolveRef_eq_ok_iff (described : definition.Describes view)
    (distinct : view.aliases.Nodup) {ref : ColumnRef String} {resolved : ColumnRef Nat} :
    definition.resolveRef ref = .ok resolved ↔
      view.Reads resolved ∧ ref = resolved.mapSource view.aliasAt := by
  have names : (definition.sources.map Source.name).Nodup := described.names ▸ distinct
  unfold resolveRef
  constructor
  · intro succeeded
    split at succeeded
    · cases succeeded
    · next source index located =>
        split at succeeded
        · next column =>
            cases succeeded
            obtain ⟨declared, spelled⟩ := (locate?_eq_some_iff names).1 located
            obtain ⟨held, found, name, schema⟩ := described.source?.1 ⟨source, declared, rfl, rfl⟩
            refine ⟨⟨held, found, by rw [schema]; exact column⟩, ?_⟩
            simp [ColumnRef.mapSource, View.aliasAt_of_source? found, name, spelled]
        · cases succeeded
  · rintro ⟨⟨held, found, column⟩, rfl⟩
    obtain ⟨source, declared, name, schema⟩ := described.source?.2 ⟨held, found, rfl, rfl⟩
    have located : definition.locate? (view.aliasAt resolved.source) =
        some (source, resolved.source) := by
      refine (locate?_eq_some_iff names).2 ⟨declared, ?_⟩
      rw [View.aliasAt_of_source? found, name]
    simp only [ColumnRef.mapSource, located, schema, column, if_true]

/-- A resolved operand is a backward or declared one that is written by name. -/
theorem resolveOperand_eq_ok_iff (described : definition.Describes view)
    (distinct : view.aliases.Nodup) (identified : (view.literals.map Literal.id).Nodup)
    {owner : Source} {index : Nat} {operand : Operand String String}
    {resolved : Operand Nat Literal} :
    definition.resolveOperand owner index operand = .ok resolved ↔
      ((∀ ref, resolved.reference? = some ref → ref.source ≤ index ∧ view.Reads ref) ∧
        ∀ literal, resolved.literal? = some literal → literal ∈ view.literals) ∧
      operand = view.unresolveOperand resolved := by
  cases operand with
  | reference ref =>
      simp only [resolveOperand, bind_eq_ok_iff, described.resolveRef_eq_ok_iff distinct]
      constructor
      · rintro ⟨column, ⟨reads, rfl⟩, backward⟩
        split at backward
        · cases backward
        · next ahead =>
            cases backward
            refine ⟨⟨fun ref same => ?_, nofun⟩, rfl⟩
            cases same
            exact ⟨Nat.le_of_not_lt ahead, reads⟩
      · rintro ⟨⟨backward, _⟩, written⟩
        cases resolved with
        | reference column =>
            obtain ⟨before, reads⟩ := backward column rfl
            cases written
            exact ⟨column, ⟨reads, rfl⟩, if_neg (Nat.not_lt.2 before)⟩
        | literal _ => cases written
  | literal id =>
      have declared := @resolveLiteral_eq_ok_iff definition (described.literals ▸ identified)
      simp only [resolveOperand, map_eq_ok_iff, declared, described.literals]
      constructor
      · rintro ⟨literal, ⟨among, rfl⟩, rfl⟩
        refine ⟨⟨nofun, fun other same => ?_⟩, rfl⟩
        cases same
        exact among
      · rintro ⟨⟨_, among⟩, written⟩
        cases resolved with
        | reference _ => cases written
        | literal literal =>
            cases written
            exact ⟨literal, ⟨among literal rfl, rfl⟩, rfl⟩

theorem resolveCondition_eq_ok_iff (described : definition.Describes view)
    (distinct : view.aliases.Nodup) (identified : (view.literals.map Literal.id).Nodup)
    {owner : Source} {index : Nat} (condition : Condition String String)
    (resolved : Condition Nat Literal) :
    definition.resolveCondition owner index condition = .ok resolved ↔
      ((∀ ref ∈ resolved.references, ref.source ≤ index ∧ view.Reads ref) ∧
        ∀ literal ∈ resolved.literals, literal ∈ view.literals) ∧
      condition = view.unresolveCondition resolved := by
  simp only [resolveCondition, bind_eq_ok_iff, Condition.forall_references,
    Condition.forall_literals, described.resolveOperand_eq_ok_iff distinct identified]
  constructor
  · rintro ⟨left, ⟨⟨leftReads, leftDeclared⟩, leftWritten⟩, right,
      ⟨⟨rightReads, rightDeclared⟩, rightWritten⟩, made⟩
    cases made
    refine ⟨⟨⟨leftReads, rightReads⟩, leftDeclared, rightDeclared⟩, ?_⟩
    rw [View.unresolveCondition, ← leftWritten, ← rightWritten]
  · rintro ⟨⟨⟨leftReads, rightReads⟩, leftDeclared, rightDeclared⟩, rfl⟩
    exact ⟨resolved.left, ⟨⟨leftReads, leftDeclared⟩, rfl⟩, resolved.right,
      ⟨⟨rightReads, rightDeclared⟩, rfl⟩, rfl⟩

/-- A resolved source stands at its position, has a key and only sound conditions. -/
theorem resolveSource_eq_ok_iff (described : definition.Describes view)
    (distinct : view.aliases.Nodup) (identified : (view.literals.map Literal.id).Nodup)
    (source : Source) (index : Nat) (resolved : View.Source) :
    definition.resolveSource source index = .ok resolved ↔
      (resolved.schema.Keyed ∧
        ∀ condition ∈ resolved.conditions,
          (∀ ref ∈ condition.references, ref.source ≤ resolved.index ∧ view.Reads ref) ∧
            ∀ literal ∈ condition.literals, literal ∈ view.literals) ∧
      (source, index) = (view.unresolveSource resolved, resolved.index) := by
  simp only [resolveSource, bind_eq_ok_iff, Defect.refuse_eq_ok_iff,
    Schema.defect?_eq_none_iff,
    mapM_eq_ok_iff_map (described.resolveCondition_eq_ok_iff distinct identified)]
  constructor
  · rintro ⟨_, keyed, conditions, ⟨sound, written⟩, made⟩
    cases made
    refine ⟨⟨keyed, sound⟩, ?_⟩
    simp [View.unresolveSource, ← written]
  · rintro ⟨⟨keyed, sound⟩, written⟩
    cases written
    exact ⟨(), keyed, resolved.conditions, ⟨sound, rfl⟩, rfl⟩

theorem resolveOrigin_eq_ok_iff (described : definition.Describes view)
    (distinct : view.aliases.Nodup) (identified : (view.literals.map Literal.id).Nodup)
    {origin : Origin String String} {resolved : Origin Nat Literal} :
    definition.resolveOrigin origin = .ok resolved ↔
      ((∀ ref, resolved.reference? = some ref → view.Reads ref) ∧
        ∀ literal, resolved.literal? = some literal → literal ∈ view.literals) ∧
      origin = view.unresolveOrigin resolved := by
  have declared := @resolveLiteral_eq_ok_iff definition (described.literals ▸ identified)
  rw [described.literals] at declared
  constructor
  · intro succeeded
    match origin with
    | .reference ref =>
        simp only [resolveOrigin, map_eq_ok_iff, described.resolveRef_eq_ok_iff distinct]
          at succeeded
        obtain ⟨column, ⟨reads, rfl⟩, rfl⟩ := succeeded
        refine ⟨⟨fun ref same => ?_, nofun⟩, rfl⟩
        cases same
        exact reads
    | .computation expression none =>
        cases succeeded
        exact ⟨⟨nofun, nofun⟩, rfl⟩
    | .computation expression (some id) =>
        simp only [resolveOrigin, map_eq_ok_iff, declared] at succeeded
        obtain ⟨literal, ⟨among, rfl⟩, rfl⟩ := succeeded
        refine ⟨⟨nofun, fun other same => ?_⟩, rfl⟩
        cases same
        exact among
  · rintro ⟨⟨reads, among⟩, rfl⟩
    match resolved with
    | .reference column =>
        simp only [View.unresolveOrigin, resolveOrigin, map_eq_ok_iff,
          described.resolveRef_eq_ok_iff distinct]
        exact ⟨column, ⟨reads column rfl, rfl⟩, rfl⟩
    | .computation expression none => rfl
    | .computation expression (some literal) =>
        simp only [View.unresolveOrigin, Option.map_some, resolveOrigin, map_eq_ok_iff, declared]
        exact ⟨literal, ⟨among literal rfl, rfl⟩, rfl⟩

theorem resolveColumn_eq_ok_iff (described : definition.Describes view)
    (distinct : view.aliases.Nodup) (identified : (view.literals.map Literal.id).Nodup)
    (column : OutputColumn String String) (resolved : OutputColumn Nat Literal) :
    definition.resolveColumn column = .ok resolved ↔
      ((∀ ref, resolved.origin.reference? = some ref → view.Reads ref) ∧
        ∀ literal, resolved.origin.literal? = some literal → literal ∈ view.literals) ∧
      column = view.unresolveColumn resolved := by
  simp only [resolveColumn, map_eq_ok_iff,
    described.resolveOrigin_eq_ok_iff distinct identified]
  constructor
  · rintro ⟨origin, ⟨sound, written⟩, rfl⟩
    refine ⟨sound, ?_⟩
    rw [View.unresolveColumn, ← written]
  · rintro ⟨sound, rfl⟩
    exact ⟨resolved.origin, ⟨sound, rfl⟩, rfl⟩

/-- The sources that are read back stand at their positions and are sound one by one. -/
theorem resolveSources_eq_ok_iff (described : definition.Describes view)
    (distinct : view.aliases.Nodup) (identified : (view.literals.map Literal.id).Nodup)
    {sources : List View.Source} :
    definition.sources.zipIdx.mapM
        (fun placed => definition.resolveSource placed.1 placed.2) = .ok sources ↔
      (∀ source ∈ sources, source.schema.Keyed ∧ ∀ condition ∈ source.conditions,
        (∀ ref ∈ condition.references, ref.source ≤ source.index ∧ view.Reads ref) ∧
          ∀ literal ∈ condition.literals, literal ∈ view.literals) ∧
      definition.sources = sources.map view.unresolveSource ∧
      ∀ (position : Nat) (source : View.Source), sources[position]? = some source →
        source.index = position := by
  rw [mapM_eq_ok_iff_map fun placed resolved =>
    described.resolveSource_eq_ok_iff distinct identified placed.1 placed.2 resolved,
    zipIdx_eq_map_iff]

theorem resolveColumns_eq_ok_iff (described : definition.Describes view)
    (distinct : view.aliases.Nodup) (identified : (view.literals.map Literal.id).Nodup)
    {columns : List (OutputColumn Nat Literal)} :
    definition.columns.mapM definition.resolveColumn = .ok columns ↔
      (∀ column ∈ columns,
        (∀ ref, column.origin.reference? = some ref → view.Reads ref) ∧
          ∀ literal, column.origin.literal? = some literal → literal ∈ view.literals) ∧
      definition.columns = columns.map view.unresolveColumn :=
  mapM_eq_ok_iff_map (described.resolveColumn_eq_ok_iff distinct identified)

end Describes

/-! ## Whole definitions -/

theorem resolveSource_frame {definition : Definition} {source : Source} {index : Nat}
    {resolved : View.Source} (succeeded : definition.resolveSource source index = .ok resolved) :
    (source.name, source.schema) = (resolved.name, resolved.schema) := by
  simp only [resolveSource, bind_eq_ok_iff] at succeeded
  obtain ⟨_, _, conditions, _, made⟩ := succeeded
  cases made
  rfl

theorem describes_of_resolve {definition : Definition} {view : View}
    (resolved : definition.resolve = .ok view) : definition.Describes view := by
  simp only [resolve, bind_eq_ok_iff] at resolved
  obtain ⟨_, _, _, _, sources, traversed, columns, _, _, _, made⟩ := resolved
  cases made
  refine ⟨?_, rfl⟩
  have pointwise := (mapM_eq_ok_iff.1 traversed).imp (fun _ _ => resolveSource_frame)
  rw [← List.forall₂_map_right_iff (f := fun source : View.Source => (source.name, source.schema)),
    ← List.forall₂_map_left_iff
      (f := fun placed : Source × Nat => (placed.1.name, placed.1.schema)),
    List.forall₂_eq_eq_eq] at pointwise
  rw [← pointwise, show (fun placed : Source × Nat => (placed.1.name, placed.1.schema)) =
    (fun source : Source => (source.name, source.schema)) ∘ Prod.fst from rfl,
    ← List.map_map, List.zipIdx_map_fst]

theorem describes_unresolve (view : View) : view.unresolve.Describes view := by
  refine ⟨?_, rfl⟩
  simp [View.unresolve, View.unresolveSource, Function.comp_def]

/-- What resolves is well-formed, and the definition is what writes it. -/
theorem wellFormed_of_resolve {definition : Definition} {view : View}
    (resolved : definition.resolve = .ok view) :
    view.WellFormed ∧ definition = view.unresolve := by
  have described := describes_of_resolve resolved
  simp only [resolve, bind_eq_ok_iff, Defect.refuse_eq_ok_iff, nameDefect?_eq_none_iff,
    modeDefect?_eq_none_iff, keyDefect?_eq_none_iff] at resolved
  obtain ⟨_, ⟨distinct, identified⟩, _, ⟨nonempty, modes⟩, sources, sourcesRead, columns,
    columnsRead, _, keyNames, made⟩ := resolved
  cases made
  rw [described.names] at distinct
  obtain ⟨soundSources, sourcesWritten, indexed⟩ :=
    (described.resolveSources_eq_ok_iff distinct identified).1 sourcesRead
  obtain ⟨soundColumns, columnsWritten⟩ :=
    (described.resolveColumns_eq_ok_iff distinct identified).1 columnsRead
  refine ⟨?_, ?_⟩
  · constructor
    case nonempty =>
      rintro rfl
      exact nonempty sourcesWritten
    case indexed => exact indexed
    case modes =>
      intro position source found
      have written := congrArg (fun sources => sources[position]?) sourcesWritten
      rw [List.getElem?_map] at written
      exact modes position _ (written.trans (congrArg (Option.map _) found))
    case distinct => exact distinct
    case keyed => exact fun source among => (soundSources source among).1
    case backward =>
      intro position source found condition own ref among
      have sound := ((soundSources source (View.source?_mem found)).2 condition own).1 ref among
      rwa [indexed position source found] at sound
    case outputs => exact fun column among => (soundColumns column among).1
    case identified => exact identified
    case compared =>
      intro condition declared
      obtain ⟨source, among, own⟩ := View.mem_conditions.1 declared
      exact ((soundSources source among).2 condition own).2
    case computed => exact fun column among => (soundColumns column among).2
    case keyNames =>
      intro names named name among
      have known := keyNames names named name among
      rw [columnsWritten, List.map_map] at known
      exact known
  · obtain ⟨name, declaredSources, declaredColumns, filter, literals, key⟩ := definition
    simp only [View.unresolve, Definition.mk.injEq]
    exact ⟨trivial, sourcesWritten, columnsWritten, trivial, trivial, trivial⟩

/-- A well-formed view is what its own definition resolves to. -/
theorem resolve_unresolve {view : View} (wellFormed : view.WellFormed) :
    view.unresolve.resolve = .ok view := by
  have described := describes_unresolve view
  simp only [resolve, bind_eq_ok_iff, Defect.refuse_eq_ok_iff, nameDefect?_eq_none_iff,
    modeDefect?_eq_none_iff, keyDefect?_eq_none_iff]
  refine ⟨(), ⟨?_, wellFormed.identified⟩, (), ⟨?_, ?_⟩, view.sources, ?_, view.columns, ?_,
    (), ?_, rfl⟩
  · rw [described.names]
    exact wellFormed.distinct
  · exact fun empty => wellFormed.nonempty (List.map_eq_nil_iff.1 empty)
  · intro position written found
    obtain ⟨source, held, rfl⟩ := Option.map_eq_some_iff.1 (List.getElem?_map ▸ found)
    exact wellFormed.modes position source held
  · apply (described.resolveSources_eq_ok_iff wellFormed.distinct wellFormed.identified).2
    refine ⟨fun source among => ⟨wellFormed.keyed source among, fun condition own => ?_⟩, rfl,
      wellFormed.indexed⟩
    obtain ⟨position, found⟩ := View.exists_source?_of_mem among
    rw [wellFormed.indexed position source found]
    exact ⟨wellFormed.backward position source found condition own,
      wellFormed.compared condition (View.mem_conditions.2 ⟨source, among, own⟩)⟩
  · apply (described.resolveColumns_eq_ok_iff wellFormed.distinct wellFormed.identified).2
    exact ⟨fun column among => ⟨wellFormed.outputs column among,
      wellFormed.computed column among⟩, rfl⟩
  · intro names named name among
    have known := wellFormed.keyNames names named name among
    simp only [View.unresolve, List.map_map]
    exact known

/-- Resolving gives exactly the well-formed views, each from the definition that writes it. -/
theorem resolve_eq_ok_iff {definition : Definition} {view : View} :
    definition.resolve = .ok view ↔ view.WellFormed ∧ definition = view.unresolve := by
  constructor
  · exact wellFormed_of_resolve
  · rintro ⟨wellFormed, rfl⟩
    exact resolve_unresolve wellFormed

end Definition

/-! ## A resolved view -/

def Schema.orders : Schema :=
  ⟨"orders", ["id"], [⟨"id", "bigint"⟩, ⟨"customer", "bigint"⟩, ⟨"region", "text"⟩]⟩

def Schema.customers : Schema :=
  ⟨"customers", ["id"], [⟨"id", "bigint"⟩, ⟨"region", "text"⟩, ⟨"grade", "text"⟩]⟩

def Schema.notes : Schema :=
  ⟨"notes", ["id"], [⟨"id", "bigint"⟩, ⟨"customer", "bigint"⟩]⟩

/-- Orders joined with their customers on two columns, and notes that guard the customers. -/
def View.parcels : View where
  name := "parcels"
  sources := [
    ⟨0, "orders", "order", .main, .orders, []⟩,
    ⟨1, "customers", "customer", .inner, .customers,
      [⟨.reference ⟨1, "id"⟩, .reference ⟨0, "customer"⟩⟩,
        ⟨.reference ⟨0, "region"⟩, .reference ⟨1, "region"⟩⟩]⟩,
    ⟨2, "notes", "note", .left, .notes,
      [⟨.reference ⟨2, "customer"⟩, .reference ⟨1, "id"⟩⟩,
        ⟨.reference ⟨1, "grade"⟩, .literal ⟨"high", "3"⟩⟩]⟩]
  columns := [
    ⟨"order", .reference ⟨0, "id"⟩⟩,
    ⟨"kind", .computation "TEXT" (some ⟨"kind", "parcel"⟩)⟩]
  filter := none
  literals := [⟨"high", "3"⟩, ⟨"kind", "parcel"⟩]
  keyOverride := some ["order", "kind"]

theorem View.parcels_resolved : View.parcels.unresolve.resolve = .ok View.parcels :=
  rfl

end Rejoin
