import Rejoin.Definition.Step
import Rejoin.Proofs.Definition.Resolution

/-!
# Steps by kind

Steps of different kinds do not meet: what steps lead to is settled by those that
declare sources and conditions, those that declare literals, those that declare
output columns, the last filter and the last key (`ofSteps_eq`).  A source carries
the conditions of the steps up to the next source (`sources_ofSteps`).
-/

namespace Rejoin.Definition

namespace Step

/-- Whether a step declares a source. -/
def isSource : Step → Bool
  | .source .. => true
  | _ => false

def condition? : Step → Option (Condition String String)
  | .condition added => some added
  | _ => none

def literal? : Step → Option Literal
  | .literal added => some added
  | _ => none

def column? : Step → Option (OutputColumn String String)
  | .column added => some added
  | _ => none

def filter? : Step → Option String
  | .filter expression => some expression
  | _ => none

def key? : Step → Option (List String)
  | .key columns => some columns
  | _ => none

/-- Whether a step declares a source or a condition. -/
def isJoin (step : Step) : Bool :=
  step.isSource || step.condition?.isSome

end Step

/-- Steps split by kind.  Of the filters, and of the keys, the last one counts. -/
structure Streams where
  joins : List Step
  literals : List Literal
  columns : List (OutputColumn String String)
  filter : Option String
  key : Option (List String)
  deriving DecidableEq, Repr

def streams (steps : List Step) : Streams where
  joins := steps.filter Step.isJoin
  literals := steps.filterMap Step.literal?
  columns := steps.filterMap Step.column?
  filter := (steps.filterMap Step.filter?).getLast?
  key := (steps.filterMap Step.key?).getLast?

/-! ## What each kind of step adds -/

/-- The sources after one more step. -/
def declare (sources : List Source) : Step → List Source
  | .source name mode schema => sources ++ [.ofSchema name mode schema]
  | .condition condition => conditionOnLast condition sources
  | _ => sources

theorem getLast?_cons_or {α : Type} (value : α) (rest : List α) (before : Option α) :
    (value :: rest).getLast?.or before = rest.getLast?.or (some value) := by
  rw [List.getLast?_cons]
  cases rest.getLast? <;> rfl

/-- Every part of a definition grows by its own kind of steps. -/
theorem foldl_add (definition : Definition) (steps : List Step) :
    steps.foldl add definition = {
      name := definition.name
      sources := steps.foldl declare definition.sources
      columns := definition.columns ++ steps.filterMap Step.column?
      filter := (steps.filterMap Step.filter?).getLast?.or definition.filter
      literals := definition.literals ++ steps.filterMap Step.literal?
      key := (steps.filterMap Step.key?).getLast?.or definition.key } := by
  induction steps generalizing definition with
  | nil => simp
  | cons step rest ih =>
      rw [List.foldl_cons, ih, List.foldl_cons]
      cases step <;>
        simp [add, declare, List.filterMap_cons, Step.column?, Step.filter?, Step.literal?,
          Step.key?, getLast?_cons_or]

/-- Steps of other kinds declare no source and no condition. -/
theorem foldl_declare_filter (sources : List Source) (steps : List Step) :
    (steps.filter Step.isJoin).foldl declare sources = steps.foldl declare sources := by
  induction steps generalizing sources with
  | nil => rfl
  | cons step rest ih =>
      cases step <;>
        simp [Step.isJoin, Step.isSource, Step.condition?, declare, ih]

/-! ## The source of a condition -/

/-- The conditions that are declared before the next source. -/
def conditionsAhead : List Step → List (Condition String String)
  | [] => []
  | .source .. :: _ => []
  | .condition condition :: rest => condition :: conditionsAhead rest
  | _ :: rest => conditionsAhead rest

/-- The sources that steps declare, each with the conditions ahead of it. -/
def declared : List Step → List Source
  | [] => []
  | .source name mode schema :: rest =>
      ⟨name, schema.name, mode, schema, conditionsAhead rest⟩ :: declared rest
  | _ :: rest => declared rest

/-- The last source takes the conditions ahead, and no source before it changes. -/
theorem foldl_declare_concat (before : List Source) (last : Source) (steps : List Step) :
    steps.foldl declare (before ++ [last]) =
      before ++ { last with conditions := last.conditions ++ conditionsAhead steps } ::
        declared steps := by
  induction steps generalizing before last with
  | nil => simp [conditionsAhead, declared]
  | cons step rest ih =>
      rw [List.foldl_cons]
      cases step with
      | source name mode schema =>
          rw [declare, ih]
          simp [conditionsAhead, declared, Source.ofSchema]
      | condition condition =>
          rw [declare, conditionOnLast_append, ih]
          simp [conditionsAhead, declared]
      | _ => exact ih before last

/-- Conditions that no source is declared before are lost. -/
theorem foldl_declare (steps : List Step) : steps.foldl declare [] = declared steps := by
  induction steps with
  | nil => rfl
  | cons step rest ih =>
      cases step with
      | source name mode schema => exact foldl_declare_concat [] (.ofSchema name mode schema) rest
      | _ => exact ih

theorem declared_filter (steps : List Step) :
    declared (steps.filter Step.isJoin) = declared steps := by
  rw [← foldl_declare, foldl_declare_filter, foldl_declare]

theorem ofSteps_eq (name : String) (steps : List Step) :
    ofSteps name steps = {
      name := name
      sources := declared (streams steps).joins
      columns := (streams steps).columns
      filter := (streams steps).filter
      literals := (streams steps).literals
      key := (streams steps).key } := by
  rw [ofSteps, foldl_add]
  simp [empty, streams, foldl_declare, declared_filter]

theorem sources_ofSteps (name : String) (steps : List Step) :
    (ofSteps name steps).sources = declared steps := by
  rw [ofSteps_eq, streams, declared_filter]

theorem length_declared (steps : List Step) :
    (declared steps).length = steps.countP Step.isSource := by
  induction steps with
  | nil => rfl
  | cons step rest ih => cases step <;> simp [declared, List.countP_cons, Step.isSource, ih]

theorem conditionsAhead_append_source (before : List Step) {step : Step}
    (source : step.isSource = true) (after : List Step) :
    conditionsAhead (before ++ step :: after) = conditionsAhead before := by
  induction before with
  | nil => cases step <;> first | rfl | cases source
  | cons first rest ih => cases first <;> simp [conditionsAhead, ih]

/-- What follows a source does not concern the sources declared before it. -/
theorem declared_append_source (before : List Step) {step : Step} (source : step.isSource = true)
    (after : List Step) :
    declared (before ++ step :: after) = declared before ++ declared (step :: after) := by
  induction before with
  | nil => rfl
  | cons first rest ih =>
      cases first <;> simp [declared, ih, conditionsAhead_append_source rest source]

/-- A source stands at the position of its step among the sources. -/
theorem getElem?_declared (before after : List Step) (name : String) (mode : JoinMode)
    (schema : Schema) :
    (declared (before ++ .source name mode schema :: after))[before.countP Step.isSource]? =
      some ⟨name, schema.name, mode, schema, conditionsAhead after⟩ := by
  rw [declared_append_source before rfl, ← length_declared, List.getElem?_append_right (Nat.le_refl _),
    Nat.sub_self]
  rfl

/-- The conditions of all sources are those ahead of any source and those after it. -/
theorem conditionsAhead_append_conditions (steps : List Step) :
    conditionsAhead steps ++ (declared steps).flatMap Source.conditions =
      steps.filterMap Step.condition? := by
  induction steps with
  | nil => rfl
  | cons step rest ih =>
      cases step <;>
        simp [conditionsAhead, declared, List.filterMap_cons, Step.condition?, ← ih]

theorem conditions_declared (steps : List Step) :
    (declared steps).flatMap Source.conditions =
      (steps.dropWhile (fun step => !step.isSource)).filterMap Step.condition? := by
  induction steps with
  | nil => rfl
  | cons step rest ih =>
      cases step with
      | source name mode schema =>
          simpa [declared, List.dropWhile_cons, List.filterMap_cons, Step.isSource,
            Step.condition?] using conditionsAhead_append_conditions rest
      | _ => simpa [declared, List.dropWhile_cons, Step.isSource] using ih

/-! ## Steps for a definition -/

/-- The steps of a source and its conditions. -/
def Source.steps (source : Source) : List Step :=
  .source source.name source.mode source.schema :: source.conditions.map .condition

/-- Steps that declare the parts of a definition one kind after the other. -/
def steps (definition : Definition) : List Step :=
  definition.sources.flatMap Source.steps ++ definition.literals.map .literal ++
    definition.columns.map .column ++ definition.filter.toList.map .filter ++
    definition.key.toList.map .key

theorem conditionsAhead_conditions (conditions : List (Condition String String))
    (rest : List Step) :
    conditionsAhead (conditions.map .condition ++ rest) = conditions ++ conditionsAhead rest := by
  induction conditions with
  | nil => rfl
  | cons condition others ih => exact congrArg (condition :: ·) ih

theorem declared_conditions (conditions : List (Condition String String)) (rest : List Step) :
    declared (conditions.map .condition ++ rest) = declared rest := by
  induction conditions with
  | nil => rfl
  | cons condition others ih => exact ih

/-- The steps of sources declare these sources, if each reads the table its schema is named for. -/
theorem declared_steps {sources : List Source}
    (tables : ∀ source ∈ sources, source.table = source.schema.name) :
    declared (sources.flatMap Source.steps) = sources := by
  induction sources with
  | nil => rfl
  | cons source rest ih =>
      obtain ⟨table, others⟩ := List.forall_mem_cons.1 tables
      have ahead : conditionsAhead (rest.flatMap Source.steps) = [] := by cases rest <;> rfl
      rw [List.flatMap_cons, Source.steps, List.cons_append, declared, conditionsAhead_conditions,
        declared_conditions, ahead, List.append_nil, ih others, ← table]

theorem table_of_mem_declared {steps : List Step} {source : Source}
    (among : source ∈ declared steps) : source.table = source.schema.name := by
  induction steps with
  | nil => cases among
  | cons step rest ih =>
      cases step with
      | source name mode schema =>
          obtain rfl | among := List.mem_cons.1 among
          · rfl
          · exact ih among
      | _ => exact ih among

theorem Step.foreign_of_isJoin {step : Step} (join : step.isJoin = true) :
    step.literal? = none ∧ step.column? = none ∧ step.filter? = none ∧ step.key? = none := by
  cases step with
  | source name mode schema => exact ⟨rfl, rfl, rfl, rfl⟩
  | condition condition => exact ⟨rfl, rfl, rfl, rfl⟩
  | _ => cases join

theorem isJoin_of_mem_steps {sources : List Source} {step : Step}
    (among : step ∈ sources.flatMap Source.steps) : step.isJoin = true := by
  obtain ⟨source, -, own⟩ := List.mem_flatMap.1 among
  obtain rfl | own := List.mem_cons.1 own
  · rfl
  · obtain ⟨condition, -, rfl⟩ := List.mem_map.1 own
    rfl

/-- Sources and their conditions leave the other kinds alone. -/
theorem filterMap_sources {α : Type} {part? : Step → Option α}
    (foreign : ∀ step : Step, step.isJoin = true → part? step = none) (sources : List Source) :
    (sources.flatMap Source.steps).filterMap part? = [] :=
  List.filterMap_eq_nil_iff.2 fun step among => foreign step (isJoin_of_mem_steps among)

theorem filter_isJoin_steps (definition : Definition) :
    definition.steps.filter Step.isJoin = definition.sources.flatMap Source.steps := by
  have joins : (definition.sources.flatMap Source.steps).filter Step.isJoin =
      definition.sources.flatMap Source.steps :=
    List.filter_eq_self.2 fun step among => isJoin_of_mem_steps among
  simp only [steps, List.filter_append, joins, List.filter_map]
  simp [Function.comp_def, Step.isJoin, Step.isSource, Step.condition?]

theorem streams_steps (definition : Definition) :
    streams definition.steps = {
      joins := definition.sources.flatMap Source.steps
      literals := definition.literals
      columns := definition.columns
      filter := definition.filter
      key := definition.key } := by
  have literals := filterMap_sources (fun _ join => (Step.foreign_of_isJoin join).1)
    definition.sources
  have columns := filterMap_sources (fun _ join => (Step.foreign_of_isJoin join).2.1)
    definition.sources
  have filters := filterMap_sources (fun _ join => (Step.foreign_of_isJoin join).2.2.1)
    definition.sources
  have keys := filterMap_sources (fun _ join => (Step.foreign_of_isJoin join).2.2.2)
    definition.sources
  rw [streams, filter_isJoin_steps]
  simp only [steps, List.filterMap_append, List.filterMap_map, literals, columns, filters, keys]
  cases definition.filter <;> cases definition.key <;>
    simp [Function.comp_def, Step.literal?, Step.column?, Step.filter?, Step.key?]

/--
What steps lead to depends on the steps of each kind in their order and on
nothing else.  The source of a step carries the conditions up to the next
source, and with no source before it a condition is lost, otherwise it is
declared once.  Steps lead to the definitions whose sources read the tables their
schemas are named for, and to no others.
-/
theorem ofSteps_by_kind (name : String) :
    (∀ first second, streams first = streams second →
      ofSteps name first = ofSteps name second ∧
        (ofSteps name first).resolve = (ofSteps name second).resolve) ∧
    (∀ before after source mode schema,
      (ofSteps name (before ++ .source source mode schema :: after)).sources[
          before.countP Step.isSource]? =
        some ⟨source, schema.name, mode, schema, conditionsAhead after⟩) ∧
    (∀ steps, (ofSteps name steps).sources.length = steps.countP Step.isSource ∧
      (ofSteps name steps).sources.flatMap Source.conditions =
        (steps.dropWhile (fun step => !step.isSource)).filterMap Step.condition?) ∧
    ∀ definition : Definition, (∃ steps, ofSteps definition.name steps = definition) ↔
      ∀ source ∈ definition.sources, source.table = source.schema.name := by
  refine ⟨fun first second same => ?_, fun before after source mode schema => ?_,
    fun steps => ⟨?_, ?_⟩, fun definition => ⟨?_, fun tables => ⟨definition.steps, ?_⟩⟩⟩
  · have equal : ofSteps name first = ofSteps name second := by rw [ofSteps_eq, same, ofSteps_eq]
    exact ⟨equal, by rw [equal]⟩
  · rw [sources_ofSteps, getElem?_declared]
  · rw [sources_ofSteps, length_declared]
  · rw [sources_ofSteps, conditions_declared]
  · rintro ⟨steps, same⟩ source among
    rw [← same, sources_ofSteps] at among
    exact table_of_mem_declared among
  · rw [ofSteps_eq, streams_steps, declared_steps tables]

/-- Steps to the parcels, with kinds mixed and a key that is replaced. -/
def parcelsSteps : List Step := [
  .key ["order"],
  .main "order" .orders,
  .literal ⟨"high", "3"⟩,
  .inner "customer" .customers,
  .read "order" ⟨"order", "id"⟩,
  .on ⟨"customer", "id"⟩ ⟨"order", "customer"⟩,
  .literal ⟨"kind", "parcel"⟩,
  .on ⟨"order", "region"⟩ ⟨"customer", "region"⟩,
  .left "note" .notes,
  .on ⟨"note", "customer"⟩ ⟨"customer", "id"⟩,
  .key ["order", "kind"],
  .computed "kind" "TEXT" (some "kind"),
  .onLiteral ⟨"customer", "grade"⟩ "high"]

theorem ofSteps_by_kind_parcels :
    streams parcelsSteps = streams View.parcels.unresolve.steps ∧
    ofSteps "parcels" parcelsSteps = ofSteps "parcels" View.parcels.unresolve.steps ∧
    (∀ source ∈ View.parcels.unresolve.sources, source.table = source.schema.name) ∧
    ∃ steps, ofSteps "parcels" steps = View.parcels.unresolve := by
  have same : streams parcelsSteps = streams View.parcels.unresolve.steps := by decide
  have tables : ∀ source ∈ View.parcels.unresolve.sources, source.table = source.schema.name := by
    decide
  obtain ⟨alike, _, _, reached⟩ := ofSteps_by_kind "parcels"
  exact ⟨same, (alike _ _ same).1, tables, (reached View.parcels.unresolve).2 tables⟩

end Rejoin.Definition
