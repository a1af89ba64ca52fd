import Rejoin.Proofs.Definition.Resolution
import Rejoin.Proofs.Flaws

/-!
# The first defect of a definition

`Definition.flaws` lists all that can be wrong with a definition, whether or not
something else is wrong too, in one fixed order.  Resolution fails exactly when
there is such a flaw, and then with the first one.
-/

namespace Rejoin

open Flaws

/-! ## What can be wrong -/

/-- The names that come again, each where it comes again. -/
def repeatedNames (names : List String) (defect : String → Defect) : Flaws Defect :=
  along names (fun position name => when (name ∈ names.take position) (defect name))

/-- A schema without a key, and the key columns that the table does not have. -/
def Schema.flaws (schema : Schema) : Flaws Defect :=
  inOrder [
    when (schema.primaryKey = []) (.emptyPrimaryKey schema.name),
    along schema.primaryKey (fun _ key =>
      when (key ∉ schema.columnNames) (.missingKeyColumn schema.name key))]

namespace Definition

/-- No source at all, a first one that is not MAIN, and the MAIN ones after the first. -/
def modeFlaws (definition : Definition) : Flaws Defect :=
  inOrder [
    when (definition.sources = []) (.noSources definition.name),
    along definition.sources (fun position source =>
      when (position = 0 ∧ source.mode ≠ .main) (.mainNotFirst source.name)),
    along definition.sources (fun position source =>
      when (position ≠ 0 ∧ source.mode = .main) (.extraMain source.name))]

/-- A reference to an alias that no source has, or to a column that its source does not have. -/
def referenceFlaws (definition : Definition) (ref : ColumnRef String) : Flaws Defect :=
  inOrder [
    when (∀ source ∈ definition.sources, source.name ≠ ref.source) (.unknownAlias ref.source),
    when (∃ source ∈ definition.sources, source.name = ref.source ∧
      ref.column ∉ source.schema.columnNames) (.unknownColumn ref.source ref.column)]

/-- A literal that is not declared. -/
def literalFlaws (definition : Definition) (id : String) : Flaws Defect :=
  when (∀ literal ∈ definition.literals, literal.id ≠ id) (.undeclaredLiteral id)

/-- What is wrong with an operand on the source `owner`, whose position is `index`. -/
def operandFlaws (definition : Definition) (owner : Source) (index : Nat) :
    Operand String String → Flaws Defect
  | .reference ref =>
      inOrder [
        definition.referenceFlaws ref,
        when (∃ position source, definition.sources[position]? = some source ∧
          source.name = ref.source ∧ index < position) (.forwardReference owner.name ref.source)]
  | .literal id => definition.literalFlaws id

/-- What is wrong with a source: its schema, then its conditions, left operands first. -/
def sourceFlaws (definition : Definition) (index : Nat) (source : Source) : Flaws Defect :=
  inOrder [
    source.schema.flaws,
    along source.conditions (fun _ condition =>
      along condition.operands (fun _ => definition.operandFlaws source index))]

/-- What is wrong with an output column. -/
def columnFlaws (definition : Definition) (column : OutputColumn String String) : Flaws Defect :=
  match column.origin with
  | .reference ref => definition.referenceFlaws ref
  | .computation _ literal => along literal.toList (fun _ => definition.literalFlaws)

/-- The key names that no output column has. -/
def keyFlaws (definition : Definition) : Flaws Defect :=
  along (definition.key.getD []) (fun _ name =>
    when (name ∉ definition.columns.map OutputColumn.name) (.unknownKeyColumn name))

/-- All that is wrong with a definition, in the order in which it is reported. -/
def flaws (definition : Definition) : Flaws Defect :=
  inOrder [
    repeatedNames (definition.sources.map Source.name) .duplicateAlias,
    repeatedNames (definition.literals.map Literal.id) .duplicateLiteral,
    definition.modeFlaws,
    along definition.sources definition.sourceFlaws,
    along definition.columns (fun _ => definition.columnFlaws),
    definition.keyFlaws]

end Definition

/-! ## What the checks report -/

/-- A check by `if` of the entries of a list finds the first that is wrong. -/
theorem findSome?_ite {α ε : Type} (entries : List α) (wrong : α → Prop) [DecidablePred wrong]
    (flaw : α → ε) :
    entries.findSome? (fun entry => if wrong entry then some (flaw entry) else none) =
      (entries.find? wrong).map flaw := by
  induction entries with
  | nil => rfl
  | cons entry rest ih =>
      rw [List.findSome?_cons, List.find?_cons, ih]
      by_cases found : wrong entry <;> simp [found]

/-- Names that come again are reported one by one, those in `seen` being taken for known. -/
theorem reports_firstRepeated? (defect : String → Defect) (seen names : List String) :
    (along names (fun position name =>
        when (name ∈ seen ∨ name ∈ names.take position) (defect name))).Reports
      ((firstRepeated? seen names).map defect) := by
  induction names generalizing seen with
  | nil => exact .nil
  | cons name rest ih =>
      have known (position : Nat) (other : String) :
          (other ∈ name :: seen ∨ other ∈ rest.take position) =
            (other ∈ seen ∨ other ∈ (name :: rest).take (position + 1)) := by
        simp only [List.take_succ_cons, List.mem_cons, or_left_comm, or_assoc]
      have others := ih (name :: seen)
      simp only [known] at others
      have first := (Reports.ite (name ∈ seen ∨ name ∈ (name :: rest).take 0) (defect name)).cons
        fun _ => others
      rw [along, List.mapIdx_cons, firstRepeated?]
      by_cases again : name ∈ seen <;> simpa [again] using! first

/-- One check by `if` for all entries of a list. -/
theorem reports_each_when {α : Type} (entries : List α) (wrong : α → Prop) [DecidablePred wrong]
    (defect : α → Defect) :
    (along entries (fun _ entry => when (wrong entry) (defect entry))).Reports
      ((entries.find? wrong).map defect) := by
  rw [← findSome?_ite]
  exact .each fun entry _ => .ite (wrong entry) (defect entry)

theorem Schema.reports_flaws (schema : Schema) : schema.flaws.Reports schema.defect? := by
  have parts := (Reports.ite (schema.primaryKey = []) (.emptyPrimaryKey schema.name)).cons
    fun _ => (reports_each_when schema.primaryKey (· ∉ schema.columnNames)
      (.missingKeyColumn schema.name)).cons fun _ => .nil
  have same : schema.defect? = (if schema.primaryKey = [] then some (.emptyPrimaryKey schema.name)
      else none).or (((schema.primaryKey.find? (fun key => key ∉ schema.columnNames)).map
        (.missingKeyColumn schema.name)).or none) := by
    rw [Schema.defect?, Option.or_none]
    simp only [← Schema.hasColumn_iff]
    split <;> simp_all
  rw [same]
  exact parts

namespace Definition

variable {definition : Definition}

theorem reports_modeFlaws (definition : Definition) :
    definition.modeFlaws.Reports definition.modeDefect? := by
  rw [modeFlaws, modeDefect?]
  cases definition.sources with
  | nil => exact .head (.present rfl _)
  | cons first others =>
      refine .tail (.absent (List.cons_ne_nil first others) _) ?_
      by_cases leads : first.mode = .main
      · have extra := reports_each_when others (fun source => source.mode = .main)
          (fun source => .extraMain source.name)
        simp only [leads, if_true]
        refine .tail (.along_none fun position source found => .absent ?_ _) ?_
        · rintro ⟨rfl, misplaced⟩
          obtain rfl : first = source := by simpa using found
          exact misplaced leads
        · rw [← Option.or_none (o := Option.map _ _)]
          refine .cons ?_ fun _ => .nil
          rw [along_cons]
          refine .tail (.absent (fun later => later.1 rfl) _) ?_
          simpa [along] using extra
      · simp only [leads, if_false]
        rw [along_cons]
        exact .head (.head (.present ⟨rfl, leads⟩ _))

/-- With distinct aliases a reference is resolved, or fails with its first flaw. -/
theorem reports_referenceFlaws (distinct : (definition.sources.map Source.name).Nodup)
    (ref : ColumnRef String) :
    (definition.referenceFlaws ref).Reports (failure? (definition.resolveRef ref)) := by
  rw [referenceFlaws, resolveRef]
  cases located : definition.locate? ref.source with
  | none =>
      refine .head (.present (fun source among named => ?_) _)
      obtain ⟨index, found⟩ := List.mem_iff_getElem?.1 among
      rw [(locate?_eq_some_iff distinct).2 ⟨found, named⟩] at located
      cases located
  | some placed =>
      obtain ⟨source, index⟩ := placed
      obtain ⟨found, named⟩ := (locate?_eq_some_iff distinct).1 located
      have among := List.mem_of_getElem? found
      refine .tail (.absent (fun unknown => unknown source among named) _) ?_
      by_cases column : source.schema.hasColumn ref.column = true
      · simp only [column, if_true]
        refine .tail (.absent ?_ _) .nil
        rintro ⟨other, otherAmong, same, missing⟩
        obtain rfl : other = source :=
          List.inj_on_of_nodup_map distinct otherAmong among (same.trans named.symm)
        exact missing (Schema.hasColumn_iff.1 column)
      · simp only [column]
        exact .head (.present ⟨source, among, named, mt Schema.hasColumn_iff.2 column⟩ _)

theorem reports_literalFlaws (definition : Definition) (id : String) :
    (definition.literalFlaws id).Reports (failure? (definition.resolveLiteral id)) := by
  rw [literalFlaws, resolveLiteral]
  cases found : definition.literals.find? (fun literal => literal.id == id) with
  | none =>
      refine .present (fun literal among => ?_) _
      simpa using List.find?_eq_none.1 found literal among
  | some literal =>
      refine .absent (fun undeclared => ?_) _
      exact undeclared literal (List.mem_of_find?_eq_some found)
        (by simpa using List.find?_some found)

/-- A resolved reference holds the position of its alias. -/
theorem source_of_resolveRef (distinct : (definition.sources.map Source.name).Nodup)
    {ref : ColumnRef String} {column : ColumnRef Nat}
    (resolved : definition.resolveRef ref = .ok column) :
    ∃ source, definition.sources[column.source]? = some source ∧ source.name = ref.source := by
  unfold resolveRef at resolved
  split at resolved
  · cases resolved
  · next source index located =>
      split at resolved
      · cases resolved
        exact ⟨source, (locate?_eq_some_iff distinct).1 located⟩
      · cases resolved

theorem reports_operandFlaws (distinct : (definition.sources.map Source.name).Nodup)
    (owner : Source) (index : Nat) (operand : Operand String String) :
    (definition.operandFlaws owner index operand).Reports
      (failure? (definition.resolveOperand owner index operand)) := by
  cases operand with
  | literal id =>
      rw [resolveOperand, failure?_map]
      exact reports_literalFlaws definition id
  | reference ref =>
      have reference := reports_referenceFlaws distinct ref
      rw [operandFlaws, resolveOperand]
      cases resolved : definition.resolveRef ref with
      | error defect =>
          rw [resolved] at reference
          exact .head reference
      | ok column =>
          rw [resolved] at reference
          obtain ⟨source, found, named⟩ := source_of_resolveRef distinct resolved
          refine .tail reference ?_
          change Reports _ (failure? (if index < column.source then _ else _))
          split
          · next ahead => exact .head (.present ⟨column.source, source, found, named, ahead⟩ _)
          · next behind =>
              refine .tail (.absent ?_ _) .nil
              rintro ⟨position, other, held, same, ahead⟩
              have here := (locate?_eq_some_iff distinct).2 ⟨found, named⟩
              have there := (locate?_eq_some_iff distinct).2 ⟨held, same⟩
              obtain ⟨_, rfl⟩ := Prod.mk.inj (Option.some.inj (here.symm.trans there))
              exact behind ahead

theorem reports_conditionFlaws (distinct : (definition.sources.map Source.name).Nodup)
    (owner : Source) (index : Nat) (condition : Condition String String) :
    (along condition.operands (fun _ => definition.operandFlaws owner index)).Reports
      (failure? (definition.resolveCondition owner index condition)) := by
  have outcome : failure? (definition.resolveCondition owner index condition) =
      (failure? (definition.resolveOperand owner index condition.left)).or
        ((failure? (definition.resolveOperand owner index condition.right)).or none) :=
    failure?_bind fun _ _ => failure?_bind fun _ _ => rfl
  rw [outcome]
  exact (reports_operandFlaws distinct owner index condition.left).cons fun _ =>
    (reports_operandFlaws distinct owner index condition.right).cons fun _ => .nil

@[simp] theorem failure?_refuse (defect : Option Defect) :
    failure? (Defect.refuse defect) = defect := by
  cases defect <;> rfl

theorem reports_sourceFlaws (distinct : (definition.sources.map Source.name).Nodup)
    (index : Nat) (source : Source) :
    (definition.sourceFlaws index source).Reports
      (failure? (definition.resolveSource source index)) := by
  have outcome : failure? (definition.resolveSource source index) =
      source.schema.defect?.or ((source.conditions.findSome? (fun condition =>
        failure? (definition.resolveCondition source index condition))).or none) := by
    rw [← failure?_refuse source.schema.defect?, ← failure?_mapM]
    exact failure?_bind fun _ _ => failure?_bind fun _ _ => rfl
  rw [outcome]
  exact source.schema.reports_flaws.cons fun _ =>
    (Reports.each fun condition _ =>
      reports_conditionFlaws distinct source index condition).cons fun _ => .nil

theorem reports_columnFlaws (distinct : (definition.sources.map Source.name).Nodup)
    (column : OutputColumn String String) :
    (definition.columnFlaws column).Reports (failure? (definition.resolveColumn column)) := by
  obtain ⟨name, ref | ⟨expression, _ | id⟩⟩ := column
  · change Reports _ (failure? (((definition.resolveRef ref).map _).map _))
    rw [failure?_map, failure?_map]
    exact reports_referenceFlaws distinct ref
  · exact .nil
  · change Reports _ (failure? (((definition.resolveLiteral id).map _).map _))
    rw [failure?_map, failure?_map, ← Option.or_none (o := failure? _)]
    exact (reports_literalFlaws definition id).cons fun _ => .nil

theorem reports_keyFlaws (definition : Definition) :
    definition.keyFlaws.Reports definition.keyDefect? := by
  have outcome : definition.keyDefect? = ((definition.key.getD []).find?
      (fun name => name ∉ definition.columns.map OutputColumn.name)).map .unknownKeyColumn := by
    simp only [keyDefect?, List.contains_eq_mem, decide_not]
  rw [outcome]
  exact reports_each_when _ _ _

/-- Resolution reports the first flaw of a definition. -/
theorem reports_flaws (definition : Definition) :
    definition.flaws.Reports (failure? definition.resolve) := by
  have repeated (defect : String → Defect) (names : List String) :
      (repeatedNames names defect).Reports ((firstRepeated? [] names).map defect) := by
    simpa [repeatedNames] using reports_firstRepeated? defect [] names
  have outcome : failure? definition.resolve = definition.nameDefect?.or
      (definition.modeDefect?.or ((definition.sources.zipIdx.findSome? (fun placed =>
        failure? (definition.resolveSource placed.1 placed.2))).or
          ((definition.columns.findSome? (fun column =>
            failure? (definition.resolveColumn column))).or
              (definition.keyDefect?.or none)))) := by
    rw [← failure?_refuse definition.nameDefect?, ← failure?_refuse definition.modeDefect?,
      ← failure?_refuse definition.keyDefect?, ← failure?_mapM, ← failure?_mapM]
    exact failure?_bind fun _ _ => failure?_bind fun _ _ => failure?_bind fun _ _ =>
      failure?_bind fun _ _ => failure?_bind fun _ _ => rfl
  rw [outcome, nameDefect?, Option.or_assoc]
  refine (repeated .duplicateAlias _).cons fun fresh => (repeated .duplicateLiteral _).cons fun _ =>
    (reports_modeFlaws definition).cons fun _ => ?_
  have distinct : (definition.sources.map Source.name).Nodup :=
    ((firstRepeated?_eq_none_iff [] _).1 (Option.map_eq_none_iff.1 fresh)).1
  have sources := Reports.along fun index source
    (_ : definition.sources[index]? = some source) => reports_sourceFlaws distinct index source
  rw [List.mapIdx_eq_zipIdx_map, List.findSome?_map] at sources
  exact sources.cons fun _ =>
    (Reports.each fun column _ => reports_columnFlaws distinct column).cons fun _ =>
      (reports_keyFlaws definition).cons fun _ => .nil

/-- Another key changes only what comes last. -/
theorem flaws_before_key (key : Option (List String)) {address : List Nat} {defect : Defect}
    (early : address < [5]) :
    { definition with key := key }.flaws address defect ↔ definition.flaws address defect :=
  inOrder_congr rfl early

/--
Resolution fails with a defect exactly if that defect comes first, so it fails
exactly if there is any.  What is different in another definition only after the
first defect makes no difference to the answer.
-/
theorem resolve_reports_first (definition : Definition) :
    (∀ defect, definition.resolve = .error defect ↔
      ∃ address, definition.flaws.Earliest address defect) ∧
    ((∃ defect, definition.resolve = .error defect) ↔
      ∃ address defect, definition.flaws address defect) ∧
    ∀ (other : Definition) (address : List Nat) (defect : Defect),
      definition.flaws.Earliest address defect →
      (∀ earlier ≤ address, ∀ found,
        other.flaws earlier found ↔ definition.flaws earlier found) →
      other.resolve = definition.resolve := by
  have first (definition : Definition) (defect : Defect) : definition.resolve = .error defect ↔
      ∃ address, definition.flaws.Earliest address defect := by
    rw [← failure?_eq_some_iff]
    exact (reports_flaws definition).eq_some_iff
  refine ⟨first definition, ?_, fun other address defect earliest agree => ?_⟩
  · simp only [← failure?_eq_some_iff]
    exact (reports_flaws definition).exists_eq_some_iff
  · rw [(first definition defect).2 ⟨address, earliest⟩]
    exact (first other defect).2 ⟨address, earliest.of_agree agree⟩

/-- Orders that look ahead for a rank that customers do not have, with a key of no column. -/
def tangled : Definition where
  name := "parcels"
  sources := [
    ⟨"order", "orders", .main, .orders, [⟨.reference ⟨"customer", "rank"⟩, .literal "low"⟩]⟩,
    ⟨"customer", "customers", .inner, .customers, []⟩]
  columns := []
  filter := none
  literals := []
  key := some ["total"]

/-- The missing rank is reported before the look ahead, and whatever the key is. -/
theorem resolve_reports_first_tangled :
    tangled.flaws [3, 0, 1, 0, 0, 0, 1] (.unknownColumn "customer" "rank") ∧
      tangled.flaws [5, 0] (.unknownKeyColumn "total") ∧
      tangled.resolve = .error (.unknownColumn "customer" "rank") ∧
      { tangled with key := none }.resolve = .error (.unknownColumn "customer" "rank") := by
  obtain ⟨reports, _, unmoved⟩ := resolve_reports_first tangled
  have resolved : tangled.resolve = .error (.unknownColumn "customer" "rank") := rfl
  have rank : tangled.flaws [3, 0, 1, 0, 0, 0, 1] (.unknownColumn "customer" "rank") := by
    refine inOrder_of_getElem? rfl (along_of_getElem? rfl (inOrder_of_getElem? rfl ?_))
    refine along_of_getElem? rfl (along_of_getElem? rfl (inOrder_of_getElem? rfl ?_))
    refine inOrder_of_getElem? rfl ⟨⟨_, List.mem_of_getElem? (i := 1) rfl, rfl, ?_⟩, rfl, rfl⟩
    decide
  have key : tangled.flaws [5, 0] (.unknownKeyColumn "total") :=
    inOrder_of_getElem? rfl (along_of_getElem? rfl ⟨List.not_mem_nil, rfl, rfl⟩)
  refine ⟨rank, key, resolved, ?_⟩
  obtain ⟨address, earliest⟩ := (reports _).1 resolved
  rw [← resolved]
  refine unmoved _ address _ earliest fun earlier within found => ?_
  have early : earlier < [5] := by
    rcases earliest.least _ _ rank with ⟨rfl, _⟩ | beyond
    · exact within.trans_lt (by decide)
    · exact within.trans_lt (beyond.trans (by decide))
  exact flaws_before_key none early

end Definition

end Rejoin
