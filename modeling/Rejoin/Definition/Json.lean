import Rejoin.Definition.Basic
import Rejoin.Json.Text
import Rejoin.View.Json

/-!
# Definitions as JSON

`Definition.parse?` reads the text of a definition, `Definition.toJson` writes
every field of one.  Output columns, filter, literals, key, the conditions of a
source and the literal of a computation may be left out of a text.
-/

namespace Rejoin

namespace Definition

def refToJson (ref : ColumnRef String) : Json :=
  .record [("alias", .text ref.source), ("column", .text ref.column)]

def refOfJson? (value : Json) : Option (ColumnRef String) := do
  let fields ← value.fields? ["alias", "column"]
  return {
    source := ← fields.required? "alias" Json.text?
    column := ← fields.required? "column" Json.text? }

theorem refOfJson?_refToJson (ref : ColumnRef String) : refOfJson? (refToJson ref) = some ref := by
  simp only [refOfJson?, refToJson]
  rw [Json.fields?_record (by simp) (by simp)]
  rfl

def operandToJson : Operand String String → Json
  | .reference column => .record [("reference", refToJson column)]
  | .literal id => .record [("literal", .record [("id", .text id)])]

def literalIdOfJson? (value : Json) : Option String := do
  let fields ← value.fields? ["id"]
  fields.required? "id" Json.text?

def operandOfJson? (value : Json) : Option (Operand String String) :=
  match value.variant? with
  | some ("reference", content) => (refOfJson? content).map .reference
  | some ("literal", content) => (literalIdOfJson? content).map .literal
  | _ => none

theorem operandOfJson?_operandToJson (operand : Operand String String) :
    operandOfJson? (operandToJson operand) = some operand := by
  cases operand with
  | reference column =>
      simp [operandOfJson?, operandToJson, Json.variant?, Json.record, refOfJson?_refToJson]
  | literal id =>
      simp only [operandOfJson?, operandToJson, Json.variant?, Json.record, List.map_cons,
        List.map_nil]
      rfl

def conditionToJson (condition : Condition String String) : Json :=
  .record [("left", operandToJson condition.left), ("right", operandToJson condition.right)]

def conditionOfJson? (value : Json) : Option (Condition String String) := do
  let fields ← value.fields? ["left", "right"]
  return {
    left := ← fields.required? "left" operandOfJson?
    right := ← fields.required? "right" operandOfJson? }

theorem conditionOfJson?_conditionToJson (condition : Condition String String) :
    conditionOfJson? (conditionToJson condition) = some condition := by
  simp only [conditionOfJson?, conditionToJson]
  rw [Json.fields?_record (by simp) (by simp)]
  simp [Json.Fields.required?, Json.Fields.value?, List.lookup_cons, operandOfJson?_operandToJson]

def originToJson : Origin String String → Json
  | .reference column => .record [("reference", refToJson column)]
  | .computation expression literal =>
      .record [("computation", .record [("expression", .text expression),
        ("literal", .nullable .text literal)])]

def computationOfJson? (value : Json) : Option (Origin String String) := do
  let fields ← value.fields? ["expression", "literal"]
  return .computation (← fields.required? "expression" Json.text?)
    (← fields.optional? "literal" none (Json.nullable? Json.text?))

def originOfJson? (value : Json) : Option (Origin String String) :=
  match value.variant? with
  | some ("reference", content) => (refOfJson? content).map .reference
  | some ("computation", content) => computationOfJson? content
  | _ => none

def columnToJson (column : OutputColumn String String) : Json :=
  .record [("name", .text column.name), ("source", originToJson column.origin)]

def columnOfJson? (value : Json) : Option (OutputColumn String String) := do
  let fields ← value.fields? ["name", "source"]
  return {
    name := ← fields.required? "name" Json.text?
    origin := ← fields.required? "source" originOfJson? }

namespace Source

def toJson (source : Source) : Json :=
  .record [("alias", .text source.name), ("table", .text source.table),
    ("mode", source.mode.toJson), ("schema", source.schema.toJson),
    ("conditions", .list conditionToJson source.conditions)]

def ofJson? (value : Json) : Option Source := do
  let fields ← value.fields? ["alias", "table", "mode", "schema", "conditions"]
  return {
    name := ← fields.required? "alias" Json.text?
    table := ← fields.required? "table" Json.text?
    mode := ← fields.required? "mode" JoinMode.ofJson?
    schema := ← fields.required? "schema" Schema.ofJson?
    conditions := ← fields.optional? "conditions" [] (Json.list? conditionOfJson?) }

end Source

def toJson (definition : Definition) : Json :=
  .record [("name", .text definition.name), ("sources", .list Source.toJson definition.sources),
    ("columns", .list columnToJson definition.columns),
    ("filter", .nullable .text definition.filter),
    ("literals", .list Literal.toJson definition.literals),
    ("key", .nullable (.list .text) definition.key)]

def ofJson? (value : Json) : Option Definition := do
  let fields ← value.fields? ["name", "sources", "columns", "filter", "literals", "key"]
  return {
    name := ← fields.required? "name" Json.text?
    sources := ← fields.required? "sources" (Json.list? Source.ofJson?)
    columns := ← fields.optional? "columns" [] (Json.list? columnOfJson?)
    filter := ← fields.optional? "filter" none (Json.nullable? Json.text?)
    literals := ← fields.optional? "literals" [] (Json.list? Literal.ofJson?)
    key := ← fields.optional? "key" none (Json.nullable? (Json.list? Json.text?)) }

/-- The definition that a text holds. -/
def parse? (text : String) : Option Definition :=
  (Json.parse? text).bind ofJson?

end Definition

end Rejoin
