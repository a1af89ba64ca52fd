import Rejoin.Schema.Json
import Rejoin.View.Basic

/-!
# Views as JSON

The text of a view has every field, in a fixed order; its compact form is what
the fingerprint of a view is taken of.
-/

namespace Rejoin

/-- The word for a mode. -/
def JoinMode.word : JoinMode → String
  | main => "main"
  | inner => "inner"
  | left => "left"

def JoinMode.ofWord? (word : String) : Option JoinMode :=
  if word = "main" then some main
  else if word = "inner" then some inner
  else if word = "left" then some left
  else none

namespace JoinMode

def toJson (mode : JoinMode) : Json :=
  .text mode.word

/-- A mode is its word, or a variant of that name without content. -/
def ofJson? (value : Json) : Option JoinMode :=
  match value.variant? with
  | some (name, content) => if content.isNull then ofWord? name else none
  | none => value.text?.bind ofWord?

@[simp] theorem ofJson?_toJson (mode : JoinMode) : ofJson? mode.toJson = some mode := by
  cases mode <;> decide

end JoinMode

namespace Literal

def toJson (literal : Literal) : Json :=
  .record [("id", .text literal.id), ("value", .text literal.value)]

def ofJson? (value : Json) : Option Literal := do
  let fields ← value.fields? ["id", "value"]
  return {
    id := ← fields.required? "id" Json.text?
    value := ← fields.required? "value" Json.text? }

theorem ofJson?_toJson (literal : Literal) : ofJson? literal.toJson = some literal := by
  simp only [ofJson?, toJson]
  rw [Json.fields?_record (by simp) (by simp)]
  rfl

end Literal

namespace View

def refToJson (ref : ColumnRef Nat) : Json :=
  .record [("source", .natural ref.source), ("column", .text ref.column)]

def operandToJson : Operand Nat Literal → Json
  | .reference column => .record [("reference", refToJson column)]
  | .literal value => .record [("literal", value.toJson)]

def conditionToJson (condition : Condition Nat Literal) : Json :=
  .record [("left", operandToJson condition.left), ("right", operandToJson condition.right)]

def originToJson : Origin Nat Literal → Json
  | .reference column => .record [("reference", refToJson column)]
  | .computation expression literal =>
      .record [("computation", .record [("expression", .text expression),
        ("literal", .nullable Literal.toJson literal)])]

def columnToJson (column : OutputColumn Nat Literal) : Json :=
  .record [("name", .text column.name), ("source", originToJson column.origin)]

def Source.toJson (source : Source) : Json :=
  .record [("index", .natural source.index), ("table", .text source.table),
    ("alias", .text source.name), ("mode", source.mode.toJson),
    ("schema", source.schema.toJson),
    ("conditions", .list conditionToJson source.conditions)]

def toJson (view : View) : Json :=
  .record [("name", .text view.name), ("sources", .list Source.toJson view.sources),
    ("columns", .list columnToJson view.columns), ("filter", .nullable .text view.filter),
    ("literals", .list Literal.toJson view.literals),
    ("key_override", .nullable (.list .text) view.keyOverride)]

end View

end Rejoin
