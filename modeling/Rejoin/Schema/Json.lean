import Rejoin.Json.Record
import Rejoin.Schema.Basic

/-!
# Schemas as JSON
-/

namespace Rejoin

namespace Column

def toJson (column : Column) : Json :=
  .record [("name", .text column.name), ("type", .text column.type)]

def ofJson? (value : Json) : Option Column := do
  let fields ← value.fields? ["name", "type"]
  return {
    name := ← fields.required? "name" Json.text?
    type := ← fields.required? "type" Json.text? }

theorem ofJson?_toJson (column : Column) : ofJson? column.toJson = some column := by
  simp only [ofJson?, toJson]
  rw [Json.fields?_record (by simp) (by simp)]
  rfl

end Column

namespace Schema

def toJson (schema : Schema) : Json :=
  .record [("name", .text schema.name), ("primary_key", .list .text schema.primaryKey),
    ("columns", .list Column.toJson schema.columns)]

def ofJson? (value : Json) : Option Schema := do
  let fields ← value.fields? ["name", "primary_key", "columns"]
  return {
    name := ← fields.required? "name" Json.text?
    primaryKey := ← fields.required? "primary_key" (Json.list? Json.text?)
    columns := ← fields.required? "columns" (Json.list? Column.ofJson?) }

theorem ofJson?_toJson (schema : Schema) : ofJson? schema.toJson = some schema := by
  simp only [ofJson?, toJson]
  rw [Json.fields?_record (by simp) (by simp)]
  simp [Json.Fields.required?, Json.Fields.value?, List.lookup_cons,
    Json.list?_list Json.text?_text, Json.list?_list Column.ofJson?_toJson]

end Schema

end Rejoin
