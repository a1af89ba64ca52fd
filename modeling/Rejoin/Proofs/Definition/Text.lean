import Rejoin.Definition.Json
import Rejoin.Proofs.Definition.Resolution
import Rejoin.Proofs.Json.Record
import Rejoin.Proofs.View.Text

/-!
# Texts of definitions

A definition may be written with any of the fields left out that hold their
default, chosen anew at each source and each computation.  `Definition.parse?`
reads the definition from every text of every such value.
-/

namespace Rejoin.Definition

/-! ## Values of a definition -/

/-- A computation that is bound to no literal may leave it out. -/
inductive OriginWritten : Origin String String → Json → Prop where
  | reference (column : ColumnRef String) :
      OriginWritten (.reference column) (.record [("reference", refToJson column)])
  | computation {expression : String} {literal : Option String} {fields : List (String × Json)}
      (omits : Json.Omits [("literal", .null)]
        [("expression", .text expression), ("literal", .nullable .text literal)] fields) :
      OriginWritten (.computation expression literal)
        (.record [("computation", .record fields)])

inductive ColumnWritten (column : OutputColumn String String) : Json → Prop where
  | record {origin : Json} (written : OriginWritten column.origin origin) :
      ColumnWritten column (.record [("name", .text column.name), ("source", origin)])

/-- A source without conditions may leave out their empty list. -/
inductive Source.Written (source : Source) : Json → Prop where
  | record {fields : List (String × Json)}
      (omits : Json.Omits [("conditions", .array [])]
        [("alias", .text source.name), ("table", .text source.table),
          ("mode", source.mode.toJson), ("schema", source.schema.toJson),
          ("conditions", .list conditionToJson source.conditions)] fields) :
      Source.Written source (.record fields)

/--
The values a definition may be written as.  An empty list of output columns or
literals, an absent filter and an absent key may be left out.
-/
inductive Written (definition : Definition) : Json → Prop where
  | record {sources columns : List Json} {fields : List (String × Json)}
      (sourcesWritten : List.Forall₂ Source.Written definition.sources sources)
      (columnsWritten : List.Forall₂ ColumnWritten definition.columns columns)
      (omits : Json.Omits
        [("columns", .array []), ("filter", .null), ("literals", .array []), ("key", .null)]
        [("name", .text definition.name), ("sources", .array sources),
          ("columns", .array columns), ("filter", .nullable .text definition.filter),
          ("literals", .list Literal.toJson definition.literals),
          ("key", .nullable (.list .text) definition.key)] fields) :
      Written definition (.record fields)

theorem originWritten_toJson (origin : Origin String String) :
    OriginWritten origin (originToJson origin) := by
  cases origin with
  | reference column => exact .reference column
  | computation expression literal => exact .computation (.refl _ _)

theorem columnWritten_toJson (column : OutputColumn String String) :
    ColumnWritten column (columnToJson column) :=
  .record (originWritten_toJson column.origin)

theorem Source.written_toJson (source : Source) : source.Written source.toJson :=
  .record (.refl _ _)

/-- The value with every field is one of them. -/
theorem written_toJson (definition : Definition) : definition.Written definition.toJson :=
  .record (List.forall₂_map_right_iff.2 (List.forall₂_same.2 fun source _ => source.written_toJson))
    (List.forall₂_map_right_iff.2 (List.forall₂_same.2 fun column _ => columnWritten_toJson column))
    (.refl _ _)

/-! ## Each value is read back -/

theorem originOfJson?_written {origin : Origin String String} {value : Json}
    (written : OriginWritten origin value) : originOfJson? value = some origin := by
  cases written with
  | reference column =>
      simp [originOfJson?, Json.variant?, Json.record, refOfJson?_refToJson]
  | @computation expression literal fields omits =>
      have distinct : (["expression", "literal"] : List String).Nodup := by decide
      have literal? := omits.optional? distinct "literal" none (by simp)
        (by simp [Json.nullable_eq_null Json.isNull_text])
        (Json.nullable?_nullable Json.text?_text Json.isNull_text literal)
      have read : computationOfJson? (.record fields) = some (.computation expression literal) := by
        rw [computationOfJson?, omits.fields?_record (by simp) distinct]
        have expression? := omits.required? distinct "expression" (by simp) (by simp)
          (Json.text?_text expression)
        simp [expression?, literal?]
      simpa [originOfJson?, Json.variant?, Json.record] using read

theorem columnOfJson?_written {column : OutputColumn String String} {value : Json}
    (written : ColumnWritten column value) : columnOfJson? value = some column := by
  obtain ⟨written⟩ := written
  rw [columnOfJson?, Json.fields?_record (by simp) (by simp)]
  simp [Json.Fields.required?, Json.Fields.value?, List.lookup_cons, originOfJson?_written written]

theorem Source.ofJson?_written {source : Source} {value : Json} (written : source.Written value) :
    ofJson? value = some source := by
  obtain ⟨omits⟩ := written
  have distinct : (["alias", "table", "mode", "schema", "conditions"] : List String).Nodup := by
    decide
  have conditions := omits.optional? distinct "conditions" [] (by simp)
    (by simp [Json.list_eq_array_nil])
    (Json.list?_list conditionOfJson?_conditionToJson source.conditions)
  rw [ofJson?, omits.fields?_record (by simp) distinct]
  simp [conditions,
    omits.required? distinct "alias" (by simp) (by simp) (Json.text?_text source.name),
    omits.required? distinct "table" (by simp) (by simp) (Json.text?_text source.table),
    omits.required? distinct "mode" (by simp) (by simp) (JoinMode.ofJson?_toJson source.mode),
    omits.required? distinct "schema" (by simp) (by simp) (Schema.ofJson?_toJson source.schema)]

theorem ofJson?_written {definition : Definition} {value : Json}
    (written : definition.Written value) : ofJson? value = some definition := by
  obtain @⟨sources, columns, fields, sourcesWritten, columnsWritten, omits⟩ := written
  have distinct :
      (["name", "sources", "columns", "filter", "literals", "key"] : List String).Nodup := by
    decide
  have sources := Json.list?_array (sourcesWritten.imp fun _ _ => Source.ofJson?_written)
  have columns := omits.optional? distinct "columns" [] (by simp)
    (by
      simp
      rintro rfl
      exact List.forall₂_nil_right_iff.1 columnsWritten)
    (Json.list?_array (columnsWritten.imp fun _ _ => columnOfJson?_written))
  have filter := omits.optional? distinct "filter" none (by simp)
    (by simp [Json.nullable_eq_null Json.isNull_text])
    (Json.nullable?_nullable Json.text?_text Json.isNull_text definition.filter)
  have literals := omits.optional? distinct "literals" [] (by simp)
    (by simp [Json.list_eq_array_nil])
    (Json.list?_list Literal.ofJson?_toJson definition.literals)
  have key := omits.optional? distinct "key" none (by simp)
    (by simp [Json.nullable_eq_null (Json.isNull_list Json.text)])
    (Json.nullable?_nullable (Json.list?_list Json.text?_text) (Json.isNull_list Json.text)
      definition.key)
  rw [ofJson?, omits.fields?_record (by simp) distinct]
  simp [columns, filter, literals, key,
    omits.required? distinct "name" (by simp) (by simp) (Json.text?_text definition.name),
    omits.required? distinct "sources" (by simp) (by simp) sources]

/-! ## Everything can be written -/

theorem spellable_omits {defaults full fields : List (String × Json)}
    (omits : Json.Omits defaults full fields) (each : ∀ field ∈ full, field.2.Spellable) :
    (Json.record fields).Spellable :=
  Json.spellable_record fun field among => each field (omits.kept.subset among)

theorem spellable_items {α : Type} {Encodes : α → Json → Prop} {values : List α}
    {items : List Json} (written : List.Forall₂ Encodes values items)
    (each : ∀ value item, Encodes value item → item.Spellable) : (Json.array items).Spellable := by
  refine Json.spellable_array.2 fun item among => ?_
  obtain ⟨value, -, encodes⟩ := exists_of_mem_right written among
  exact each value item encodes

theorem spellable_refToJson (ref : ColumnRef String) : (refToJson ref).Spellable :=
  Json.spellable_record (by simp [Json.spellable_text])

theorem spellable_operandToJson (operand : Operand String String) :
    (operandToJson operand).Spellable := by
  cases operand with
  | reference column => exact Json.spellable_record (by simp [spellable_refToJson])
  | literal id =>
      have content : (Json.record [("id", .text id)]).Spellable :=
        Json.spellable_record (by simp [Json.spellable_text])
      exact Json.spellable_record (by simpa using content)

theorem spellable_conditionToJson (condition : Condition String String) :
    (conditionToJson condition).Spellable :=
  Json.spellable_record (by simp [spellable_operandToJson])

theorem OriginWritten.spellable {origin : Origin String String} {value : Json}
    (written : OriginWritten origin value) : value.Spellable := by
  cases written with
  | reference column => exact Json.spellable_record (by simp [spellable_refToJson])
  | computation omits =>
      have content := spellable_omits omits
        (by simp [Json.spellable_text, Json.spellable_nullable Json.spellable_text])
      exact Json.spellable_record (by simpa using content)

theorem ColumnWritten.spellable {column : OutputColumn String String} {value : Json}
    (written : ColumnWritten column value) : value.Spellable := by
  obtain ⟨written⟩ := written
  exact Json.spellable_record (by simp [Json.spellable_text, written.spellable])

theorem Source.Written.spellable {source : Source} {value : Json}
    (written : source.Written value) : value.Spellable := by
  obtain ⟨omits⟩ := written
  exact spellable_omits omits (by
    simp [Json.spellable_text, JoinMode.spellable_toJson, Schema.spellable_toJson,
      Json.spellable_list spellable_conditionToJson])

theorem Written.spellable {definition : Definition} {value : Json}
    (written : definition.Written value) : value.Spellable := by
  obtain @⟨sources, columns, fields, sourcesWritten, columnsWritten, omits⟩ := written
  have sources := spellable_items sourcesWritten fun _ _ => Source.Written.spellable
  have columns := spellable_items columnsWritten fun _ _ => ColumnWritten.spellable
  exact spellable_omits omits (by
    simp [sources, columns, Json.spellable_text, Json.spellable_nullable Json.spellable_text,
      Json.spellable_list Literal.spellable_toJson,
      Json.spellable_nullable (Json.spellable_list Json.spellable_text)])

theorem parse?_of_writes {definition : Definition} {value : Json}
    (written : definition.Written value) {text : String}
    (writes : Json.Writes value.tokens text.toList) : parse? text = some definition := by
  rw [parse?, Json.parse?_writes writes, Option.bind_some, ofJson?_written written]

/--
A definition is read back from every text of it: with every field or with any
of the defaults left out, compact, spread over lines or with any blanks, and
with its strings escaped in any way.
-/
theorem reads_written (definition : Definition) :
    definition.Written definition.toJson ∧
    ∀ value, definition.Written value →
      parse? value.compact = some definition ∧ parse? value.pretty = some definition ∧
      ∀ text : String, Json.Writes value.tokens text.toList → parse? text = some definition := by
  refine ⟨definition.written_toJson, fun value written => ⟨?_, ?_, fun text writes => ?_⟩⟩
  · exact parse?_of_writes written (Json.writes_compact written.spellable)
  · exact parse?_of_writes written (Json.writes_pretty written.spellable)
  · exact parse?_of_writes written writes

/-- A definition that holds every default. -/
def drafts : Definition where
  name := "drafts"
  sources := [⟨"note", "notes", .main, .notes, []⟩]
  columns := [⟨"length", .computation "LENGTH" none⟩]
  filter := none
  literals := []
  key := none

/-- The drafts without any of the defaults. -/
def draftsJson : Json :=
  .record [("name", .text "drafts"),
    ("sources", .array [.record [("alias", .text "note"), ("table", .text "notes"),
      ("mode", .text "main"), ("schema", Schema.notes.toJson)]]),
    ("columns", .array [.record [("name", .text "length"),
      ("source", .record [("computation", .record [("expression", .text "LENGTH")])])]])]

theorem drafts_written : drafts.Written draftsJson := by
  refine .record (.cons (.record ⟨List.sublist_append_left _ [_], ?_⟩) .nil)
    (.cons (.record (.computation ⟨List.sublist_append_left _ [_], ?_⟩)) .nil)
    ⟨List.sublist_append_left _ [_, _, _], ?_⟩
  · simp [Json.list, JoinMode.toJson, JoinMode.word]
  · simp [Json.nullable]
  · simp [drafts, Json.list, Json.nullable]

theorem reads_written_drafts : parse? draftsJson.compact = some drafts ∧
    parse? draftsJson.pretty = some drafts ∧
    parse? ("\n " ++ draftsJson.compact) = some drafts := by
  obtain ⟨compact, pretty, any⟩ := (reads_written drafts).2 draftsJson drafts_written
  have blank : Json.Blank ['\n', ' '] := by decide
  have writes := Json.Writes.blank blank (Json.writes_compact drafts_written.spellable)
  refine ⟨compact, pretty, any _ ?_⟩
  rw [String.toList_append]
  exact writes

end Rejoin.Definition
