import Rejoin.Proofs.Definition.Text
import Rejoin.Proofs.Json.Format
import Rejoin.Proofs.Json.Parse

/-!
# Spellings of definitions

The format of a definition follows its decoder down to the columns of schemas
and the operands of conditions.  A text that holds a definition may be respelled
at any of its records and variants at once, and holds the same definition; a
text that says something twice or goes on after its end holds none.
-/

namespace Rejoin

open Json (Decodes Format ListAlike RecordAlike RecordAmbiguous VariantAlike list? nullable? text?)

/-! ## The formats of the parts -/

def Column.format : Format :=
  .record [⟨"name", none, .plain⟩, ⟨"type", none, .plain⟩]

theorem Column.decodes : Decodes Column.ofJson? Column.format :=
  .record (.next (.required "name" (.plain text?)) fun _ =>
    .next (.required "type" (.plain text?)) fun _ => .done _) (by decide)

def Schema.format : Format :=
  .record [⟨"name", none, .plain⟩, ⟨"primary_key", none, .plain⟩,
    ⟨"columns", none, .list Column.format⟩]

theorem Schema.decodes : Decodes Schema.ofJson? Schema.format :=
  .record (.next (.required "name" (.plain text?)) fun _ =>
    .next (.required "primary_key" (.plain (list? text?))) fun _ =>
    .next (.required "columns" Column.decodes.list) fun _ => .done _) (by decide)

def Literal.format : Format :=
  .record [⟨"id", none, .plain⟩, ⟨"value", none, .plain⟩]

theorem Literal.decodes : Decodes Literal.ofJson? Literal.format :=
  .record (.next (.required "id" (.plain text?)) fun _ =>
    .next (.required "value" (.plain text?)) fun _ => .done _) (by decide)

/-- A mode that is written as a variant has no content. -/
def JoinMode.format : Format :=
  .variants [("main", .plain), ("inner", .plain), ("left", .plain)]

theorem JoinMode.decodes : Decodes JoinMode.ofJson? JoinMode.format :=
  .variants (by simpa using ⟨.plain _, .plain _, .plain _⟩) fun value unnamed untold => by
    simp [JoinMode.ofJson?, unnamed, untold]

namespace Definition

def refFormat : Format :=
  .record [⟨"alias", none, .plain⟩, ⟨"column", none, .plain⟩]

theorem refOfJson?_decodes : Decodes refOfJson? refFormat :=
  .record (.next (.required "alias" (.plain text?)) fun _ =>
    .next (.required "column" (.plain text?)) fun _ => .done _) (by decide)

def literalIdFormat : Format :=
  .record [⟨"id", none, .plain⟩]

theorem literalIdOfJson?_decodes : Decodes literalIdOfJson? literalIdFormat :=
  .record (.required "id" (.plain text?)) (by decide)

def operandFormat : Format :=
  .variants [("reference", refFormat), ("literal", literalIdFormat)]

theorem operandOfJson?_decodes : Decodes operandOfJson? operandFormat := by
  refine .variants ?_ fun value unnamed _ => by simp [operandOfJson?, unnamed]
  simp only [List.forall_mem_cons]
  refine ⟨?_, ?_, List.forall_mem_nil _⟩
  · exact refOfJson?_decodes.map Operand.reference
  · exact literalIdOfJson?_decodes.map Operand.literal

def conditionFormat : Format :=
  .record [⟨"left", none, operandFormat⟩, ⟨"right", none, operandFormat⟩]

theorem conditionOfJson?_decodes : Decodes conditionOfJson? conditionFormat :=
  .record (.next (.required "left" operandOfJson?_decodes) fun _ =>
    .next (.required "right" operandOfJson?_decodes) fun _ => .done _) (by decide)

def computationFormat : Format :=
  .record [⟨"expression", none, .plain⟩, ⟨"literal", some .null, .plain⟩]

theorem computationOfJson?_decodes : Decodes computationOfJson? computationFormat :=
  .record (.next (.required "expression" (.plain text?)) fun _ =>
    .next (.optional "literal" (.plain (nullable? text?)) rfl) fun _ => .done _) (by decide)

def originFormat : Format :=
  .variants [("reference", refFormat), ("computation", computationFormat)]

theorem originOfJson?_decodes : Decodes originOfJson? originFormat := by
  refine .variants ?_ fun value unnamed _ => by simp [originOfJson?, unnamed]
  simp only [List.forall_mem_cons]
  refine ⟨?_, ?_, List.forall_mem_nil _⟩
  · exact refOfJson?_decodes.map Origin.reference
  · exact computationOfJson?_decodes

def columnFormat : Format :=
  .record [⟨"name", none, .plain⟩, ⟨"source", none, originFormat⟩]

theorem columnOfJson?_decodes : Decodes columnOfJson? columnFormat :=
  .record (.next (.required "name" (.plain text?)) fun _ =>
    .next (.required "source" originOfJson?_decodes) fun _ => .done _) (by decide)

def Source.format : Format :=
  .record [⟨"alias", none, .plain⟩, ⟨"table", none, .plain⟩, ⟨"mode", none, JoinMode.format⟩,
    ⟨"schema", none, Schema.format⟩, ⟨"conditions", some (.array []), .list conditionFormat⟩]

theorem Source.decodes : Decodes Source.ofJson? Source.format :=
  .record (.next (.required "alias" (.plain text?)) fun _ =>
    .next (.required "table" (.plain text?)) fun _ =>
    .next (.required "mode" JoinMode.decodes) fun _ =>
    .next (.required "schema" Schema.decodes) fun _ =>
    .next (.optional "conditions" conditionOfJson?_decodes.list rfl) fun _ => .done _) (by decide)

/-! ## Whole definitions -/

def format : Format :=
  .record [⟨"name", none, .plain⟩, ⟨"sources", none, .list Source.format⟩,
    ⟨"columns", some (.array []), .list columnFormat⟩, ⟨"filter", some .null, .plain⟩,
    ⟨"literals", some (.array []), .list Literal.format⟩, ⟨"key", some .null, .plain⟩]

theorem decodes : Decodes ofJson? format :=
  .record (.next (.required "name" (.plain text?)) fun _ =>
    .next (.required "sources" Source.decodes.list) fun _ =>
    .next (.optional "columns" columnOfJson?_decodes.list rfl) fun _ =>
    .next (.optional "filter" (.plain (nullable? text?)) rfl) fun _ =>
    .next (.optional "literals" Literal.decodes.list rfl) fun _ =>
    .next (.optional "key" (.plain (nullable? (list? text?))) rfl) fun _ => .done _) (by decide)

theorem parse?_of_lexes {value : Json} {text : String}
    (lexes : Json.Lexes value.tokens text.toList) : parse? text = ofJson? value := by
  rw [parse?, Json.parse?_lexes lexes, Option.bind_some]

/--
A text that holds a definition is a text of exactly one value, and every text of
every spelling of this value holds the same definition.  A text of an ambiguous
value holds none, and neither does a text that goes on with more than blanks.
-/
theorem reads_any_spelling {text : String} {definition : Definition}
    (read : parse? text = some definition) :
    (∃ value, (∀ other : Json, Json.Lexes other.tokens text.toList ↔ other = value) ∧
      ∀ other, format.Alike value other →
        ∀ respelled : String, Json.Lexes other.tokens respelled.toList →
          parse? respelled = some definition) ∧
    (∀ value, format.Ambiguous value →
      ∀ ambiguous : String, Json.Lexes value.tokens ambiguous.toList → parse? ambiguous = none) ∧
    ∀ tail : String, ¬ Json.Blank tail.toList → parse? (text ++ tail) = none := by
  obtain ⟨value, parsed, decoded⟩ := Option.bind_eq_some_iff.1 read
  refine ⟨⟨value, fun other => ?_, fun other alike respelled lexes => ?_⟩,
    fun value ambiguous text lexes => ?_, fun tail more => ?_⟩
  · rw [← Json.parse?_eq_some_iff, parsed, Option.some.injEq, eq_comm]
  · rw [parse?_of_lexes lexes]
    exact decodes.respects alike decoded
  · rw [parse?_of_lexes lexes]
    exact decodes.rejects ambiguous
  · have closed : ∀ held, value ≠ .scalar held := by
      rintro held rfl
      cases decoded
    rw [parse?, Json.parse?_append_eq_none parsed closed more, Option.bind_none]

/-- The drafts with most records as arrays, other fields first and one that is not known. -/
def draftsRespelled : Json :=
  .record [("columns", .array [.array [.text "length",
      .record [("computation", .array [.text "LENGTH", .null])]]]),
    ("comment", .record [("name", .array [.scalar (.number "1e999")]), ("name", .null)]),
    ("name", .text "drafts"),
    ("sources", .array [.array [.text "note", .text "notes", .text "main", Schema.notes.toJson,
      .array []]])]

theorem draftsRespelled_alike : format.Alike draftsJson draftsRespelled := by
  have computation : computationFormat.Alike (.record [("expression", .text "LENGTH")])
      (.array [.text "LENGTH", .null]) :=
    RecordAlike.listed (.cons (.given (by simp) rfl) (.cons (.defaulted (by simp) rfl) .nil))
  have origin : originFormat.Alike
      (.record [("computation", .record [("expression", .text "LENGTH")])])
      (.record [("computation", .array [.text "LENGTH", .null])]) :=
    VariantAlike.content (by simp) computation
  have column : columnFormat.Alike
      (.record [("name", .text "length"),
        ("source", .record [("computation", .record [("expression", .text "LENGTH")])])])
      (.array [.text "length", .record [("computation", .array [.text "LENGTH", .null])]]) :=
    RecordAlike.listed (.cons (.given (by simp) rfl) (.cons (.given (by simp) origin) .nil))
  have source : Source.format.Alike
      (.record [("alias", .text "note"), ("table", .text "notes"), ("mode", .text "main"),
        ("schema", Schema.notes.toJson)])
      (.array [.text "note", .text "notes", .text "main", Schema.notes.toJson, .array []]) :=
    RecordAlike.listed (.cons (.given (by simp) rfl) (.cons (.given (by simp) rfl)
      (.cons (.given (by simp) (.same _)) (.cons (.given (by simp) (.same _))
        (.cons (.defaulted (by simp) rfl) .nil)))))
  have columns : (Format.list columnFormat).Alike _ _ := ListAlike.array (.cons column .nil)
  have sources : (Format.list Source.format).Alike _ _ := ListAlike.array (.cons source .nil)
  exact RecordAlike.object
    (.cons (.same _) (.cons (.declared (.tail _ (.head _)) sources)
      (.cons (.declared (.tail _ (.tail _ (.head _))) columns) .nil)))
    (List.forall_mem_singleton.2 ⟨"comment", rfl, by decide⟩)
    (@List.perm_append_comm _ [_, _] [_, _])

theorem draftsRespelled_spellable : draftsRespelled.Spellable := by
  have number : (Json.scalar (.number "1e999")).Spellable := Json.spellable_scalar (.word rfl)
  have comment : (Json.record [("name", .array [.scalar (.number "1e999")]),
      ("name", .null)]).Spellable :=
    Json.spellable_record (by simp [Json.spellable_array, Json.spellable_null, number])
  have origin : (Json.record [("computation", .array [.text "LENGTH", .null])]).Spellable :=
    Json.spellable_record
      (by simp [Json.spellable_array, Json.spellable_text, Json.spellable_null])
  exact Json.spellable_record (by
    simp [Json.spellable_array, Json.spellable_text, Schema.spellable_toJson, origin, comment])

/-- A definition that is named twice. -/
def namedTwice : Json :=
  .record [("name", .text "drafts"), ("sources", .array []), ("name", .text "drafts")]

theorem reads_any_spelling_drafts : parse? draftsJson.compact = some drafts ∧
    parse? draftsRespelled.compact = some drafts ∧ parse? namedTwice.compact = none ∧
    parse? (draftsJson.compact ++ " null") = none := by
  have writes := Json.writes_compact drafts_written.spellable
  have read := parse?_of_writes drafts_written writes
  obtain ⟨⟨value, only, respells⟩, rejects, ends⟩ := reads_any_spelling read
  obtain rfl : draftsJson = value := (only draftsJson).1 writes.lexes
  refine ⟨read, ?_, ?_, ends " null" (by decide)⟩
  · exact respells draftsRespelled draftsRespelled_alike _
      (Json.writes_compact draftsRespelled_spellable).lexes
  · have ambiguous : format.Ambiguous namedTwice := RecordAmbiguous.repeated (.head _) (by decide)
    have spellable : namedTwice.Spellable :=
      Json.spellable_record (by simp [Json.spellable_text, Json.spellable_array])
    exact rejects namedTwice ambiguous _ (Json.writes_compact spellable).lexes

end Definition

end Rejoin
