import Rejoin.Digest.Fingerprint
import Rejoin.Proofs.Json.Record
import Rejoin.Proofs.Json.Text

/-!
# The text under a fingerprint

No part of a view is lost when it is written: each encoder is injective, and a
value is read back from its compact text.  So the text of a view stands for that
view alone, and a fingerprint is shared by two views only if MD5 has the same
digest for two texts.
-/

namespace Rejoin

/-! ## Nothing is lost -/

theorem Literal.toJson_injective : Function.Injective Literal.toJson :=
  Json.injective_of_read Literal.ofJson?_toJson

theorem Schema.toJson_injective : Function.Injective Schema.toJson :=
  Json.injective_of_read Schema.ofJson?_toJson

theorem JoinMode.toJson_injective : Function.Injective JoinMode.toJson :=
  Json.injective_of_read JoinMode.ofJson?_toJson

namespace View

theorem refToJson_injective : Function.Injective refToJson := by
  rintro ⟨source, column⟩ ⟨other, name⟩ same
  simpa [refToJson, Json.record_inj, Json.natural_injective.eq_iff, Json.text_injective.eq_iff]
    using same

theorem operandToJson_injective : Function.Injective operandToJson := by
  rintro (column | literal) (other | another) same <;>
    simp [operandToJson, Json.record_inj, refToJson_injective.eq_iff,
      Literal.toJson_injective.eq_iff] at same
  · rw [same]
  · rw [same]

theorem conditionToJson_injective : Function.Injective conditionToJson := by
  rintro ⟨left, right⟩ ⟨first, second⟩ same
  simpa [conditionToJson, Json.record_inj, operandToJson_injective.eq_iff] using same

theorem originToJson_injective : Function.Injective originToJson := by
  rintro (column | ⟨expression, literal⟩) (other | ⟨another, bound⟩) same <;>
    simp [originToJson, Json.record_inj, refToJson_injective.eq_iff, Json.text_injective.eq_iff,
      (Json.nullable_injective Literal.toJson_injective fun _ => rfl).eq_iff] at same
  · rw [same]
  · rw [same.1, same.2]

theorem columnToJson_injective : Function.Injective columnToJson := by
  rintro ⟨name, origin⟩ ⟨other, another⟩ same
  simpa [columnToJson, Json.record_inj, Json.text_injective.eq_iff,
    originToJson_injective.eq_iff] using same

theorem Source.toJson_injective : Function.Injective Source.toJson := by
  rintro ⟨index, table, name, mode, schema, conditions⟩ ⟨_, _, _, _, _, _⟩ same
  simpa [Source.toJson, Json.record_inj, Json.natural_injective.eq_iff, Json.text_injective.eq_iff,
    JoinMode.toJson_injective.eq_iff, Schema.toJson_injective.eq_iff,
    (Json.list_injective conditionToJson_injective).eq_iff] using same

theorem toJson_injective : Function.Injective toJson := by
  rintro ⟨name, sources, columns, filter, literals, key⟩ ⟨_, _, _, _, _, _⟩ same
  simpa [toJson, Json.record_inj, Json.text_injective.eq_iff,
    (Json.list_injective Source.toJson_injective).eq_iff,
    (Json.list_injective columnToJson_injective).eq_iff,
    (Json.nullable_injective Json.text_injective Json.isNull_text).eq_iff,
    (Json.list_injective Literal.toJson_injective).eq_iff,
    (Json.nullable_injective (Json.list_injective Json.text_injective)
      (Json.isNull_list Json.text)).eq_iff] using same

end View

/-! ## Everything can be written -/

theorem Literal.spellable_toJson (literal : Literal) : literal.toJson.Spellable :=
  Json.spellable_record (by simp [Json.spellable_text])

theorem Column.spellable_toJson (column : Column) : column.toJson.Spellable :=
  Json.spellable_record (by simp [Json.spellable_text])

theorem Schema.spellable_toJson (schema : Schema) : schema.toJson.Spellable :=
  Json.spellable_record (by
    simp [Json.spellable_text, Json.spellable_list Json.spellable_text,
      Json.spellable_list Column.spellable_toJson])

theorem JoinMode.spellable_toJson (mode : JoinMode) : mode.toJson.Spellable :=
  Json.spellable_text mode.word

namespace View

theorem spellable_refToJson (ref : ColumnRef Nat) : (refToJson ref).Spellable :=
  Json.spellable_record (by simp [Json.spellable_text, Json.spellable_natural])

theorem spellable_operandToJson (operand : Operand Nat Literal) :
    (operandToJson operand).Spellable := by
  cases operand with
  | reference column => exact Json.spellable_record (by simp [spellable_refToJson])
  | literal value => exact Json.spellable_record (by simp [Literal.spellable_toJson])

theorem spellable_conditionToJson (condition : Condition Nat Literal) :
    (conditionToJson condition).Spellable :=
  Json.spellable_record (by simp [spellable_operandToJson])

theorem spellable_originToJson (origin : Origin Nat Literal) :
    (originToJson origin).Spellable := by
  cases origin with
  | reference column => exact Json.spellable_record (by simp [spellable_refToJson])
  | computation expression literal =>
      have content : (Json.record [("expression", .text expression),
          ("literal", .nullable Literal.toJson literal)]).Spellable :=
        Json.spellable_record
          (by simp [Json.spellable_text, Json.spellable_nullable Literal.spellable_toJson])
      exact Json.spellable_record (by simpa using content)

theorem spellable_columnToJson (column : OutputColumn Nat Literal) :
    (columnToJson column).Spellable :=
  Json.spellable_record (by simp [Json.spellable_text, spellable_originToJson])

theorem Source.spellable_toJson (source : Source) : source.toJson.Spellable :=
  Json.spellable_record (by
    simp [Json.spellable_text, Json.spellable_natural, JoinMode.spellable_toJson,
      Schema.spellable_toJson, Json.spellable_list spellable_conditionToJson])

theorem spellable_toJson (view : View) : view.toJson.Spellable :=
  Json.spellable_record (by
    simp [Json.spellable_text, Json.spellable_list Source.spellable_toJson,
      Json.spellable_list spellable_columnToJson, Json.spellable_nullable Json.spellable_text,
      Json.spellable_list Literal.spellable_toJson,
      Json.spellable_nullable (Json.spellable_list Json.spellable_text)])

/-! ## Digests -/

end View

namespace Hexadecimal

theorem digit_inj {first second : Nat} (small : first < 16) (others : second < 16) :
    digit first = digit second ↔ first = second := by
  refine ⟨fun same => ?_, congrArg digit⟩
  have read := value?_digit first small
  rw [same, value?_digit second others] at read
  exact (Option.some.inj read).symm

/-- The two digits of a byte give the byte. -/
theorem byte_inj {first second : UInt8} :
    (digit (first.toNat / 16) = digit (second.toNat / 16) ∧
      digit (first.toNat % 16) = digit (second.toNat % 16)) ↔ first = second := by
  have small := first.toNat_lt
  have others := second.toNat_lt
  rw [digit_inj (by omega) (by omega), digit_inj (by omega) (by omega), ← UInt8.toNat_inj]
  omega

theorem ofBytes_injective : Function.Injective ofBytes := by
  intro first second same
  rw [ofBytes, ofBytes, String.ofList_inj] at same
  induction first generalizing second with
  | nil =>
      cases second with
      | nil => rfl
      | cons byte rest => cases same
  | cons byte rest ih =>
      cases second with
      | nil => cases same
      | cons other others =>
          simp only [List.flatMap_cons, List.cons_append, List.nil_append, List.cons.injEq] at same
          obtain ⟨high, low, later⟩ := same
          rw [byte_inj.1 ⟨high, low⟩, ih later]

end Hexadecimal

namespace View

/--
The text under a fingerprint stands for one view, whatever it was assembled of.
A fingerprint is shared by equal views, and otherwise only by views whose
different texts have the same MD5 digest.
-/
theorem text_identifies (first second : View) :
    (first.text = second.text ↔ first = second) ∧
    (first.fingerprint = second.fingerprint ↔
      first = second ∨ first.text ≠ second.text ∧
        Md5.digest first.text.toUTF8.toList = Md5.digest second.text.toUTF8.toList) := by
  have texts : first.text = second.text ↔ first = second :=
    (Json.compact_inj first.spellable_toJson second.spellable_toJson).trans
      toJson_injective.eq_iff
  refine ⟨texts, ?_⟩
  rw [fingerprint, fingerprint, Hexadecimal.ofBytes_injective.eq_iff, ← texts]
  constructor
  · intro collide
    by_cases same : first.text = second.text
    · exact .inl same
    · exact .inr ⟨same, collide⟩
  · rintro (same | ⟨-, collide⟩)
    · rw [same]
    · exact collide

end View

end Rejoin
