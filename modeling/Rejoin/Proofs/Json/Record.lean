import Mathlib.Data.List.Nodup
import Rejoin.Json.Record
import Rejoin.Proofs.Traversal

/-!
# What records keep

Encoders of texts, numbers, lists and records are injective.  A field that holds
its default may be left out of a record: every field of the full record is still
read as its value, whichever of these are left out.
-/

namespace Rejoin.Json

/-! ## Encoders that lose nothing -/

variable {α : Type} {encode : α → Json}

/-- What is read back is told apart. -/
theorem injective_of_read {decode : Json → Option α}
    (read : ∀ value, decode (encode value) = some value) : Function.Injective encode := by
  intro first second same
  have found := read first
  rw [same, read second] at found
  exact (Option.some.inj found).symm

theorem text_injective : Function.Injective text :=
  injective_of_read text?_text

theorem natural_injective : Function.Injective natural := by
  intro first second same
  rw [natural, natural, scalar.injEq, Scalar.number.injEq] at same
  have digits : Nat.toDigits 10 first = Nat.toDigits 10 second := by
    rw [← Nat.toList_repr, same, Nat.toList_repr]
  rw [← Nat.ofDigitChars_ten_toDigits (n := first), digits, Nat.ofDigitChars_ten_toDigits]

theorem list_injective (lossless : Function.Injective encode) :
    Function.Injective (list encode) := by
  intro first second same
  rw [list, list, array.injEq] at same
  exact lossless.list_map same

theorem ne_null {value : Json} (distinct : value.isNull = false) : value ≠ null := by
  rintro rfl
  cases distinct

/-- A value that is written as null would not be told apart from an absent one. -/
theorem nullable_injective (lossless : Function.Injective encode)
    (distinct : ∀ value, (encode value).isNull = false) :
    Function.Injective (nullable encode) := by
  rintro (_ | first) (_ | second) same
  · rfl
  · exact absurd same.symm (ne_null (distinct second))
  · exact absurd same (ne_null (distinct first))
  · exact congrArg some (lossless same)

theorem nullable_eq_null (distinct : ∀ value, (encode value).isNull = false) {held : Option α} :
    nullable encode held = null ↔ held = none := by
  cases held with
  | none => exact iff_of_true rfl rfl
  | some value => exact iff_of_false (ne_null (distinct value)) (by simp)

theorem list_eq_array_nil {values : List α} : list encode values = array [] ↔ values = [] := by
  simp [list]

theorem record_inj {first second : List (String × Json)} :
    record first = record second ↔ first = second := by
  refine ⟨fun same => ?_, congrArg record⟩
  rw [record, record, object.injEq] at same
  refine Function.Injective.list_map (fun field other equal => ?_) same
  obtain ⟨name, value⟩ := Prod.mk.inj equal
  exact Prod.ext (Option.some.inj name) value

/-! ## Looking fields up -/

/-- Under distinct keys, what is found is what stands there. -/
theorem lookup_eq_some_iff_mem {entries : List (String × Json)}
    (distinct : (entries.map Prod.fst).Nodup) {name : String} {value : Json} :
    entries.lookup name = some value ↔ (name, value) ∈ entries := by
  induction entries with
  | nil => simp
  | cons entry rest ih =>
      obtain ⟨first, held⟩ := entry
      obtain ⟨fresh, distinct⟩ := List.nodup_cons.1 distinct
      rw [List.lookup_cons, List.mem_cons, Prod.mk.injEq]
      split
      · next same =>
          obtain rfl := eq_of_beq same
          have absent : (name, value) ∉ rest := fun among =>
            fresh (List.mem_map.2 ⟨_, among, rfl⟩)
          simp [absent, eq_comm]
      · next apart => simp [ih distinct, ne_of_beq_false apart]

/-! ## Fields that may be left out -/

/-- Fields of a record in their order, some of those that hold a default left out. -/
structure Omits (defaults full written : List (String × Json)) : Prop where
  kept : written.Sublist full
  defaulted : ∀ field ∈ full, field ∉ written → field ∈ defaults

namespace Omits

variable {defaults full written : List (String × Json)} {name : String} {value : Json}
  {decode : Json → Option α} {held default : α}

theorem refl (defaults full : List (String × Json)) : Omits defaults full full where
  kept := List.Sublist.refl full
  defaulted := fun _ among left => absurd among left

/-- The written fields are the given ones of the record. -/
theorem fields?_record (omits : Omits defaults full written) {declared : List String}
    (known : ∀ name ∈ full.map Prod.fst, name ∈ declared)
    (distinct : (full.map Prod.fst).Nodup) :
    (record written).fields? declared = some ⟨written⟩ :=
  Json.fields?_record (fun name among => known name ((omits.kept.map _).subset among))
    (distinct.sublist (omits.kept.map _))

/-- A field is found, or it holds its default and nothing is found in its place. -/
theorem lookup (omits : Omits defaults full written) (distinct : (full.map Prod.fst).Nodup)
    (among : (name, value) ∈ full) :
    written.lookup name = some value ∨
      written.lookup name = none ∧ (name, value) ∈ defaults := by
  have once : (written.map Prod.fst).Nodup := distinct.sublist (omits.kept.map _)
  by_cases kept : (name, value) ∈ written
  · exact .inl ((lookup_eq_some_iff_mem once).2 kept)
  · refine .inr ⟨Option.eq_none_iff_forall_ne_some.2 fun other found => ?_,
      omits.defaulted _ among kept⟩
    have stands := (lookup_eq_some_iff_mem once).1 found
    obtain rfl : other = value := congrArg Prod.snd
      (List.inj_on_of_nodup_map distinct (omits.kept.subset stands) among rfl)
    exact kept stands

/-- A field without a default is never left out. -/
theorem required? (omits : Omits defaults full written) (distinct : (full.map Prod.fst).Nodup)
    (name : String) (among : (name, value) ∈ full) (needed : name ∉ defaults.map Prod.fst)
    (read : decode value = some held) :
    Fields.required? ⟨written⟩ name decode = some held := by
  obtain found | ⟨-, defaulted⟩ := omits.lookup distinct among
  · rw [Fields.required?, Fields.value?, found, Option.bind_some, read]
  · exact absurd (List.mem_map_of_mem defaulted) needed

/-- A field that may be left out is read as its value, or else is its default. -/
theorem optional? (omits : Omits defaults full written) (distinct : (full.map Prod.fst).Nodup)
    (name : String) (default : α) (among : (name, value) ∈ full)
    (spare : (name, value) ∈ defaults → held = default) (read : decode value = some held) :
    Fields.optional? ⟨written⟩ name default decode = some held := by
  rw [Fields.optional?, Fields.value?]
  obtain found | ⟨missing, defaulted⟩ := omits.lookup distinct among
  · rw [found]
    exact read
  · rw [missing, spare defaulted]

end Omits

/-- A list is read from the values of its entries, however each is written. -/
theorem list?_array {decode : Json → Option α} {values : List α} {items : List Json}
    (read : List.Forall₂ (fun value item => decode item = some value) values items) :
    list? decode (array items) = some values :=
  mapM_eq_some_iff.2 read.flip

end Rejoin.Json
