import Rejoin.Json.Basic

/-!
# Reading records and variants

A record of declared fields is spelled as an object or as the array of its
values in the declared order.  In an object, fields that are not declared are
passed over and a declared one may stand at most once; in an array, values may
be missing at the end but not in excess.  A value of a variant type is an
object with exactly one member, whose key names the variant.
-/

namespace Rejoin.Json

/-- The declared fields that a record gives, each at most once. -/
structure Fields where
  given : List (String × Json)

/-- The members of an object, if every key is a text. -/
def named? (members : List Member) : Option (List (String × Json)) :=
  members.mapM (fun member => member.1.map (fun key => (key, member.2)))

/-- The fields of a value read as a record of the declared names. -/
def fields? (declared : List String) : Json → Option Fields
  | scalar _ => none
  | array items =>
      if items.length ≤ declared.length then some ⟨declared.zip items⟩ else none
  | object members =>
      (named? members).bind (fun named =>
        let known := named.filter (fun field => declared.contains field.1)
        if (known.map Prod.fst).Nodup then some ⟨known⟩ else none)

namespace Fields

def value? (fields : Fields) (name : String) : Option Json :=
  fields.given.lookup name

/-- A field that has to be given. -/
def required? {α : Type} (fields : Fields) (name : String) (decode : Json → Option α) :
    Option α :=
  (fields.value? name).bind decode

/-- A field that has a default. -/
def optional? {α : Type} (fields : Fields) (name : String) (default : α)
    (decode : Json → Option α) : Option α :=
  match fields.value? name with
  | some value => decode value
  | none => some default

end Fields

/-- The name and the content of a variant. -/
def variant? : Json → Option (String × Json)
  | object [(some name, content)] => some (name, content)
  | _ => none

def text? : Json → Option String
  | scalar (.string text) => text
  | _ => none

def bool? : Json → Option Bool
  | scalar (.bool value) => some value
  | _ => none

def isNull : Json → Bool
  | scalar .null => true
  | _ => false

/-- Null or a value. -/
def nullable? {α : Type} (decode : Json → Option α) (value : Json) : Option (Option α) :=
  if value.isNull then some none else (decode value).map some

def list? {α : Type} (decode : Json → Option α) : Json → Option (List α)
  | array items => items.mapM decode
  | _ => none

theorem named?_record (fields : List (String × Json)) :
    named? (fields.map (fun field => (some field.1, field.2))) = some fields := by
  simp only [named?]
  induction fields with
  | nil => rfl
  | cons field rest ih => simp [List.mapM_cons, ih]

/-- A record that is written with declared fields only, each once, is read as those fields. -/
theorem fields?_record {declared : List String} {fields : List (String × Json)}
    (known : ∀ name ∈ fields.map Prod.fst, name ∈ declared)
    (distinct : (fields.map Prod.fst).Nodup) :
    (record fields).fields? declared = some ⟨fields⟩ := by
  have all : fields.filter (fun field => declared.contains field.1) = fields := by
    rw [List.filter_eq_self]
    intro field among
    simpa using known field.1 (List.mem_map_of_mem among)
  simp only [record, fields?, named?_record, Option.bind_some, all, distinct, if_true]

@[simp] theorem text?_text (value : String) : (text value).text? = some value := rfl

@[simp] theorem bool?_bool (value : Bool) : (bool value).bool? = some value := rfl

@[simp] theorem isNull_text (value : String) : (text value).isNull = false := rfl

@[simp] theorem isNull_list {α : Type} (encode : α → Json) (values : List α) :
    (list encode values).isNull = false := rfl

theorem nullable?_nullable {α : Type} {encode : α → Json} {decode : Json → Option α}
    (read : ∀ value, decode (encode value) = some value)
    (distinct : ∀ value, (encode value).isNull = false) (held : Option α) :
    nullable? decode (nullable encode held) = some held := by
  cases held with
  | none => rfl
  | some value => simp [nullable?, nullable, distinct, read]

theorem list?_list {α : Type} {encode : α → Json} {decode : Json → Option α}
    (read : ∀ value, decode (encode value) = some value) (values : List α) :
    list? decode (list encode values) = some values := by
  simp only [list?, list]
  induction values with
  | nil => rfl
  | cons value rest ih => simp [List.mapM_cons, read, ih]

end Rejoin.Json
