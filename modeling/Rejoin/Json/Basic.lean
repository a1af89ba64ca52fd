/-!
# JSON values and their tokens

A value is kept as it is written: numbers by their lexeme, objects as the list
of their members in order with repetitions.  A string of the format is a
sequence of 16-bit units, and one that leaves a surrogate unpaired is not a
text; such a string is `none`.
-/

namespace Rejoin

namespace Json

/-- A value without parts. -/
inductive Scalar where
  | null
  | bool (value : Bool)
  | number (lexeme : String)
  | string (text : Option String)
  deriving DecidableEq, Repr

/-- The pieces a written value consists of. -/
inductive Token where
  | scalar (value : Scalar)
  | beginArray
  | endArray
  | beginObject
  | endObject
  | colon
  | comma
  deriving DecidableEq, Repr

end Json

/-- A value of the format. -/
inductive Json where
  | scalar (value : Json.Scalar)
  | array (items : List Json)
  | object (members : List (Option String × Json))

namespace Json

/-- A named value of an object. -/
abbrev Member := Option String × Json

def null : Json := scalar .null

def bool (value : Bool) : Json := scalar (.bool value)

def text (value : String) : Json := scalar (.string (some value))

def natural (value : Nat) : Json := scalar (.number value.repr)

/-- The object of the given fields, in that order. -/
def record (fields : List (String × Json)) : Json :=
  object (fields.map (fun field => (some field.1, field.2)))

/-- A value, or null. -/
def nullable {α : Type} (encode : α → Json) : Option α → Json
  | some value => encode value
  | none => null

def list {α : Type} (encode : α → Json) (values : List α) : Json :=
  array (values.map encode)

mutual

/-- The tokens of a value, in the order they are written. -/
def tokens : Json → List Token
  | scalar value => [.scalar value]
  | array [] => [.beginArray, .endArray]
  | array (item :: items) => .beginArray :: (tokens item ++ itemTokens items)
  | object [] => [.beginObject, .endObject]
  | object ((key, value) :: members) =>
      .beginObject :: .scalar (.string key) :: .colon :: (tokens value ++ memberTokens members)

/-- The tokens that follow the first item of an array. -/
def itemTokens : List Json → List Token
  | [] => [.endArray]
  | item :: items => .comma :: (tokens item ++ itemTokens items)

/-- The tokens that follow the first member of an object. -/
def memberTokens : List (Option String × Json) → List Token
  | [] => [.endObject]
  | (key, value) :: members =>
      .comma :: .scalar (.string key) :: .colon :: (tokens value ++ memberTokens members)

end

end Json

end Rejoin
