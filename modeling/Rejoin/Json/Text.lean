import Rejoin.Json.Scan
import Rejoin.Json.Tree

/-!
# Texts of values

`Json.parse?` reads a whole text as one value.  A value is written either
compactly, as its tokens with nothing between them, or spread over lines with
two blanks of indentation.
-/

namespace Rejoin.Json

/-- The value written by a text, with blanks wherever tokens meet and nothing else around it. -/
def parse? (text : String) : Option Json :=
  (scan? text.toList).bind ofTokens?

/-- The characters of a string between its quotes.  A string without a text is a lone surrogate. -/
def quoted : Option String → List Char
  | some text => text.toList.flatMap escape
  | none => ['\\', 'u', 'd', '8', '0', '0']

def Scalar.spelling : Scalar → List Char
  | .null => ['n', 'u', 'l', 'l']
  | .bool true => ['t', 'r', 'u', 'e']
  | .bool false => ['f', 'a', 'l', 's', 'e']
  | .number lexeme => lexeme.toList
  | .string text => '"' :: (quoted text ++ ['"'])

/-- The characters of one token. -/
def Token.spelling : Token → List Char
  | .scalar value => value.spelling
  | .beginArray => ['[']
  | .endArray => [']']
  | .beginObject => ['\x7b']
  | .endObject => ['\x7d']
  | .colon => [':']
  | .comma => [',']

/-- The text of a value without blanks. -/
def compact (value : Json) : String :=
  String.ofList (value.tokens.flatMap Token.spelling)

/-- A new line, indented for a nesting depth. -/
def newLine (depth : Nat) : List Char :=
  '\n' :: List.replicate (2 * depth) ' '

mutual

/-- The characters of a value at a nesting depth, one item or member to a line. -/
def spread (depth : Nat) : Json → List Char
  | scalar value => value.spelling
  | array [] => ['[', ']']
  | array (item :: items) =>
      '[' :: (newLine (depth + 1) ++ spread (depth + 1) item ++ spreadItems depth items)
  | object [] => ['\x7b', '\x7d']
  | object ((key, value) :: members) =>
      '\x7b' :: (newLine (depth + 1) ++ (Scalar.string key).spelling ++ [':', ' '] ++
        spread (depth + 1) value ++ spreadMembers depth members)

def spreadItems (depth : Nat) : List Json → List Char
  | [] => newLine depth ++ [']']
  | item :: items =>
      ',' :: (newLine (depth + 1) ++ spread (depth + 1) item ++ spreadItems depth items)

def spreadMembers (depth : Nat) : List (Option String × Json) → List Char
  | [] => newLine depth ++ ['\x7d']
  | (key, value) :: members =>
      ',' :: (newLine (depth + 1) ++ (Scalar.string key).spelling ++ [':', ' '] ++
        spread (depth + 1) value ++ spreadMembers depth members)

end

/-- The text of a value spread over lines. -/
def pretty (value : Json) : String :=
  String.ofList (spread 0 value)

end Rejoin.Json
