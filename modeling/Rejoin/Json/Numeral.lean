/-!
# Numbers

A number is kept by its lexeme, which has to have the form
`-? (0 | [1-9][0-9]*) (. [0-9]+)? ([eE] [+-]? [0-9]+)?`.
-/

namespace Rejoin.Json

/-- One or more digits and nothing else. -/
def isDigits (letters : List Char) : Bool :=
  !letters.isEmpty && letters.all Char.isDigit

/-- Nothing, or an exponent part. -/
def isExponent : List Char → Bool
  | [] => true
  | mark :: '+' :: digits => (mark == 'e' || mark == 'E') && isDigits digits
  | mark :: '-' :: digits => (mark == 'e' || mark == 'E') && isDigits digits
  | mark :: digits => (mark == 'e' || mark == 'E') && isDigits digits

/-- What may follow the integer part: a fraction, an exponent, both or neither. -/
def isFraction : List Char → Bool
  | '.' :: rest =>
      isDigits (rest.takeWhile Char.isDigit) && isExponent (rest.dropWhile Char.isDigit)
  | rest => isExponent rest

/-- An unsigned number, whose integer part has no superfluous zero. -/
def isUnsigned : List Char → Bool
  | [] => false
  | '0' :: rest => isFraction rest
  | digit :: rest => digit.isDigit && isFraction (rest.dropWhile Char.isDigit)

/-- Whether letters form a number. -/
def isNumeral : List Char → Bool
  | '-' :: rest => isUnsigned rest
  | letters => isUnsigned letters

end Rejoin.Json
