import Rejoin.Json.Basic
import Rejoin.Json.Numeral
import Rejoin.Json.Quoted

/-!
# From characters to tokens

The scanner takes one character at a time.  Between tokens it passes over the
four blanks; a run of other characters is a word, which must be `null`, `true`,
`false` or a number; a quote opens a string.
-/

namespace Rejoin.Json

/-- The characters that may stand between any two tokens. -/
def isBlank (c : Char) : Bool :=
  c == ' ' || c == '\t' || c == '\n' || c == '\x0d'

/-- The token a punctuation character is. -/
def punctuation? : Char → Option Token
  | '[' => some .beginArray
  | ']' => some .endArray
  | '\x7b' => some .beginObject
  | '\x7d' => some .endObject
  | ':' => some .colon
  | ',' => some .comma
  | _ => none

/-- The value a word stands for. -/
def Scalar.ofWord? (letters : List Char) : Option Scalar :=
  if letters = ['n', 'u', 'l', 'l'] then some .null
  else if letters = ['t', 'r', 'u', 'e'] then some (.bool true)
  else if letters = ['f', 'a', 'l', 's', 'e'] then some (.bool false)
  else if isNumeral letters then some (.number (String.ofList letters))
  else none

/-- What the scanner is inside of; what it has collected there is kept latest first. -/
inductive Inside where
  | nothing
  | word (letters : List Char)
  | quotes (pieces : List Piece)
  | escape (pieces : List Piece)
  | unit (pieces : List Piece) (digits value : Nat)
  deriving DecidableEq, Repr

/-- The tokens found so far, latest first, and what is being read. -/
structure Scanner where
  found : List Token
  inside : Inside
  deriving DecidableEq, Repr

namespace Scanner

def start : Scanner :=
  ⟨[], .nothing⟩

/-- Ends a word, if one is being read. -/
def endWord? (scanner : Scanner) : Option Scanner :=
  match scanner.inside with
  | .nothing => some scanner
  | .word letters =>
      (Scalar.ofWord? letters.reverse).map
        (fun value => ⟨.scalar value :: scanner.found, .nothing⟩)
  | _ => none

/-- Reads one character outside of strings. -/
def plain? (scanner : Scanner) (c : Char) : Option Scanner :=
  if isBlank c then scanner.endWord?
  else if c = '"' then
    scanner.endWord?.map (fun ended => ⟨ended.found, .quotes []⟩)
  else
    match punctuation? c with
    | some token => scanner.endWord?.map (fun ended => ⟨token :: ended.found, .nothing⟩)
    | none =>
        match scanner.inside with
        | .word letters => some ⟨scanner.found, .word (c :: letters)⟩
        | _ => some ⟨scanner.found, .word [c]⟩

/-- Reads one character. -/
def step? (scanner : Scanner) (c : Char) : Option Scanner :=
  match scanner.inside with
  | .nothing => scanner.plain? c
  | .word _ => scanner.plain? c
  | .quotes pieces =>
      if c = '"' then
        some ⟨.scalar (.string (textOf? pieces.reverse)) :: scanner.found, .nothing⟩
      else if c = '\\' then some ⟨scanner.found, .escape pieces⟩
      else if isControl c then none
      else some ⟨scanner.found, .quotes (.char c :: pieces)⟩
  | .escape pieces =>
      if c = 'u' then some ⟨scanner.found, .unit pieces 0 0⟩
      else (unescape? c).map (fun meant => ⟨scanner.found, .quotes (.char meant :: pieces)⟩)
  | .unit pieces digits value =>
      (Hexadecimal.value? c).map (fun digit =>
        if digits < 3 then ⟨scanner.found, .unit pieces (digits + 1) (value * 16 + digit)⟩
        else ⟨scanner.found, .quotes (.unit (value * 16 + digit) :: pieces)⟩)

def run? (scanner : Scanner) : List Char → Option Scanner
  | [] => some scanner
  | c :: rest => (scanner.step? c).bind (fun next => next.run? rest)

theorem run?_append (scanner : Scanner) (first second : List Char) :
    scanner.run? (first ++ second) =
      (scanner.run? first).bind (fun next => next.run? second) := by
  induction first generalizing scanner with
  | nil => rfl
  | cons c rest ih =>
      simp only [List.cons_append, run?]
      cases scanner.step? c with
      | none => rfl
      | some next => exact ih next

end Scanner

/-- The tokens of a text. -/
def scan? (text : List Char) : Option (List Token) :=
  ((Scanner.start.run? text).bind Scanner.endWord?).map (fun ended => ended.found.reverse)

end Rejoin.Json
