import Rejoin.Hexadecimal

/-!
# Strings between quotes

A string is written character by character: quotes, backslashes and control
characters below U+0020 are escaped, everything else stands for itself.  On
reading, an escape `\u` gives one 16-bit unit, and two units in a row may form
a surrogate pair.  A surrogate without its partner leaves the string without a
text.
-/

namespace Rejoin.Json

/-- Control characters may stand in no string, not even in one that is skipped. -/
def isControl (c : Char) : Bool :=
  c.toNat < 0x20

/-- The way one character is written between quotes. -/
def escape (c : Char) : List Char :=
  match c with
  | '"' => ['\\', '"']
  | '\\' => ['\\', '\\']
  | '\x08' => ['\\', 'b']
  | '\x0c' => ['\\', 'f']
  | '\n' => ['\\', 'n']
  | '\x0d' => ['\\', 'r']
  | '\t' => ['\\', 't']
  | c =>
      if isControl c then
        ['\\', 'u', '0', '0', Hexadecimal.digit (c.toNat / 16), Hexadecimal.digit (c.toNat % 16)]
      else [c]

/-- The character that a one-letter escape stands for. -/
def unescape? : Char → Option Char
  | '"' => some '"'
  | '\\' => some '\\'
  | '/' => some '/'
  | 'b' => some '\x08'
  | 'f' => some '\x0c'
  | 'n' => some '\n'
  | 'r' => some '\x0d'
  | 't' => some '\t'
  | _ => none

/-- What a string is read as, piece by piece. -/
inductive Piece where
  | char (value : Char)
  | unit (value : Nat)
  deriving DecidableEq, Repr

def isHighSurrogate (unit : Nat) : Bool :=
  0xD800 ≤ unit && unit ≤ 0xDBFF

def isLowSurrogate (unit : Nat) : Bool :=
  0xDC00 ≤ unit && unit ≤ 0xDFFF

/-- The character of a surrogate pair. -/
def pairedChar (high low : Nat) : Char :=
  Char.ofNat (0x10000 + (high - 0xD800) * 0x400 + (low - 0xDC00))

/-- The characters that pieces spell, unless a surrogate stands alone among them. -/
def spelled? : List Piece → Option (List Char)
  | [] => some []
  | .char c :: rest => (spelled? rest).map (c :: ·)
  | .unit high :: .unit low :: rest =>
      if isHighSurrogate high then
        if isLowSurrogate low then (spelled? rest).map (pairedChar high low :: ·) else none
      else if isLowSurrogate high then none
      else (spelled? (.unit low :: rest)).map (Char.ofNat high :: ·)
  | .unit unit :: rest =>
      if isHighSurrogate unit || isLowSurrogate unit then none
      else (spelled? rest).map (Char.ofNat unit :: ·)

/-- The text that pieces spell. -/
def textOf? (pieces : List Piece) : Option String :=
  (spelled? pieces).map String.ofList

theorem spelled?_chars (characters : List Char) :
    spelled? (characters.map Piece.char) = some characters := by
  induction characters with
  | nil => rfl
  | cons c rest ih => simp [spelled?, ih]

end Rejoin.Json
