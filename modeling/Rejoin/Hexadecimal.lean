/-!
# Hexadecimal digits

Digits are written in lowercase and read in either case.
-/

namespace Rejoin.Hexadecimal

/-- The digit of a value below sixteen. -/
def digit (value : Nat) : Char :=
  ['0', '1', '2', '3', '4', '5', '6', '7', '8', '9', 'a', 'b', 'c', 'd', 'e', 'f'].getD value '0'

/-- The value of a digit of either case. -/
def value? (c : Char) : Option Nat :=
  if '0' ≤ c ∧ c ≤ '9' then some (c.toNat - '0'.toNat)
  else if 'a' ≤ c ∧ c ≤ 'f' then some (c.toNat - 'a'.toNat + 10)
  else if 'A' ≤ c ∧ c ≤ 'F' then some (c.toNat - 'A'.toNat + 10)
  else none

/-- Two digits for every byte. -/
def ofBytes (bytes : List UInt8) : String :=
  String.ofList (bytes.flatMap
    (fun byte => [digit (byte.toNat / 16), digit (byte.toNat % 16)]))

theorem value?_digit : ∀ value < 16, value? (digit value) = some value := by
  decide

end Rejoin.Hexadecimal
