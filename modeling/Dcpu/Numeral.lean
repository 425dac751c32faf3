/-! # Numerals

Numbers written in decimal digits. Leading zeros and one plus sign in front are allowed, and nothing
else is.
-/

namespace Dcpu.Numeral

/-- The number that decimal digits stand for. -/
def digits? (text : List Char) : Option Nat :=
  if text ≠ [] ∧ text.all Char.isDigit then
    some <| text.foldl (fun n digit => 10 * n + (digit.toNat - '0'.toNat)) 0
  else none

def natural? : List Char → Option Nat
  | '+' :: digits => digits? digits
  | digits => digits? digits

end Dcpu.Numeral
