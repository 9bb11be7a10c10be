/-
Digits of base sixteen.
-/

namespace Slowdown

namespace Text

/-- The number that a digit denotes, in either case. -/
def hexDigit? (c : Char) : Option Nat :=
  if '0' ≤ c ∧ c ≤ '9' then some (c.toNat - '0'.toNat)
  else if 'a' ≤ c ∧ c ≤ 'f' then some (c.toNat - 'a'.toNat + 10)
  else if 'A' ≤ c ∧ c ≤ 'F' then some (c.toNat - 'A'.toNat + 10)
  else none

/-- The digits of a number, in lower case. -/
def hex (n : Nat) : List Char := Nat.toDigits 16 n

end Text

end Slowdown
