/-
Rounding of exact quotients to binary64: to the nearest number, and of two equally near ones
to the one with the even code. All arithmetic goes through `Double.round`.
-/
import Slowdown.Double.Basic

namespace Slowdown

/-- The integer nearest to `a / d`, a half going to the even neighbour. -/
def roundHalfEven (a d : Nat) : Nat :=
  let q := a / d
  let twice := 2 * (a % d)
  if twice < d then q
  else if d < twice then q + 1
  else if q % 2 = 0 then q else q + 1

namespace Double

/-- The code of the number nearest to `a / d` units. Below `2^53` units the codes are the units
themselves; each further doubling of the quotient halves the resolution. -/
def nearestCode (a d : Nat) : Nat :=
  let shift := (a / d).log2 - 52
  min infinityCode (shift * binade + roundHalfEven a (d <<< shift))

theorem nearestCode_le (a d : Nat) : nearestCode a d ≤ infinityCode :=
  Nat.min_le_left _ _

/-- The number nearest to `± a / d` units. -/
def round (negative : Bool) (a d : Nat) : Double :=
  ⟨negative, nearestCode a d, Nat.lt_of_le_of_lt (nearestCode_le a d) (by decide)⟩

end Double

end Slowdown
