/-
The value of a JSON numeral. Whole numbers of 64 bits are kept exactly. Every other numeral
becomes a double by few roundings: its first digits, as many as fit 64 bits, are one number, and
a power of ten scales it. Long or extreme numerals are therefore not always rounded to nearest.
-/
import Slowdown.Decimal.Numeral
import Slowdown.Double.Order

namespace Slowdown

namespace Json

/-- The value of a numeral: a whole number of 64 bits, or a double. -/
inductive Number where
  | whole (n : Int)
  | real (x : Double)
  deriving DecidableEq

namespace Number

/-- The double of a value; whole numbers are rounded only here. -/
def toDouble : Number → Double
  | whole n => .ofInt n
  | real x => x

/-- A numeral out of range has an infinite value. -/
def isFinite : Number → Bool
  | whole _ => true
  | real x => x.isFinite

/-! ## The significand -/

/-- A significand fits into 64 bits. -/
def significandLimit : Nat := 0x10000000000000000

/-- Takes digits into a significand below the limit; gives the significand and the digits that
no longer fit. -/
def absorb (significand : Nat) : List Digit → Nat × List Digit
  | [] => (significand, [])
  | d :: rest =>
    if 10 * significand + d < significandLimit then absorb (10 * significand + d) rest
    else (significand, d :: rest)

/-! ## Scaling -/

/-- The greatest power of ten by which one step scales. -/
def stepPower : Nat := 308

/-- A power of ten as a double; up to the 22nd it is exact. -/
def powerOfTen (n : Nat) : Double := .ofNat (tenTo n)

/-- Division by a power of ten, in steps if it is too great for one. -/
def shrink (x : Double) (power : Nat) : Double :=
  if power ≤ stepPower then x / powerOfTen power
  else if x.isZero then x
  else shrink (x / powerOfTen stepPower) (power - stepPower)
termination_by power
decreasing_by simp [stepPower] at *; omega

/-- Multiplication by a power of ten. -/
def grow (x : Double) (power : Nat) : Double :=
  if power ≤ stepPower then x * powerOfTen power
  else if x.isZero then x
  else .infinity false

/-- A double times a power of ten, by a quotient where the exponent is negative. -/
def scaled (x : Double) (exponent : Int) : Double :=
  if exponent < 0 then shrink x exponent.natAbs else grow x exponent.natAbs

/-! ## Numerals -/

/-- The range of exponents; a written exponent with a greater magnitude decides alone. -/
def exponentLimit : Nat := 0x7fffffff

/-- The nearest exponent of the 32-bit range. -/
def clampExponent (e : Int) : Int := max (-exponentLimit - 1) (min exponentLimit e)

/-- The magnitude of a numeral that is no whole number of 64 bits. -/
def magnitude (significand : Nat) (shift : Int) (exponent : Option Exponent) : Double :=
  match exponent with
  | none => scaled (.ofNat significand) shift
  | some e =>
    let power := Digit.value e.digits
    if exponentLimit < power then
      if significand = 0 ∨ e.negative then .zero false else .infinity false
    else
      let sum := if e.negative then shift - power else shift + power
      scaled (.ofNat significand) (clampExponent sum)

/-- The value of a numeral. Minus zero is no whole number, and whole digits that do not fit the
significand only raise the exponent. -/
def ofNumeral (n : Numeral) : Number :=
  let (significand, dropped) := absorb 0 n.whole
  if n.fraction = [] ∧ n.exponent = none ∧ dropped = [] then
    if n.negative then
      if significand = 0 ∨ significandLimit / 2 < significand then .real (-(.ofNat significand))
      else .whole (-significand)
    else .whole significand
  else
    let (significand', droppedFraction) := absorb significand n.fraction
    let shift : Int := dropped.length - (n.fraction.length - droppedFraction.length : Nat)
    let x := magnitude significand' shift n.exponent
    .real (if n.negative then -x else x)

end Number

end Json

end Slowdown
