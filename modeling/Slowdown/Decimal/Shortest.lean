/-
The shortest decimals of a double: of the decimals that round to it, those with the fewest
digits, and of these the nearest. The search compares exact integers only.
-/
import Slowdown.Decimal.Numeral

namespace Slowdown

namespace Decimal

/-- Which of two equally near neighbours is taken. -/
inductive Tie where
  | even
  | up
  deriving DecidableEq

/-- The decimal `digits · 10^exponent`. -/
structure Scientific where
  digits : Nat
  exponent : Int
  deriving DecidableEq

/-- Moves the trailing zeros of a decimal into its exponent. -/
def Scientific.stripped (s : Scientific) : Scientific :=
  if h : 0 < s.digits ∧ s.digits % 10 = 0 then
    Scientific.stripped ⟨s.digits / 10, s.exponent + 1⟩
  else s
termination_by s.digits
decreasing_by omega

/-- So many places after the point show a digit of every double above zero. -/
def manyPlaces : Nat := 400

/-- The power of ten of the first significant digit of a finite code. -/
def leadingPower (code : Nat) : Int :=
  (Digit.ofNat (Double.unitsOfCode code * tenTo manyPlaces / Double.unitsPerOne)).length
    - (manyPlaces + 1 : Nat)

/-- Whether a multiple of `10^power` rounds to the double with the given code. It is compared with
the midpoints between the code and its neighbours, in half units; they round to it exactly if it
is even. -/
def inside (code : Nat) (power : Int) (multiple : Nat) : Bool :=
  let value := multiple * (tenTo power.toNat * (2 * Double.unitsPerOne))
  let scale := tenTo (-power).toNat
  let low := (Double.unitsOfCode (code - 1) + Double.unitsOfCode code) * scale
  let high := (Double.unitsOfCode code + Double.unitsOfCode (code + 1)) * scale
  if code % 2 = 0 then low ≤ value && value ≤ high
  else low < value && value < high

/-- The multiple of `10^power` that rounds to the double with the given code, if one of the two
neighbours of its value on that grid does; the nearer one if both do. -/
def onGrid (tie : Tie) (code : Nat) (power : Int) : Option Nat :=
  let step := tenTo power.toNat * (2 * Double.unitsPerOne)
  let value := 2 * Double.unitsOfCode code * tenTo (-power).toNat
  let below := value / step
  match inside code power below, inside code power (below + 1) with
  | false, false => none
  | true, false => some below
  | false, true => some (below + 1)
  | true, true =>
    let middle := (2 * below + 1) * step
    if 2 * value < middle then some below
    else if middle < 2 * value then some (below + 1)
    else match tie with
      | .even => some (if below % 2 = 0 then below else below + 1)
      | .up => some (below + 1)

/-- The shortest decimal of a finite code above zero. Seventeen digits always suffice, as
`shortest_found` shows. -/
def shortest (tie : Tie) (code : Nat) : Scientific :=
  let first := leadingPower code
  let found := (List.range 17).findSome? fun (k : Nat) =>
    (onGrid tie code (first - k)).map fun digits => Scientific.mk digits (first - k)
  (found.getD ⟨0, 0⟩).stripped

end Decimal

end Slowdown
