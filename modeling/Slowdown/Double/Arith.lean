/-
Arithmetic of binary64 numbers: each operation on finite numbers is the exact rational result,
rounded once.
-/
import Slowdown.Double.Rounding

namespace Slowdown

namespace Double

/-- The double nearest to a whole number. -/
def ofInt (n : Int) : Double := round (n < 0) (n.natAbs * unitsPerOne) 1

/-- The double nearest to a natural number. -/
def ofNat (n : Nat) : Double := ofInt n

/-- Numerals are rounded to doubles. -/
instance (n : Nat) : OfNat Double n := ⟨ofNat n⟩

/-! ## Operations -/

/-- A sum of zero is `+0` unless both terms are negative. -/
def add (x y : Double) : Double :=
  if x.isNaN || y.isNaN then nan
  else if x.isInfinite then
    if y.isInfinite && x.negative != y.negative then nan else x
  else if y.isInfinite then y
  else
    let sum := x.units + y.units
    if sum = 0 then zero (x.negative && y.negative)
    else round (sum < 0) sum.natAbs 1

/-- A difference is a sum with the second term negated. -/
def sub (x y : Double) : Double := add x (neg y)

/-- The product; zero times infinity is not a number. -/
def mul (x y : Double) : Double :=
  let negative := x.negative != y.negative
  if x.isNaN || y.isNaN then nan
  else if x.isInfinite || y.isInfinite then
    if x.isZero || y.isZero then nan else infinity negative
  else round negative (x.units.natAbs * y.units.natAbs) unitsPerOne

/-- The quotient; a finite number by zero is infinite, but zero by zero is not a number. -/
def div (x y : Double) : Double :=
  let negative := x.negative != y.negative
  if x.isNaN || y.isNaN then nan
  else if x.isInfinite then if y.isInfinite then nan else infinity negative
  else if y.isInfinite then zero negative
  else if y.isZero then if x.isZero then nan else infinity negative
  else round negative (x.units.natAbs * unitsPerOne) y.units.natAbs

instance : Add Double := ⟨add⟩
instance : Sub Double := ⟨sub⟩
instance : Mul Double := ⟨mul⟩
instance : Div Double := ⟨div⟩

end Double

end Slowdown
