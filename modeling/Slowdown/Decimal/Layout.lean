/-
Layouts of decimal text. A `Layout` says how the shortest digits of a double are written out;
`fixed` writes a fixed number of places instead.
-/
import Slowdown.Decimal.Shortest

namespace Slowdown

namespace Decimal

/-- How a number is written with its shortest digits. -/
structure Layout where
  /-- The choice between two equally near decimals. -/
  tie : Tie
  /-- The powers of ten of the first digit between which no exponent is written; without
  bounds, none ever is. -/
  positional : Option (Int × Int)
  /-- Whether a whole number has `.0` after it. -/
  pointZero : Bool
  /-- Whether a positive exponent has its sign written. -/
  exponentPlus : Bool

/-- The text of the values that no numeral denotes. -/
def nonFinite (x : Double) : String :=
  if x.isNaN then "NaN" else if x.negative then "-inf" else "inf"

namespace Layout

/-- Whether a number whose first digit has this power of ten is written without an exponent. -/
def isPositional (l : Layout) (power : Int) : Bool :=
  match l.positional with
  | none => true
  | some (low, high) => low ≤ power && power ≤ high

/-- The numeral of a finite double. -/
def numeral (l : Layout) (x : Double) : Numeral :=
  let point : List Digit := if l.pointZero then [.zero] else []
  if x.isZero then ⟨x.negative, [.zero], point, none⟩
  else
    let s := shortest l.tie x.code
    let digits := Digit.ofNat s.digits
    let power := s.exponent + digits.length - 1
    if l.isPositional power then
      let places := (-s.exponent).toNat
      if places = 0 then
        ⟨x.negative, digits ++ List.replicate s.exponent.toNat .zero, point, none⟩
      else if places < digits.length then
        let split := digits.length - places
        ⟨x.negative, digits.take split, digits.drop split, none⟩
      else
        ⟨x.negative, [.zero], List.replicate (places - digits.length) .zero ++ digits, none⟩
    else
      ⟨x.negative, digits.take 1, digits.drop 1, some ⟨power < 0, Digit.ofNat power.natAbs⟩⟩

/-- The text of a double: the numeral of a finite one, a word for any other. By `write_reads_back`
a finite one is read again from its text. -/
def write (l : Layout) (x : Double) : String :=
  if x.isFinite then String.ofList ((l.numeral x).text l.exponentPlus) else nonFinite x

end Layout

/-! ## Fixed places -/

/-- The numeral with a fixed number of places nearest to a finite double, a half going to the
even neighbour. -/
def fixedNumeral (places : Nat) (x : Double) : Numeral :=
  let n := roundHalfEven (Double.unitsOfCode x.code * tenTo places) Double.unitsPerOne
  let digits := Digit.ofNat n
  let padded := List.replicate (places + 1 - digits.length) .zero ++ digits
  let split := padded.length - places
  ⟨x.negative, padded.take split, padded.drop split, none⟩

/-- The text of a double with a fixed number of places; `isFixed_fixed` says how near it is. -/
def fixed (places : Nat) (x : Double) : String :=
  if x.isFinite then String.ofList ((fixedNumeral places x).text false) else nonFinite x

end Decimal

end Slowdown
