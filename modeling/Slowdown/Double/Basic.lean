/-
Binary64 numbers: the type, its classes of values, and the 64-bit layout. The code of a number
is its layout without the sign bit, so that the order of magnitudes is the order of codes.
-/

namespace Slowdown

namespace Double

/-- How many codes share an exponent: those of 52 bits. -/
def binade : Nat := 0x10000000000000

/-- How many codes there are: those of 2048 exponents. -/
def codeCount : Nat := 2048 * binade

end Double

/-- A binary64 number: a sign, and the 63 remaining bits of its layout read as one number. -/
structure Double where
  negative : Bool
  code : Nat
  code_lt : code < Double.codeCount
  deriving DecidableEq

namespace Double

/-! ## Classes of values -/

/-- The code of infinity; smaller codes are finite, larger ones are not numbers. -/
def infinityCode : Nat := 2047 * binade

/-- Codes above that of infinity are not numbers, of either sign. -/
def isNaN (x : Double) : Bool := infinityCode < x.code

/-- One of the two infinities. -/
def isInfinite (x : Double) : Bool := x.code = infinityCode

/-- A number with an exact value. -/
def isFinite (x : Double) : Bool := x.code < infinityCode

/-- One of the two zeros. -/
def isZero (x : Double) : Bool := x.code = 0

/-- The zero of a sign. -/
def zero (negative : Bool) : Double := ⟨negative, 0, by decide⟩

/-- The infinity of a sign. -/
def infinity (negative : Bool) : Double := ⟨negative, infinityCode, by decide⟩

/-- The not-a-number that arithmetic produces. -/
def nan : Double := ⟨false, infinityCode + binade / 2, by decide⟩

/-- The other sign, also of a zero or what is not a number. -/
def neg (x : Double) : Double := { x with negative := !x.negative }

instance : Neg Double := ⟨neg⟩

instance : Inhabited Double := ⟨zero false⟩

/-! ## Layout -/

/-- The number with a layout, whose highest bit is the sign. -/
def ofBits (bits : UInt64) : Double :=
  ⟨codeCount ≤ bits.toNat, bits.toNat % codeCount, Nat.mod_lt _ (by decide)⟩

/-- The layout of a number. -/
def toBits (x : Double) : UInt64 :=
  UInt64.ofNat ((if x.negative then codeCount else 0) + x.code)

/-! ## Value -/

/-- The magnitude of a code in units of `2^-1074`. Infinity continues the finite magnitudes
with `2^1024`, which is where rounding has to place it. -/
def unitsOfCode (code : Nat) : Nat :=
  if code < binade then code
  else (binade + code % binade) <<< (code / binade - 1)

/-- The exact value of a finite number, in units of `2^-1074`. -/
def units (x : Double) : Int :=
  if x.negative then -(unitsOfCode x.code : Int) else unitsOfCode x.code

/-- How many units make one. -/
def unitsPerOne : Nat := 1 <<< 1074

end Double

end Slowdown
