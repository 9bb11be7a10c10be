/-
Numbers in decimal writing: digits, and numerals as they stand in a text (sign, whole digits,
fraction digits, exponent) with the exact value they denote.
-/
import Slowdown.Double.Arith

namespace Slowdown

/-- The number written as a one and so many zeros. -/
def tenTo (n : Nat) : Nat := Nat.pow 10 n

/-! ## Digits -/

/-- A decimal digit. -/
abbrev Digit := Fin 10

namespace Digit

/-- The digit that fills places. -/
def zero : Digit := 0

/-- The character of a digit. -/
def char (d : Digit) : Char := Char.ofNat (48 + d)

/-- The digit that a character is. -/
def ofChar? (c : Char) : Option Digit :=
  if h : 48 ≤ c.toNat ∧ c.toNat < 58 then some ⟨c.toNat - 48, by omega⟩ else none

theorem ofChar?_char (d : Digit) : ofChar? d.char = some d := by
  revert d; decide

/-- The number that digits denote. -/
def value (ds : List Digit) : Nat := ds.foldl (fun n d => 10 * n + d.val) 0

/-- The digits of a number, in front of others. -/
def onto (n : Nat) (rest : List Digit) : List Digit :=
  let last : Digit := ⟨n % 10, Nat.mod_lt _ (by decide)⟩
  if h : n < 10 then last :: rest else onto (n / 10) (last :: rest)
termination_by n
decreasing_by omega

/-- The digits of a number, without leading zeros; zero has one digit. -/
def ofNat (n : Nat) : List Digit := onto n []

/-- The digits at the front of a text, and what follows them. -/
def span : List Char → List Digit × List Char
  | [] => ([], [])
  | c :: rest =>
    match ofChar? c with
    | some d => (d :: (span rest).1, (span rest).2)
    | none => ([], c :: rest)

theorem span_length_le (cs : List Char) : (span cs).2.length ≤ cs.length := by
  induction cs with
  | nil => simp [span]
  | cons c rest ih =>
    unfold span
    split
    · exact Nat.le_succ_of_le ih
    · simp

end Digit

/-! ## Numerals -/

/-- The exponent of a numeral: a sign and digits. -/
structure Exponent where
  negative : Bool
  digits : List Digit
  deriving DecidableEq

/-- A number in writing. A numeral without fraction digits has no point. -/
structure Numeral where
  negative : Bool
  whole : List Digit
  fraction : List Digit
  exponent : Option Exponent
  deriving DecidableEq

namespace Numeral

/-- A number in writing, without a point. -/
def ofNat (n : Nat) : Numeral := ⟨false, Digit.ofNat n, [], none⟩

/-- The text of an exponent; `plus` says whether a positive one has its sign written. -/
def exponentText (plus : Bool) (e : Exponent) : List Char :=
  let sign := if e.negative then ['-'] else if plus then ['+'] else []
  'e' :: sign ++ e.digits.map Digit.char

/-- The text of a numeral; `plus` says whether a positive exponent has its sign written. -/
def text (plus : Bool) (n : Numeral) : List Char :=
  (if n.negative then ['-'] else [])
    ++ n.whole.map Digit.char
    ++ (if n.fraction = [] then [] else '.' :: n.fraction.map Digit.char)
    ++ (match n.exponent with
        | none => []
        | some e => exponentText plus e)

/-- All digits as one number. -/
def significand (n : Numeral) : Nat := Digit.value (n.whole ++ n.fraction)

/-- The exponent as it is written; without one it is zero. -/
def writtenExponent (n : Numeral) : Int :=
  match n.exponent with
  | none => 0
  | some e => if e.negative then -(Digit.value e.digits : Int) else Digit.value e.digits

/-- The power of ten by which the significand is scaled. -/
def scale (n : Numeral) : Int := n.writtenExponent - n.fraction.length

/-- The double nearest to a numeral. Scales that put any number of that many digits beyond
the range, or below half the smallest double, are decided without computing the power. -/
def nearest (n : Numeral) : Double :=
  if n.significand = 0 then .zero n.negative
  else if 400 < n.scale then .infinity n.negative
  else if n.scale + (n.whole.length + n.fraction.length : Nat) < -400 then .zero n.negative
  else
    .round n.negative (n.significand * tenTo n.scale.toNat * Double.unitsPerOne)
      (tenTo (-n.scale).toNat)

end Numeral

/-- The double nearest to `significand / 10^places`. -/
def Double.ofDecimal (significand places : Nat) : Double :=
  .round false (significand * unitsPerOne) (tenTo places)

end Slowdown
