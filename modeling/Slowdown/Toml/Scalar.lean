/-
Readings of TOML numbers, dates and times.
-/
import Slowdown.Decimal.Numeral
import Slowdown.Double.Order
import Slowdown.Toml.Basic
import Slowdown.Toml.Text

namespace Slowdown

namespace Toml

/-! ## Numbers -/

/-- Digits after a first one; an underscore may stand between two of them. -/
def moreDigits (isDigit : Char → Bool) : Reading (List Char)
  | '_' :: c :: rest =>
    if isDigit c then (moreDigits isDigit rest).map (before c) else none
  | ['_'] => none
  | c :: rest =>
    if isDigit c then (moreDigits isDigit rest).map (before c) else some ([], c :: rest)
  | [] => some ([], [])

/-- At least one digit. -/
def someDigits (isDigit : Char → Bool) : Reading (List Char)
  | c :: rest => if isDigit c then (moreDigits isDigit rest).map (before c) else none
  | [] => none

/-- At least one digit of base ten, underscores dropped. -/
def decimalDigits : Reading (List Digit) := fun cs =>
  (someDigits Char.isDigit cs).map fun (ds, rest) => (ds.filterMap Digit.ofChar?, rest)

/-- A sign, if there is one: whether it is negative. -/
def signText : List Char → Bool × List Char
  | '+' :: rest => (false, rest)
  | '-' :: rest => (true, rest)
  | cs => (false, cs)

/-- A whole number without leading zeros. -/
def wholeDigits : Reading (List Digit)
  | '0' :: rest => some ([.zero], rest)
  | cs => decimalDigits cs

/-- The digits after a point; a point needs at least one. -/
def fractionText : List Char → Option (List Digit × List Char)
  | '.' :: rest => decimalDigits rest
  | cs => some ([], cs)

/-- The exponent, if there is one; its mark needs at least one digit. -/
def exponentText : List Char → Option (Option Exponent × List Char)
  | c :: rest =>
    if c = 'e' ∨ c = 'E' then do
      let (negative, rest) := signText rest
      let (digits, rest) ← decimalDigits rest
      return (some ⟨negative, digits⟩, rest)
    else some (none, c :: rest)
  | [] => some (none, [])

/-- Integers have 64 bits, one of which is for the sign. -/
def integerLimit : Int := 0x8000000000000000

/-- Whether a number is a TOML integer. -/
def isInteger (n : Int) : Bool := -integerLimit ≤ n && n < integerLimit

/-- A decimal number. Digits may not denote more than the greatest double. -/
def decimalNumber : Reading Toml := fun cs => do
  let (negative, cs) := signText cs
  let (whole, cs) ← wholeDigits cs
  let (fraction, cs) ← fractionText cs
  let (exponent, cs) ← exponentText cs
  if fraction = [] ∧ exponent = none then
    let n : Int := Digit.value whole
    let n := if negative then -n else n
    if isInteger n then return (integer n, cs) else none
  else
    let x := (Numeral.mk negative whole fraction exponent).nearest
    if x = .infinity false then none else return (float x, cs)

/-- A whole number in another base, whose mark has been taken. -/
def basedNumber (base : Nat) : Reading Toml := fun cs => do
  let isDigit (c : Char) : Bool := (Text.hexDigit? c).any (· < base)
  let (digits, cs) ← someDigits isDigit cs
  let n := digits.foldl (fun n c => base * n + (Text.hexDigit? c).getD 0) 0
  if isInteger n then return (integer n, cs) else none

/-- Infinity and NaN, with or without a sign. -/
def specialNumber : Reading Toml := fun cs =>
  match signText cs with
  | (negative, 'i' :: 'n' :: 'f' :: rest) => some (float (.infinity negative), rest)
  | (negative, 'n' :: 'a' :: 'n' :: rest) => some (float { Double.nan with negative }, rest)
  | _ => none

/-- A number. The mark of a base is looked for first; infinity and NaN are tried last. -/
def number : Reading Toml
  | '0' :: 'x' :: rest => basedNumber 16 rest
  | '0' :: 'o' :: rest => basedNumber 8 rest
  | '0' :: 'b' :: rest => basedNumber 2 rest
  | cs => (decimalNumber cs).or (specialNumber cs)

/-! ## Dates and times -/

/-- A number of exactly so many digits. -/
def fixedDigits : Nat → Reading Nat
  | 0, cs => some (0, cs)
  | count + 1, c :: rest => do
    let d ← Digit.ofChar? c
    let (n, rest) ← fixedDigits count rest
    return (d.val * tenTo count + n, rest)
  | _ + 1, [] => none

/-- Two digits that denote a number in a range. -/
def twoDigits (low high : Nat) : Reading Nat := fun cs => do
  let (n, rest) ← fixedDigits 2 cs
  if low ≤ n ∧ n ≤ high then return (n, rest) else none

/-- Takes the given character off a text. -/
def mark (c : Char) : Reading Unit
  | d :: rest => if c = d then some ((), rest) else none
  | [] => none

/-- The rule of the Gregorian calendar. -/
def isLeapYear (year : Nat) : Bool := year % 4 = 0 && (year % 100 ≠ 0 || year % 400 = 0)

/-- How many days a month has, by which a date is checked. -/
def daysInMonth (year month : Nat) : Nat :=
  if month = 2 then if isLeapYear year then 29 else 28
  else if month = 4 ∨ month = 6 ∨ month = 9 ∨ month = 11 then 30
  else 31

/-- The text after a date. -/
def date? (cs : List Char) : Option (List Char) := do
  let (year, cs) ← fixedDigits 4 cs
  let (_, cs) ← mark '-' cs
  let (month, cs) ← twoDigits 1 12 cs
  let (_, cs) ← mark '-' cs
  let (_, cs) ← twoDigits 1 (daysInMonth year month) cs
  return cs

/-- The text after a time of day. The last second of a day may be a leap second. -/
def time? (cs : List Char) : Option (List Char) := do
  let (_, cs) ← twoDigits 0 23 cs
  let (_, cs) ← mark ':' cs
  let (_, cs) ← twoDigits 0 59 cs
  let (_, cs) ← mark ':' cs
  let (_, cs) ← twoDigits 0 60 cs
  match cs with
  | '.' :: rest =>
    if (rest.takeWhile Char.isDigit).isEmpty then return cs else return rest.dropWhile Char.isDigit
  | _ => return cs

/-- The text after the distance from universal time. -/
def offset? : List Char → Option (List Char)
  | [] => none
  | c :: rest =>
    if c = 'Z' ∨ c = 'z' then some rest
    else if c = '+' ∨ c = '-' then do
      let (_, rest) ← twoDigits 0 23 rest
      let (_, rest) ← mark ':' rest
      let (_, rest) ← twoDigits 0 59 rest
      return rest
    else none

/-- The text after the time that may follow a date. -/
def timeOfDate (cs : List Char) : List Char :=
  match cs with
  | c :: rest =>
    if c = 'T' ∨ c = 't' ∨ c = ' ' then
      match time? rest with
      | some rest => (offset? rest).getD rest
      | none => cs
    else cs
  | [] => cs

/-- A date, a time, or both, kept as written: no setting is one. -/
def momentText : Reading Toml := fun cs => do
  let rest ← ((date? cs).map timeOfDate).or (time? cs)
  return (moment (String.ofList (cs.take (cs.length - rest.length))), rest)

end Toml

end Slowdown
