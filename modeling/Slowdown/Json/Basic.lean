/-
JSON trees. A number keeps its numeral and an object the order of its members, so that a tree
says all about a text but its blanks and escapes.
-/
import Slowdown.Decimal.Layout

namespace Slowdown

/-- A JSON value. -/
inductive Json where
  | null
  | bool (b : Bool)
  | number (n : Numeral)
  | string (s : String)
  | array (items : List Json)
  | object (members : List (String × Json))

namespace Json

/-- Shortest digits; an exponent below `0.00001` and from `10^16` on; a whole number has `.0`. -/
def layout : Decimal.Layout := ⟨.even, some (-5, 15), true, true⟩

/-- JSON has no numeral for infinities and NaN. -/
def ofDouble (x : Double) : Json := if x.isFinite then number (layout.numeral x) else null

/-- A count, written without a point. -/
def ofNat (n : Nat) : Json := number (.ofNat n)

/-- The member that counts among those of equal name: the last. -/
def member? (members : List (String × Json)) (name : String) : Option Json :=
  (members.reverse.find? fun m => m.1 == name).map (·.2)

end Json

end Slowdown
