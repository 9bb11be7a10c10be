/-
Robust statistics of a sample: median, quartiles, and the fences beyond which a value counts as
an outlier. Quartiles are the medians of the two halves; the middle value of a sample of odd
size belongs to neither half.
-/
import Slowdown.Double.Arith
import Slowdown.Double.Order

namespace Slowdown

namespace Sample

/-- The middle of a sorted sample: its middle value, or the mean of the two middle ones. -/
def middle? (sorted : List Double) : Option Double :=
  let half := sorted.length / 2
  if sorted.length % 2 = 1 then sorted[half]?
  else
    match sorted[half - 1]?, sorted[half]? with
    | some low, some high => some ((low + high) / 2)
    | _, _ => none

/-- The median of a sample, unless it is empty. -/
def median? (values : List Double) : Option Double := middle? (Double.sort values)

/-- The size from which quartiles are estimated. -/
def leastForQuartiles : Nat := 4

/-- The first and the third quartile. -/
def quartiles? (values : List Double) : Option (Double × Double) :=
  if values.length < leastForQuartiles then none
  else
    let sorted := Double.sort values
    match middle? (sorted.take (values.length / 2)),
        middle? (sorted.drop ((values.length + 1) / 2)) with
    | some first, some third => some (first, third)
    | _, _ => none

/-- How many quartile ranges a fence lies outside its quartile. -/
def fenceFactor : Double := 3 / 2

/-- The bounds of what is no outlier: the quartiles moved outwards by some quartile ranges. -/
def fences? (values : List Double) : Option (Double × Double) :=
  (quartiles? values).map fun (first, third) =>
    let range := third - first
    (first - fenceFactor * range, third + fenceFactor * range)

/-- The values between the fences, both included, in their order. A sample too small for
quartiles is kept as it is. -/
def withoutOutliers (values : List Double) : List Double :=
  match fences? values with
  | none => values
  | some (low, high) => values.filter fun v => low ≤ v ∧ v ≤ high

end Sample

end Slowdown
