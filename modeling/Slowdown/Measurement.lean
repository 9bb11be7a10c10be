/-
Measurements and the runs they come from.
-/
import Slowdown.Double.Basic

namespace Slowdown

/-- One value of one benchmark; lower is better. -/
structure Measurement where
  name : String
  value : Double
  unit : Option String
  deriving DecidableEq

/-- One run of a benchmark suite. -/
structure Run where
  measurements : List Measurement
  deriving DecidableEq

end Slowdown
