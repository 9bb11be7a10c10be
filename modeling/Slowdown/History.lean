/-
Histories: for each benchmark the series of its values, oldest first, and its unit.
-/
import Slowdown.Measurement
import Slowdown.NameMap

namespace Slowdown

/-- The values of one benchmark, oldest first, and the last unit that was not empty. -/
structure Series where
  values : List Double
  unit : Option String

namespace Series

/-- The series of a benchmark that has not been seen. -/
def empty : Series := ⟨[], none⟩

/-- Adds the newest value. An empty unit says nothing and leaves the old one. -/
def push (s : Series) (value : Double) (unit : Option String) : Series :=
  ⟨s.values ++ [value], (unit.filter (· ≠ "")).or s.unit⟩

end Series

/-- The series of a suite by benchmark name. -/
structure History where
  series : NameMap Series

namespace History

/-- The history of no runs. -/
def empty : History := ⟨.empty⟩

/-- Adds the newest value of a benchmark; the series of all others stay. -/
def push (h : History) (name : String) (value : Double) (unit : Option String) : History :=
  ⟨h.series.update name fun old => (old.getD .empty).push value unit⟩

/-- A history of given values without units; of equal names the later pair counts. -/
def ofPairs (pairs : List (String × List Double)) : History :=
  ⟨.ofList (pairs.map fun (name, values) => (name, ⟨values, none⟩))⟩

/-- Adds the value of a measurement under its name. -/
def pushMeasurement (h : History) (m : Measurement) : History := h.push m.name m.value m.unit

/-- The history of runs, oldest first. A benchmark absent from a run adds nothing to its
series. -/
def ofRuns (runs : List Run) : History :=
  (runs.flatMap (·.measurements)).foldl pushMeasurement empty

/-- The series of a benchmark, if it has been seen. -/
def find? (h : History) (name : String) : Option Series := h.series.find? name

/-- The series in order of name. -/
def toList (h : History) : List (String × Series) := h.series.rows

/-- How many benchmarks have been seen. -/
def size (h : History) : Nat := h.series.size

end History

end Slowdown
