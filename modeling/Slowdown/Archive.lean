/-
Archives: the suites of a history file, each a JSON value to which a type is given only when it
is asked for.
-/
import Slowdown.Json.Reader
import Slowdown.Json.Printer
import Slowdown.Measurement
import Slowdown.NameMap

namespace Slowdown

/-- The suites of a history file by name. -/
structure Archive where
  suites : NameMap Json

namespace Archive

/-! ## Mismatches -/

/-- A value as it is named in a message. -/
inductive Found where
  | null
  | bool (b : Bool)
  | number (n : Json.Number)
  | string (s : String)
  | sequence
  | map

/-- How a value is named: a number by what it is read as, a list and an object by kind only. -/
def Found.ofJson : Json → Found
  | .null => null
  | .bool b => bool b
  | .number n => number (.ofNumeral n)
  | .string s => string s
  | .array _ => sequence
  | .object _ => map

/-- The words for a value. A real number is written as in a document. -/
def Found.text : Found → String
  | null => "null"
  | bool b => "boolean `" ++ (if b then "true" else "false") ++ "`"
  | number (.whole n) => "integer `" ++ toString n ++ "`"
  | number (.real x) => "floating point `" ++ Json.layout.write x ++ "`"
  | string s => "string " ++ Text.quoted s
  | sequence => "sequence"
  | map => "map"

/-- The places of a history file at which a value has to have a certain shape. -/
inductive Place where
  | document
  | entries
  | runs
  | run
  | measurements
  | measurement
  | name
  | value

/-- What stands at a place. -/
def Place.expected : Place → String
  | document => "struct BenchmarkData"
  | entries => "a map"
  | runs | measurements => "a sequence"
  | run => "struct Entry"
  | measurement => "struct Measurement"
  | name => "a string"
  | value => "f64"

/-- A JSON value that has not the shape it should have. -/
inductive Mismatch where
  | wrongType (found : Found) (place : Place)
  | missing (member : String)
  | repeated (member : String)
  | tooFew (size : Nat)
  | tooMany (size : Nat)

/-- The wording of a mismatch. A length is that of a list that stands for a measurement or a run. -/
def Mismatch.text : Mismatch → String
  | wrongType found place => "invalid type: " ++ found.text ++ ", expected " ++ place.expected
  | missing member => "missing field `" ++ member ++ "`"
  | repeated member => "duplicate field `" ++ member ++ "`"
  | tooFew size => s!"invalid length {size}, expected struct Measurement with 3 elements"
  | tooMany size => s!"invalid length {size}, expected fewer elements in array"

/-! ## Giving types -/

/-- The name that a value stands for. -/
def nameOf : Json → Except Mismatch String
  | .string s => .ok s
  | v => .error (.wrongType (.ofJson v) .name)

/-- The double that a value stands for; whole numbers are rounded to one. -/
def valueOf : Json → Except Mismatch Double
  | .number n => .ok (Json.Number.ofNumeral n).toDouble
  | v => .error (.wrongType (.ofJson v) .value)

/-- A unit is only shown, so anything but a string counts as none. -/
def unitOf : Json → Option String
  | .string s => some s
  | _ => none

/-- A measurement is an object, or the list of its name, its value and perhaps its unit. -/
def measurementOf : Json → Except Mismatch Measurement
  | .object members => do
    let name ← (Json.member? members "name").mapM nameOf
    let value ← (Json.member? members "value").mapM valueOf
    match name, value with
    | none, _ => .error (.missing "name")
    | some _, none => .error (.missing "value")
    | some name, some value => .ok ⟨name, value, (Json.member? members "unit").bind unitOf⟩
  | .array [] => .error (.tooFew 0)
  | .array [name] => do
    let _ ← nameOf name
    .error (.tooFew 1)
  | .array (name :: value :: more) => do
    let name ← nameOf name
    let value ← valueOf value
    match more with
    | [] => .ok ⟨name, value, none⟩
    | [unit] => .ok ⟨name, value, unitOf unit⟩
    | _ => .error (.tooMany (more.length + 2))
  | v => .error (.wrongType (.ofJson v) .measurement)

/-- The measurements of a run: all of them, or the first mismatch. -/
def measurementsOf : Json → Except Mismatch (List Measurement)
  | .array items => items.mapM measurementOf
  | v => .error (.wrongType (.ofJson v) .measurements)

/-- A run is an object, or the list of its one member. Without measurements it is empty. -/
def runOf : Json → Except Mismatch Run
  | .object members =>
    match Json.member? members "benches" with
    | none => .ok ⟨[]⟩
    | some v => Run.mk <$> measurementsOf v
  | .array [] => .ok ⟨[]⟩
  | .array (v :: more) => do
    let measurements ← measurementsOf v
    if more = [] then .ok ⟨measurements⟩ else .error (.tooMany (more.length + 1))
  | v => .error (.wrongType (.ofJson v) .run)

/-- The runs of a suite, oldest first: all of them, or the first mismatch. -/
def runsOf : Json → Except Mismatch (List Run)
  | .array items => items.mapM runOf
  | v => .error (.wrongType (.ofJson v) .runs)

/-! ## Suites -/

/-- The names of the suites in ascending order. -/
def suiteNames (a : Archive) : List String := a.suites.names

/-- The runs of a suite, oldest first, if the archive has the suite. -/
def suite? (a : Archive) (name : String) : Except Mismatch (Option (List Run)) :=
  (a.suites.find? name).mapM runsOf

end Archive

/-! ## Writing runs -/

/-- A measurement as an object; without a unit it has no member for one. -/
def Measurement.toJson (m : Measurement) : Json :=
  .object <|
    [("name", .string m.name), ("value", .ofDouble m.value)]
    ++ (m.unit.map fun unit => ("unit", Json.string unit)).toList

/-- A run as an object that holds its measurements only. -/
def Run.toJson (r : Run) : Json :=
  .object [("benches", .array (r.measurements.map Measurement.toJson))]

/-- The runs of a suite as they stand in a history file. -/
def Archive.runsToJson (runs : List Run) : Json := .array (runs.map Run.toJson)

end Slowdown
