/-
The JSON document of a check.
-/
import Slowdown.Report
import Slowdown.Json.Printer

namespace Slowdown

namespace Json

/-- What a verdict lacks is null. -/
def ofDouble? : Option Double → Json
  | some x => ofDouble x
  | none => null

end Json

/-- The settings that a check used. -/
def Policy.toJson (p : Policy) : Json :=
  .object [
    ("window_size", .ofNat p.windowSize.toNat),
    ("threshold", .ofDouble p.threshold),
    ("min_history", .ofNat p.minHistory.toNat)]

/-- A reason with its kind first; counts only where it has them. -/
def SkipReason.toJson : SkipReason → Json
  | insufficientHistory points required =>
    .object [
      ("kind", .string "insufficient_history"),
      ("points", .ofNat points.toNat),
      ("required", .ofNat required.toNat)]
  | nonPositiveBaseline => .object [("kind", .string "non_positive_baseline")]

/-- Members for the reason and the unit exist only if the verdict has them. -/
def Verdict.toJson (v : Verdict) : Json :=
  .object <|
    [("name", .string v.name),
      ("status", .string v.status.text),
      ("current", .ofDouble v.current),
      ("baseline", .ofDouble? v.baseline),
      ("ratio", .ofDouble? v.ratio)]
    ++ (v.reason.map fun reason => ("reason", reason.toJson)).toList
    ++ (v.unit.map fun unit => ("unit", Json.string unit)).toList

namespace Report

/-- The document of a check that found a history, or none. -/
def documentOf (suite : String) (historyFound : Bool) (r : Report) : Json :=
  .object [
    ("suite", .string suite),
    ("history_found", .bool historyFound),
    ("config", r.policy.toJson),
    ("regression_count", .ofNat r.regressionCount),
    ("passed", .bool r.passed),
    ("verdicts", .array (r.verdicts.map Verdict.toJson))]

/-- The document of a check that found a history. -/
def document (r : Report) (suite : String) : Json := documentOf suite true r

/-- The document for a suite without history. -/
def missingSuite (suite : String) (policy : Policy) : Json := documentOf suite false ⟨[], policy⟩

end Report

end Slowdown
