/-
Reports: all verdicts of a check in order of name, the decision drawn from them, and the lines
that tell it.
-/
import Slowdown.Verdict

namespace Slowdown

/-- The verdicts of a check and the policy they were found by. -/
structure Report where
  verdicts : List Verdict
  policy : Policy
  deriving DecidableEq

/-- The decision of a check. -/
inductive Outcome where
  | pass
  | fail
  deriving DecidableEq

/-- The exit status that tells a decision. -/
def Outcome.exitCode : Outcome → Nat
  | pass => 0
  | fail => 1

namespace Report

/-- Verdicts of equal name keep their order. -/
def ofVerdicts (verdicts : List Verdict) (policy : Policy) : Report :=
  ⟨verdicts.mergeSort fun a b => decide (a.name ≤ b.name), policy⟩

/-! ## The decision -/

/-- The verdicts that make a check fail. -/
def regressions (r : Report) : List Verdict := r.verdicts.filter Verdict.isRegression

/-- How many benchmarks have regressed. -/
def regressionCount (r : Report) : Nat := r.regressions.length

/-- A check passes if nothing regressed; skipped benchmarks do not count. -/
def passed (r : Report) : Bool := r.regressionCount = 0

/-- The decision on a report. -/
def outcome (r : Report) : Outcome := if r.passed then .pass else .fail

/-! ## Lines -/

/-- The conclusion of a check that passed. -/
def passLine : String := "All benchmarks within acceptable range."

/-- A text filled up with blanks to a width. -/
def padded (width : Nat) (s : String) : String :=
  s ++ String.ofList (List.replicate (width - s.length) ' ')

/-- The line of a verdict: its numbers, or why it was not judged. -/
def consoleLine (v : Verdict) : String :=
  "  " ++ padded 4 v.status.text ++ "  " ++ v.name ++ ": " ++
    match v.reason with
    | some reason => reason.text
    | none =>
      "current=" ++ Decimal.fixed 4 v.current
        ++ " baseline=" ++ Decimal.fixed 4 (v.baseline.getD 0)
        ++ " ratio=" ++ Decimal.fixed 2 (v.ratio.getD 0) ++ "x"

/-- A line for each verdict in order of name. -/
def consoleLines (r : Report) : List String := r.verdicts.map consoleLine

/-- The line of a regression, with the limit that its ratio exceeds. -/
def regressionLine (p : Policy) (v : Verdict) : String :=
  let unit := (v.unit.map (" " ++ ·)).getD ""
  "  " ++ v.name ++ ": " ++ Decimal.fixed 4 v.current ++ unit
    ++ " vs baseline " ++ Decimal.fixed 4 (v.baseline.getD 0) ++ unit
    ++ " (" ++ Decimal.fixed 2 (v.ratio.getD 0) ++ "x, >" ++ Decimal.fixed 2 p.ratioLimit
    ++ "x threshold)"

/-- The last lines of a check: that it passed, or each regression under a count. -/
def conclusionLines (r : Report) : List String :=
  if r.passed then [passLine]
  else
    s!"REGRESSION DETECTED in {r.regressionCount} benchmark(s):"
      :: r.regressions.map (regressionLine r.policy)

end Report

end Slowdown
