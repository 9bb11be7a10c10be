/-
The Markdown section of a report: a headline, the decision, a table with a row for each verdict,
and the policy.
-/
import Slowdown.Report

namespace Slowdown

namespace Report

/-- What stands in a cell without a number. -/
def placeholder : String := "—"

/-- The unit that every verdict has. -/
def commonUnit? (r : Report) : Option String :=
  match r.verdicts with
  | [] => none
  | first :: rest => if rest.all (·.unit == first.unit) then first.unit else none

/-- The header of the table. A unit that all verdicts share is named here and not in the rows. -/
def headerRow (r : Report) : String :=
  let unit := (r.commonUnit?.map fun u => " (" ++ u ++ ")").getD ""
  "| Benchmark | Current" ++ unit ++ " | Baseline" ++ unit ++ " | Ratio | Status |"

/-- The status, with the reason of a skipped benchmark. -/
def statusCell (v : Verdict) : String :=
  match v.reason with
  | some reason => v.status.text ++ " (" ++ reason.text ++ ")"
  | none => v.status.text

/-- The baseline, if there is one. -/
def baselineCell (v : Verdict) : String := (v.baseline.map (Decimal.fixed 2)).getD placeholder

/-- The ratio, if there is one. -/
def ratioCell (v : Verdict) : String :=
  (v.ratio.map fun ratio => Decimal.fixed 2 ratio ++ "x").getD placeholder

/-- The row of a verdict. The name is not escaped. -/
def row (v : Verdict) : String :=
  "| " ++ v.displayName ++ " | " ++ Decimal.fixed 2 v.current ++ " | " ++ baselineCell v
    ++ " | " ++ ratioCell v ++ " | " ++ statusCell v ++ " |"

/-- The decision in a sentence. -/
def decisionLine (r : Report) : String :=
  if r.passed then passLine else s!"**{r.regressionCount} regression(s) detected.**"

/-- The settings in a sentence; the threshold is rounded to whole percent. -/
def policyLine (p : Policy) : String :=
  s!"Window: {p.windowSize} runs, threshold: " ++ Decimal.fixed 0 p.thresholdPercent
    ++ s!"%, min history: {p.minHistory}"

/-- The lines of the section: headline, decision, table and settings, with blank lines between. -/
def markdownLines (r : Report) : List String :=
  ["## Benchmark Regression Check", "", r.decisionLine, "", r.headerRow,
      "|-----------|--------:|---------:|------:|--------|"]
    ++ r.verdicts.map row ++ ["", policyLine r.policy]

/-- Every line of the section ends with a line break. -/
def markdown (r : Report) : String := String.join (r.markdownLines.map (· ++ "\n"))

end Report

end Slowdown
