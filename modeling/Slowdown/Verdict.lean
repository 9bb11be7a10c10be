/-
Verdicts: the judgement on the newest value of each benchmark of a history.
-/
import Slowdown.Baseline
import Slowdown.History

namespace Slowdown

/-- How a benchmark came off. -/
inductive Status where
  | ok
  | regression
  | skip
  deriving DecidableEq

/-- The word for a status, the same in lines, rows and documents. -/
def Status.text : Status → String
  | ok => "OK"
  | regression => "REGRESSION"
  | skip => "SKIP"

/-- A ratio exactly at the limit is tolerated. -/
def classify (current baseline threshold : Double) : Double × Status :=
  let ratio := current / baseline
  (ratio, if 1 + threshold < ratio then .regression else .ok)

/-- The judgement on one benchmark. The ratio is missing if it was skipped, the baseline as well if
there were too few values for one; only a skipped one has a reason. -/
structure Verdict where
  name : String
  status : Status
  current : Double
  baseline : Option Double
  ratio : Option Double
  reason : Option SkipReason
  unit : Option String
  deriving DecidableEq

namespace Verdict

/-- The part of the name after its last point. -/
def displayName (v : Verdict) : String :=
  String.ofList (v.name.toList.reverse.takeWhile (· ≠ '.')).reverse

/-- Whether the verdict makes the check fail. -/
def isRegression (v : Verdict) : Bool := v.status = .regression

/-- Whether the benchmark was not judged. -/
def isSkip (v : Verdict) : Bool := v.status = .skip

end Verdict

/-! ## Assessment -/

/-- The verdict that an estimate leads to; the policy only matters if it is ready. -/
def Estimate.verdict (e : Estimate) (name : String) (unit : Option String) (p : Policy) : Verdict :=
  match e with
  | skipped current baseline reason => ⟨name, .skip, current, baseline, none, some reason, unit⟩
  | ready current baseline _ _ =>
    let (ratio, status) := classify current baseline p.threshold
    ⟨name, status, current, some baseline, some ratio, none, unit⟩

/-- The verdict on a series, unless it is empty. -/
def Series.verdict? (s : Series) (name : String) (p : Policy) : Option Verdict :=
  (Window.ofValues? s.values p.windowSize.toNat).map fun w => (w.estimate p).verdict name s.unit p

/-- The verdicts on all benchmarks in order of name, under a policy without flaws. -/
def History.assess (h : History) (p : Policy) : Except Policy.Flaw (List Verdict) :=
  match p.flaw? with
  | some flaw => .error flaw
  | none => .ok (h.toList.filterMap fun (name, series) => series.verdict? name p)

end Slowdown
