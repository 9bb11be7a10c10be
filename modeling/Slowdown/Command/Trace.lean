/-
The trace of a check: what it found out about each benchmark, and what it wrote.
-/
import Slowdown.Text.Quoted
import Slowdown.Verdict

namespace Slowdown

namespace Command

/-- Something worth a line in a trace. -/
inductive Event where
  | skipped (benchmark : String) (points : Nat) (reason : SkipReason)
  | classified (benchmark : String) (points candidates retained : Nat)
      (current baseline ratio : Double)
  | regressed (benchmark : String) (ratio limit : Double)
  | appended (path : String)

namespace Event

/-- Shortest digits; an exponent below `0.0001` and from `10^16` on; a whole number has `.0`. -/
def layout : Decimal.Layout := ⟨.up, some (-4, 15), true, false⟩

/-- The line of an event: its level, where it comes from, and its fields. -/
def text : Event → String
  | skipped benchmark points reason =>
    "DEBUG perfwatch::regression::verdict: skipping benchmark benchmark=" ++ Text.quoted benchmark
      ++ s!" points={points} reason=" ++ reason.text
  | classified benchmark points candidates retained current baseline ratio =>
    "DEBUG perfwatch::regression::verdict: classified benchmark benchmark=" ++ Text.quoted benchmark
      ++ s!" points={points} candidates={candidates} retained={retained}"
      ++ " current=" ++ layout.write current ++ " baseline=" ++ layout.write baseline
      ++ " ratio=" ++ layout.write ratio
  | regressed benchmark ratio limit =>
    " WARN perfwatch::regression::verdict: regression detected benchmark=" ++ Text.quoted benchmark
      ++ " ratio=" ++ layout.write ratio ++ " limit=" ++ layout.write limit
  | appended path => "DEBUG perfwatch::report: appended summary path=" ++ path

end Event

/-- What is found out about a benchmark in a window. -/
def eventsOfWindow (name : String) (p : Policy) (w : Window) : List Event :=
  match w.estimate p with
  | .skipped _ _ reason => [.skipped name w.size reason]
  | .ready current baseline candidates retained =>
    let (ratio, status) := classify current baseline p.threshold
    .classified name w.size candidates retained current baseline ratio
      :: (if status = .regression then [.regressed name ratio p.ratioLimit] else [])

/-- What is found out about the benchmarks of a history, in order of name. -/
def eventsOfHistory (h : History) (p : Policy) : List Event :=
  h.toList.flatMap fun (name, series) =>
    ((Window.ofValues? series.values p.windowSize.toNat).map (eventsOfWindow name p)).getD []

end Command

end Slowdown
