/-
Baselines: the window of newest values of a series, and what can be expected of its newest
value, estimated from the others.
-/
import Slowdown.Policy
import Slowdown.Sample

namespace Slowdown

/-- The newest values of a series; there is at least one. -/
structure Window where
  values : List Double
  nonempty : values ≠ []

namespace Window

/-- The last `size` values of a series, but at least the newest. -/
def ofValues? (values : List Double) (size : Nat) : Option Window :=
  if h : values = [] then none
  else
    some ⟨values.drop (values.length - max size 1), by
      have := List.length_pos_iff.2 h
      rw [ne_eq, List.drop_eq_nil_iff]
      omega⟩

/-- The newest value. -/
def current (w : Window) : Double := w.values.getLast w.nonempty

/-- The values by which the newest is judged. -/
def candidates (w : Window) : List Double := w.values.dropLast

/-- How many values are looked at, the newest included. -/
def size (w : Window) : Nat := w.values.length

end Window

/-! ## Estimates -/

/-- Why a benchmark is not judged. -/
inductive SkipReason where
  | insufficientHistory (points required : Size)
  | nonPositiveBaseline
  deriving DecidableEq

/-- The words for a reason, as lines, rows and traces have them. -/
def SkipReason.text : SkipReason → String
  | insufficientHistory points required => s!"only {points} data points (need {required})"
  | nonPositiveBaseline => "baseline median is zero or negative"

/-- What a window says about its newest value. -/
inductive Estimate where
  /-- The baseline, and how many candidates there were and how many are no outliers. -/
  | ready (current baseline : Double) (candidates retained : Nat)
  | skipped (current : Double) (baseline : Option Double) (reason : SkipReason)

namespace Estimate

/-- The estimated baseline, unless there are too few values for one. -/
def baseline? : Estimate → Option Double
  | ready _ baseline _ _ => some baseline
  | skipped _ baseline _ => baseline

end Estimate

/-- The candidates that are no outliers, or all of them if every one is. -/
def Window.retained (w : Window) : List Double :=
  let kept := Sample.withoutOutliers w.candidates
  if kept = [] then w.candidates else kept

/-- The median of the retained candidates; a window of one value has the baseline zero. -/
def Window.baseline (w : Window) : Double := (Sample.median? w.retained).getD 0

/-- Estimates what the newest value should be. Too short a window is not judged, nor is one whose
baseline is at most zero, since a ratio to it would say nothing. -/
def Window.estimate (w : Window) (p : Policy) : Estimate :=
  if h : w.size < p.minHistory.toNat then
    let points : Size := ⟨w.size, Nat.lt_trans h p.minHistory.toNat_lt⟩
    .skipped w.current none (.insufficientHistory points p.minHistory)
  else if w.baseline ≤ 0 then .skipped w.current (some w.baseline) .nonPositiveBaseline
  else .ready w.current w.baseline w.candidates.length w.retained.length

end Slowdown
