/-
The policy of a check: how many runs are looked at, how much slower the newest may be, and how
many values a benchmark needs before it is judged.
-/
import Slowdown.Double.Order
import Slowdown.Decimal.Layout
import Slowdown.Size

namespace Slowdown

/-- The settings of a check. Nothing keeps them from being unusable; `Policy.flaw?` tells. -/
structure Policy where
  /-- How many of the newest values are looked at; the newest of them is judged by the others. -/
  windowSize : Size
  /-- The tolerated relative slowdown. -/
  threshold : Double
  /-- How many values a window needs to be judged. -/
  minHistory : Size
  deriving DecidableEq

namespace Policy

/-! ## Presets -/

/-- Twenty runs, of which ten are needed, and a fifth slower at most. -/
def standard : Policy := ⟨20, .ofDecimal 20 2, 10⟩

/-- A longer history and a tighter threshold. -/
def strict : Policy := ⟨30, .ofDecimal 10 2, 15⟩

/-- A short history and a loose threshold, for suites with a handful of runs. -/
def permissive : Policy := ⟨10, .ofDecimal 50 2, 5⟩

/-! ## Limits -/

/-- The ratio above which a value counts as a regression. -/
def ratioLimit (p : Policy) : Double := 1 + p.threshold

/-- The tolerated slowdown in percent, for display. -/
def thresholdPercent (p : Policy) : Double := p.threshold * 100

/-! ## Validity -/

/-- Why a policy cannot be used. -/
inductive Flaw where
  | emptyWindow
  | noHistory
  | historyExceedsWindow (minHistory windowSize : Size)
  | unusableThreshold (threshold : Double)
  deriving DecidableEq

/-- Shortest digits, never with an exponent; whole numbers have no point. -/
def plainLayout : Decimal.Layout := ⟨.up, none, false, false⟩

/-- What is wrong with which setting, with the values given. -/
def Flaw.detail : Flaw → String
  | emptyWindow => "window_size must be at least 1"
  | noHistory => "min_history must be at least 1"
  | historyExceedsWindow minHistory windowSize =>
    s!"min_history ({minHistory}) cannot exceed window_size ({windowSize})"
  | unusableThreshold threshold =>
    "threshold must be a non-negative fraction, got " ++ plainLayout.write threshold

/-- The message of a flaw; it is the same for a preset and for a file. -/
def Flaw.message (f : Flaw) : String := "Invalid configuration: " ++ f.detail

/-- The first flaw of a policy. -/
def flaw? (p : Policy) : Option Flaw :=
  if p.windowSize.toNat = 0 then some .emptyWindow
  else if p.minHistory.toNat = 0 then some .noHistory
  else if p.windowSize.toNat < p.minHistory.toNat then
    some (.historyExceedsWindow p.minHistory p.windowSize)
  else if p.threshold.isFinite = false ∨ p.threshold < 0 then some (.unusableThreshold p.threshold)
  else none

end Policy

end Slowdown
