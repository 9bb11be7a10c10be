/-
Two series that differ in their newest value only. They have the same baseline and the same
reason, if any; a larger newest value has a ratio that is no smaller, and never turns a regression
into none.
-/
import Slowdown.Proofs.Baseline.Arrangement
import Slowdown.Proofs.Double.Quotient
import Slowdown.Proofs.Verdict.Series

namespace Slowdown

open Double

/-- A verdict, and the one on a newest value that is no smaller. -/
structure Verdict.Raised (v v' : Verdict) : Prop where
  reason : v'.reason = v.reason
  baseline : v'.baseline = v.baseline
  /-- There are two ratios or none; two that are numbers do not fall. -/
  ratio : Option.Rel (fun q q' => q.isNaN = false → q'.isNaN = false → q ≤ q') v.ratio v'.ratio
  regression : v.status = .regression → v'.status = .regression

/-- Against a baseline that is not at most zero a larger value stays a regression. -/
theorem classify_regression_of_le {p : Policy} {c c' b : Double} (valid : p.flaw? = none)
    (hb : ¬ b ≤ 0) (hc : c ≤ c') (h : (classify c b p.threshold).2 = .regression) :
    (classify c' b p.threshold).2 = .regression := by
  obtain ⟨-, -, -, hthreshold⟩ := Policy.flaw?_eq_none_iff.1 valid
  rw [classify_eq_regression_iff] at h ⊢
  exact lt_div_of_le hb hc (one_add_pos hthreshold).le h

/-! ## Windows -/

namespace Window

/-- A window of a newest value and the values before it. -/
def endingWith (before : List Double) (newest : Double) : Window :=
  ⟨before ++ [newest], by simp⟩

theorem current_endingWith (before : List Double) (newest : Double) :
    (endingWith before newest).current = newest := by
  simp [endingWith, current]

theorem candidates_endingWith (before : List Double) (newest : Double) :
    (endingWith before newest).candidates = before := by
  simp [endingWith, candidates]

/-- Which values stand before the newest in a window does not depend on the newest. -/
theorem ofValues?_concat (values : List Double) (newest : Double) (size : Nat) :
    ofValues? (values ++ [newest]) size =
      some (endingWith (values.drop (values.length + 1 - max size 1)) newest) := by
  have hdrop : values.length + 1 - max size 1 ≤ values.length := by omega
  simp [ofValues?, endingWith, List.drop_append_of_le_length hdrop]

/-- The verdicts on two windows with the same candidates. -/
theorem raised_verdict {p : Policy} {w w' : Window} (valid : p.flaw? = none)
    (hcandidates : w'.candidates.Perm w.candidates) (hcurrent : w.current ≤ w'.current)
    (name : String) (unit unit' : Option String) :
    ((w.estimate p).verdict name unit p).Raised ((w'.estimate p).verdict name unit' p) := by
  simp only [estimate, size_eq_of_perm hcandidates, baseline_eq_of_perm hcandidates]
  split_ifs with hsize hb
  · exact ⟨rfl, rfl, .none, id⟩
  · exact ⟨rfl, rfl, .none, id⟩
  · exact ⟨rfl, rfl, .some (div_le_div_right hb hcurrent),
      classify_regression_of_le valid hb hcurrent⟩

end Window

/-! ## Series -/

/-- Under a valid policy, of two series with the same values before the newest, whatever doubles
they are, the one with the larger newest value has a verdict with the same reason and baseline, a
ratio that is no smaller, and the status of a regression if the other has it. A NaN is not larger
than any value, nor smaller. -/
theorem verdict_rises_with_newest {p : Policy} (valid : p.flaw? = none) (values : List Double)
    {newest newest' : Double} (h : newest ≤ newest') (name : String) (unit unit' : Option String) :
    ∃ v v', Series.verdict? ⟨values ++ [newest], unit⟩ name p = some v ∧
      Series.verdict? ⟨values ++ [newest'], unit'⟩ name p = some v' ∧
      v.current = newest ∧ v'.current = newest' ∧ v.Raised v' := by
  have hverdict (c : Double) (unit : Option String) :
      Series.verdict? ⟨values ++ [c], unit⟩ name p =
        some (((Window.endingWith (values.drop (values.length + 1 - max p.windowSize.toNat 1))
          c).estimate p).verdict name unit p) := by
    rw [Series.verdict?, Window.ofValues?_concat, Option.map_some]
  refine ⟨_, _, hverdict newest unit, hverdict newest' unit', ?_, ?_, ?_⟩
  · rw [Window.current_verdict, Window.current_endingWith]
  · rw [Window.current_verdict, Window.current_endingWith]
  · refine Window.raised_verdict valid ?_ ?_ name unit unit'
    · rw [Window.candidates_endingWith, Window.candidates_endingWith]
    · rwa [Window.current_endingWith, Window.current_endingWith]

/-- The newest value rises to infinity, over candidates one of which is a NaN. -/
theorem verdict_rises_with_newest_infinite :
    Policy.flaw? ⟨6, .ofDecimal 20 2, 3⟩ = none ∧ (1 : Double) ≤ infinity false ∧
    ∃ v v', Series.verdict? ⟨[1, nan, 1, 1, 1] ++ [1], none⟩ "fib"
        ⟨6, .ofDecimal 20 2, 3⟩ = some v ∧
      Series.verdict? ⟨[1, nan, 1, 1, 1] ++ [infinity false], some "ms"⟩ "fib"
        ⟨6, .ofDecimal 20 2, 3⟩ = some v' ∧ v.Raised v' := by
  have valid : Policy.flaw? ⟨6, .ofDecimal 20 2, 3⟩ = none := by decide +kernel
  have hle : (1 : Double) ≤ infinity false := by decide +kernel
  obtain ⟨v, v', hv, hv', -, -, raised⟩ :=
    verdict_rises_with_newest valid [1, nan, 1, 1, 1] hle "fib" none (some "ms")
  exact ⟨valid, hle, v, v', hv, hv', raised⟩

end Slowdown
