/-
The order of the candidates does not matter to an estimate. The total order tells any two layouts
apart, so the values of a sample, whatever doubles they are, have one sorted list, and with it one
median and one pair of fences. The fences let the same values through in any order.
-/
import Slowdown.Proofs.Baseline.Window
import Slowdown.Proofs.Double.Units

namespace Slowdown

open Double

/-! ## Statistics -/

namespace Sample

variable {xs ys : List Double} (h : ys.Perm xs)

include h

theorem median?_eq_of_perm : median? ys = median? xs := by
  rw [median?, median?, sort_eq_of_perm h]

theorem quartiles?_eq_of_perm : quartiles? ys = quartiles? xs := by
  rw [quartiles?, quartiles?, sort_eq_of_perm h, h.length_eq]

theorem fences?_eq_of_perm : fences? ys = fences? xs := by
  rw [fences?, fences?, quartiles?_eq_of_perm h]

theorem perm_withoutOutliers : (withoutOutliers ys).Perm (withoutOutliers xs) := by
  rw [withoutOutliers, withoutOutliers, fences?_eq_of_perm h]
  cases fences? xs with
  | none => exact h
  | some fences => exact h.filter _

end Sample

/-! ## Windows -/

namespace Window

variable {w w' : Window} (h : w'.candidates.Perm w.candidates)

include h

theorem size_eq_of_perm : w'.size = w.size := by
  have hlen := h.length_eq
  rw [length_candidates, length_candidates] at hlen
  have hpos := w.size_pos
  have hpos' := w'.size_pos
  omega

/-- The fallback is taken in every order or in none. -/
theorem perm_retained : w'.retained.Perm w.retained := by
  have hkept := Sample.perm_withoutOutliers h
  by_cases hnil : Sample.withoutOutliers w.candidates = []
  · have hnil' : Sample.withoutOutliers w'.candidates = [] := by
      rw [hnil] at hkept
      exact hkept.eq_nil
    rw [retained, retained, if_pos hnil, if_pos hnil']
    exact h
  · have hnil' : Sample.withoutOutliers w'.candidates ≠ [] := by
      intro hnil'
      rw [hnil'] at hkept
      exact hnil hkept.symm.eq_nil
    rw [retained_eq hnil, retained_eq hnil']
    exact hkept

theorem baseline_eq_of_perm : w'.baseline = w.baseline := by
  rw [baseline, baseline, Sample.median?_eq_of_perm (perm_retained h)]

theorem estimate_eq_of_perm (hcurrent : w'.current = w.current) (p : Policy) :
    w'.estimate p = w.estimate p := by
  simp only [estimate, size_eq_of_perm h, baseline_eq_of_perm h, h.length_eq,
    (perm_retained h).length_eq, hcurrent]

end Window

/-- Of any doubles, NaN, infinities and both zeros included: two windows with the same newest value
and the same candidates in another order have the same estimate, to the last bit; and for two
arrangements of a sample the median, the quartiles and the fences are the same, while the values
that are no outliers are the same ones, each time in the order of their sample. -/
theorem estimate_rearranged :
    (∀ (p : Policy) (w w' : Window), w'.current = w.current →
      w'.candidates.Perm w.candidates → w'.estimate p = w.estimate p) ∧
    ∀ xs ys : List Double, ys.Perm xs →
      Sample.median? ys = Sample.median? xs ∧
      Sample.quartiles? ys = Sample.quartiles? xs ∧
      Sample.fences? ys = Sample.fences? xs ∧
      (Sample.withoutOutliers ys).Perm (Sample.withoutOutliers xs) ∧
      (Sample.withoutOutliers ys).Sublist ys ∧ (Sample.withoutOutliers xs).Sublist xs := by
  refine ⟨fun p w w' hcurrent h => Window.estimate_eq_of_perm h hcurrent p, fun xs ys h => ?_⟩
  exact ⟨Sample.median?_eq_of_perm h, Sample.quartiles?_eq_of_perm h, Sample.fences?_eq_of_perm h,
    Sample.perm_withoutOutliers h, Window.withoutOutliers_sublist ys,
    Window.withoutOutliers_sublist xs⟩

/-- Both zeros, both infinities and NaN among the candidates, in two orders. -/
theorem estimate_rearranged_special :
    [0, nan, infinity true, 2, zero true, infinity false].Perm
      [infinity false, 2, zero true, 0, infinity true, nan] ∧
    Window.estimate ⟨[0, nan, infinity true, 2, zero true, infinity false, 7], by simp⟩ ⟨9, 0, 3⟩ =
      Window.estimate ⟨[infinity false, 2, zero true, 0, infinity true, nan, 7], by simp⟩
        ⟨9, 0, 3⟩ ∧
    Sample.fences? [0, nan, infinity true, 2, zero true, infinity false] =
      Sample.fences? [infinity false, 2, zero true, 0, infinity true, nan] := by
  have hperm : [0, nan, infinity true, 2, zero true, infinity false].Perm
      [infinity false, 2, zero true, 0, infinity true, nan] := by decide +kernel
  obtain ⟨hestimate, hsample⟩ := estimate_rearranged
  exact ⟨hperm, hestimate ⟨9, 0, 3⟩ _ _ (by simp [Window.current]) hperm, (hsample _ _ hperm).2.2.1⟩

end Slowdown
