/-
Windows and estimates: which values a window holds, what can become of an estimate, and where
the baseline comes from.
-/
import Slowdown.Baseline
import Slowdown.Proofs.Policy
import Mathlib.Data.List.Basic

namespace Slowdown

namespace Window

/-! ## The values of a window -/

theorem ofValues?_eq_none_iff {values : List Double} {size : Nat} :
    ofValues? values size = none ↔ values = [] := by
  unfold ofValues?
  split <;> simp_all

/-- A window holds the last values of its series. -/
theorem values_ofValues? {values : List Double} {size : Nat} {w : Window}
    (h : ofValues? values size = some w) :
    w.values = values.drop (values.length - max size 1) := by
  unfold ofValues? at h
  split at h
  · cases h
  · cases h; rfl

theorem size_ofValues? {values : List Double} {size : Nat} {w : Window}
    (h : ofValues? values size = some w) : w.size = min values.length (max size 1) := by
  rw [Window.size, values_ofValues? h, List.length_drop]
  omega

theorem mem_of_ofValues? {values : List Double} {size : Nat} {w : Window} {v : Double}
    (h : ofValues? values size = some w) (hv : v ∈ w.values) : v ∈ values := by
  rw [values_ofValues? h] at hv
  exact List.mem_of_mem_drop hv

theorem length_candidates (w : Window) : w.candidates.length = w.size - 1 := List.length_dropLast

theorem size_pos (w : Window) : 0 < w.size := List.length_pos_iff.2 w.nonempty

theorem current_mem (w : Window) : w.current ∈ w.values := List.getLast_mem w.nonempty

theorem mem_values_of_mem_candidates {w : Window} {v : Double} (h : v ∈ w.candidates) :
    v ∈ w.values :=
  (List.dropLast_sublist _).subset h

theorem current_ofValues? {values : List Double} {size : Nat} {w : Window}
    (h : ofValues? values size = some w) : values.getLast? = some w.current := by
  have hpos := w.size_pos
  have hsize := size_ofValues? h
  have hlast : w.values.getLast? = some w.current := List.getLast?_eq_some_getLast w.nonempty
  rw [values_ofValues? h, List.getLast?_drop, if_neg (by omega)] at hlast
  exact hlast

/-- Under a valid policy the window is too small exactly if the series is, and then it is the
whole series. -/
theorem size_lt_iff {values : List Double} {p : Policy} {w : Window}
    (valid : p.flaw? = none) (h : ofValues? values p.windowSize.toNat = some w) :
    (w.size < p.minHistory.toNat ↔ values.length < p.minHistory.toNat) ∧
      (values.length < p.minHistory.toNat → w.size = values.length) := by
  obtain ⟨h1, h2, -, -⟩ := Policy.flaw?_eq_none_iff.1 valid
  have hsize := size_ofValues? h
  omega

/-! ## Retained candidates -/

theorem retained_eq {w : Window} (h : Sample.withoutOutliers w.candidates ≠ []) :
    w.retained = Sample.withoutOutliers w.candidates := by
  simp [retained, h]

theorem withoutOutliers_sublist (values : List Double) :
    (Sample.withoutOutliers values).Sublist values := by
  unfold Sample.withoutOutliers
  split
  · exact List.Sublist.refl _
  · exact List.filter_sublist

theorem retained_sublist (w : Window) : w.retained.Sublist w.candidates := by
  unfold retained
  dsimp only
  split
  · exact List.Sublist.refl _
  · exact withoutOutliers_sublist _

/-- An empty sample is never the base of an estimate unless there is no candidate. -/
theorem retained_ne_nil {w : Window} (h : w.candidates ≠ []) : w.retained ≠ [] := by
  unfold retained
  dsimp only
  split
  · exact h
  · assumption

/-! ## Estimates -/

/-- The three outcomes of an estimate, each with its condition. -/
theorem estimate_cases (w : Window) (p : Policy) :
    (w.size < p.minHistory.toNat ∧ ∃ points : Size, points.toNat = w.size ∧
      w.estimate p = .skipped w.current none (.insufficientHistory points p.minHistory)) ∨
    (p.minHistory.toNat ≤ w.size ∧ w.baseline ≤ 0 ∧
      w.estimate p = .skipped w.current (some w.baseline) .nonPositiveBaseline) ∨
    (p.minHistory.toNat ≤ w.size ∧ ¬ w.baseline ≤ 0 ∧
      w.estimate p = .ready w.current w.baseline w.candidates.length w.retained.length) := by
  unfold estimate
  split_ifs with h1 h2
  · exact .inl ⟨h1, _, rfl, rfl⟩
  · exact .inr (.inl ⟨by omega, h2, rfl⟩)
  · exact .inr (.inr ⟨by omega, h2, rfl⟩)

theorem estimate_eq_ready_iff {w : Window} {p : Policy} {current baseline : Double}
    {candidates retained : Nat} :
    w.estimate p = .ready current baseline candidates retained ↔
      (p.minHistory.toNat ≤ w.size ∧ ¬ w.baseline ≤ 0) ∧ w.current = current ∧
        w.baseline = baseline ∧ w.candidates.length = candidates ∧
        w.retained.length = retained := by
  rcases estimate_cases w p with ⟨h, _, -, he⟩ | ⟨h, hb, he⟩ | ⟨h, hb, he⟩
  · rw [he]
    exact iff_of_false nofun fun hready => Nat.not_lt.2 hready.1.1 h
  · rw [he]
    exact iff_of_false nofun fun hready => hready.1.2 hb
  · rw [he, Estimate.ready.injEq, and_iff_right (And.intro h hb)]

theorem estimate_baseline? {w : Window} {p : Policy} (h : p.minHistory.toNat ≤ w.size) :
    (w.estimate p).baseline? = some w.baseline := by
  rcases estimate_cases w p with ⟨h', -⟩ | ⟨-, -, he⟩ | ⟨-, -, he⟩
  · omega
  · rw [he]; rfl
  · rw [he]; rfl

end Window

end Slowdown
