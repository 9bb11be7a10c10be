/-
What is never an outlier: of `n` small numbers those between the values of rank `n/4` from either
end, and that is at least half of them. An estimate on small candidates therefore never falls back
on the ones it took for outliers.
-/
import Slowdown.Proofs.Baseline.Robust

namespace Slowdown

open Double

namespace Sample

/-! ## Ascending arrangements -/

section

variable {values s : List Double} (hsm : ∀ v ∈ values, v.IsSmall) (hs : s.Perm values)
  (ascending : s.Pairwise (· ≤ ·))

include hsm hs ascending

/-- An ascending arrangement and the sorted list can differ in the signs of zeros only. -/
theorem le_of_same_rank {i : Nat} {x y : Double} (hx : s[i]? = some x)
    (hy : (sort values)[i]? = some y) : x ≤ y ∧ y ≤ x := by
  have hunits := units_eq_of_rank (hs.trans (sort_perm values).symm) ascending
    (sort_ascending hsm) hx hy
  have hxn := (hsm x (hs.mem_iff.1 (mem_of_rank hx))).isNaN
  have hyn := (sort_small hsm y (mem_of_rank hy)).isNaN
  rw [le_iff, le_iff]
  exact ⟨⟨hxn, hyn, hunits.le⟩, hyn, hxn, hunits.ge⟩

/-- No value between those of rank `n/4` from either end is left out. -/
theorem filter_inner_withoutOutliers {low high : Double} (hlow : s[values.length / 4]? = some low)
    (hhigh : s[values.length - 1 - values.length / 4]? = some high) :
    ((withoutOutliers values).filter fun v => low ≤ v ∧ v ≤ high) =
      values.filter fun v => low ≤ v ∧ v ≤ high := by
  obtain ⟨lower, upper, hkept, houtside⟩ := exists_interval hsm
  have hlen : s.length = (sort values).length := by rw [hs.length_eq, length_sort]
  obtain ⟨hi, -⟩ := List.getElem?_eq_some_iff.1 hlow
  obtain ⟨hj, -⟩ := List.getElem?_eq_some_iff.1 hhigh
  obtain ⟨low', hlow'⟩ := exists_rank (hlen ▸ hi)
  obtain ⟨high', hhigh'⟩ := exists_rank (hlen ▸ hj)
  obtain ⟨hll, hhu⟩ := houtside low' high' hlow' hhigh'
  -- the fences are outside the two ranks, whichever arrangement these are taken from
  have hlower := le_trans hll (le_of_same_rank hsm hs ascending hlow hlow').2
  have hupper := le_trans (le_of_same_rank hsm hs ascending hhigh hhigh').1 hhu
  rw [hkept, List.filter_filter]
  refine List.filter_congr fun v _ => ?_
  rw [Bool.and_eq_left_iff_imp, decide_eq_true_eq, decide_eq_true_eq]
  rintro ⟨hlv, hvh⟩
  exact ⟨le_trans hlower hlv, le_trans hvh hupper⟩

end

/-! ## Outliers of small numbers -/

/-- What is kept of a sample with the ascending arrangement `s`. -/
structure KeepsInner (values s : List Double) : Prop where
  sublist : (withoutOutliers values).Sublist values
  /-- The sample is intersected with an interval. -/
  interval : ∃ lower upper, withoutOutliers values = values.filter fun v => lower ≤ v ∧ v ≤ upper
  /-- Of the values between two ranks every occurrence is kept. -/
  inner : ∀ low high, s[values.length / 4]? = some low →
    s[values.length - 1 - values.length / 4]? = some high →
    ((withoutOutliers values).filter fun v => low ≤ v ∧ v ≤ high) =
      values.filter fun v => low ≤ v ∧ v ≤ high
  many : values.length - 2 * (values.length / 4) ≤ (withoutOutliers values).length
  half : values.length ≤ 2 * (withoutOutliers values).length
  few : values.length < 4 → withoutOutliers values = values

theorem keepsInner {values s : List Double} (hsm : ∀ v ∈ values, v.IsSmall) (hs : s.Perm values)
    (ascending : s.Pairwise (· ≤ ·)) : KeepsInner values s where
  sublist := Window.withoutOutliers_sublist values
  interval := by
    obtain ⟨lower, upper, hkept, -⟩ := exists_interval hsm
    exact ⟨lower, upper, hkept⟩
  inner _ _ hlow hhigh := filter_inner_withoutOutliers hsm hs ascending hlow hhigh
  many := le_length_withoutOutliers hsm
  half := by
    have hmany := le_length_withoutOutliers hsm
    omega
  few := withoutOutliers_of_few

end Sample

/-- Of small candidates some are left when the outliers are gone. -/
theorem Window.withoutOutliers_ne_nil {w : Window} (hsm : ∀ v ∈ w.candidates, v.IsSmall)
    (hne : w.candidates ≠ []) : Sample.withoutOutliers w.candidates ≠ [] := by
  have hmany := Sample.le_length_withoutOutliers hsm
  rw [← List.length_pos_iff] at hne ⊢
  omega

/-- Of `n` finite numbers below `2^1023` the values that are no outliers are at least half, among
them all between the values of rank `n/4` from either end. As candidates of a window they leave
something when the outliers are gone, so that the fallback is not taken, and an estimate retains
at least `n - 2 * (n / 4)` of them. -/
theorem inner_half_kept (values s : List Double) (small : ∀ v ∈ values, v.IsSmall)
    (hs : s.Perm values) (ascending : s.Pairwise (· ≤ ·)) :
    Sample.KeepsInner values s ∧
    ∀ w : Window, w.candidates = values → values ≠ [] →
      Sample.withoutOutliers w.candidates ≠ [] ∧
      w.retained = Sample.withoutOutliers w.candidates ∧
      ∀ p current baseline candidates retained,
        w.estimate p = .ready current baseline candidates retained →
        candidates - 2 * (candidates / 4) ≤ retained := by
  refine ⟨Sample.keepsInner small hs ascending, ?_⟩
  rintro w rfl hne
  have hkept := w.withoutOutliers_ne_nil small hne
  have hretained := Window.retained_eq hkept
  refine ⟨hkept, hretained, fun p current baseline candidates retained h => ?_⟩
  obtain ⟨-, -, -, rfl, rfl⟩ := Window.estimate_eq_ready_iff.1 h
  rw [hretained]
  exact Sample.le_length_withoutOutliers small

/-- Beside a spike the other five of six candidates are kept, in their order. -/
theorem inner_half_kept_spike :
    ((Sample.withoutOutliers [12, 10, 11, 500, 10, 11]).filter fun v =>
        (10 : Double) ≤ v ∧ v ≤ 12) = [12, 10, 11, 10, 11] ∧
    4 ≤ (Sample.withoutOutliers [12, 10, 11, 500, 10, 11]).length ∧
    Window.retained ⟨[12, 10, 11, 500, 10, 11, 13], by simp⟩ =
      Sample.withoutOutliers [12, 10, 11, 500, 10, 11] := by
  obtain ⟨hkeeps, hwindow⟩ := inner_half_kept [12, 10, 11, 500, 10, 11] [10, 10, 11, 11, 12, 500]
    (by decide +kernel) (by decide +kernel) (by decide +kernel)
  refine ⟨(hkeeps.inner 10 12 rfl rfl).trans (by decide +kernel), hkeeps.many, ?_⟩
  exact (hwindow ⟨[12, 10, 11, 500, 10, 11, 13], by simp⟩ (by simp [Window.candidates])
    (by simp)).2.1

end Slowdown
