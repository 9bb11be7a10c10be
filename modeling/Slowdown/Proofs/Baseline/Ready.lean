/-
Ready estimates. The baseline of one is greater than zero or a NaN, because a NaN is not at most
zero; and it is a NaN exactly if the middle of the retained candidates is undefined: if a middle
value is a NaN, or the two middle ones are the two infinities, which have no mean.
-/
import Slowdown.Proofs.Baseline.Arrangement
import Slowdown.Proofs.Double.Special
import Slowdown.Proofs.Sample.Ranks

namespace Slowdown

open Double

/-! ## Medians that are no number -/

namespace Sample

/-- A middle value is a NaN, or the two middle values are the two infinities. -/
def MiddleUndefined (values : List Double) : Prop :=
  ∃ low high, (sort values)[(values.length - 1) / 2]? = some low ∧
    (sort values)[values.length / 2]? = some high ∧
    (low.isNaN = true ∨ high.isNaN = true ∨ low = infinity true ∧ high = infinity false)

/-- Two numbers in the total order have a mean unless one is a NaN or they are the infinities. -/
theorem isNaN_mean_iff {low high : Double} (h : low.rank ≤ high.rank) :
    ((low + high) / 2).isNaN = true ↔
      low.isNaN = true ∨ high.isNaN = true ∨ low = infinity true ∧ high = infinity false := by
  rw [isNaN_half, isNaN_add_iff]
  refine or_congr_right (or_congr_right ⟨?_, ?_⟩)
  · rintro ⟨hlow, hhigh, hsign⟩
    rw [eq_infinity_negative hlow, eq_infinity_negative hhigh] at h ⊢
    -- the other two infinities stand in the other order
    cases hs : low.negative <;> cases hs' : high.negative <;> simp_all
    revert h
    decide
  · rintro ⟨rfl, rfl⟩
    decide

theorem isNaN_median?_iff {values : List Double} (hne : values ≠ []) :
    ∃ m, median? values = some m ∧ (m.isNaN = true ↔ MiddleUndefined values) := by
  have hlen := length_sort values
  have hpos := List.length_pos_iff.2 hne
  obtain ⟨low, high, hlow, hhigh, hcases⟩ :=
    middle?_eq (s := sort values) (List.length_pos_iff.1 (by omega))
  rw [hlen] at hlow hhigh hcases
  -- the definition speaks of these two values
  have hiff : MiddleUndefined values ↔
      low.isNaN = true ∨ high.isNaN = true ∨ low = infinity true ∧ high = infinity false := by
    unfold MiddleUndefined
    rw [hlow, hhigh]
    constructor
    · rintro ⟨_, _, ⟨⟩, ⟨⟩, h⟩
      exact h
    · intro h
      exact ⟨low, high, rfl, rfl, h⟩
  rw [hiff]
  rcases hcases with ⟨-, rfl, hm⟩ | ⟨heven, hm⟩
  · refine ⟨low, hm, ⟨.inl, ?_⟩⟩
    rintro (h | h | ⟨rfl, h⟩)
    · exact h
    · exact h
    · exact absurd h (by decide)
  · refine ⟨_, hm, isNaN_mean_iff ?_⟩
    obtain ⟨hi, rfl⟩ := List.getElem?_eq_some_iff.1 hlow
    obtain ⟨hj, rfl⟩ := List.getElem?_eq_some_iff.1 hhigh
    exact List.pairwise_iff_getElem.1 (sort_pairwise_rank values) _ _ hi hj (by omega)

/-- Without NaN and with only one of the infinities the middle is defined. -/
theorem not_middleUndefined {values : List Double} (hnan : ∀ v ∈ values, v.isNaN = false)
    (hinf : infinity true ∉ values ∨ infinity false ∉ values) : ¬ MiddleUndefined values := by
  rintro ⟨low, high, hlow, hhigh, h⟩
  have hml : low ∈ values := mem_sort.1 (mem_of_rank hlow)
  have hmh : high ∈ values := mem_sort.1 (mem_of_rank hhigh)
  rcases h with h | h | ⟨rfl, rfl⟩
  · rw [hnan low hml] at h
    cases h
  · rw [hnan high hmh] at h
    cases h
  · exact hinf.elim (absurd hml) (absurd hmh)

end Sample

/-! ## Baselines that are no number -/

namespace Window

theorem isNaN_baseline_iff (w : Window) :
    w.baseline.isNaN = true ↔ Sample.MiddleUndefined w.retained := by
  rw [baseline]
  by_cases hne : w.retained = []
  · rw [hne, Sample.median?, Sample.MiddleUndefined, sort_nil]
    refine iff_of_false (by decide +kernel) ?_
    rintro ⟨low, -, hlow, -⟩
    cases hlow
  · obtain ⟨m, hm, hiff⟩ := Sample.isNaN_median?_iff hne
    rw [hm]
    exact hiff

theorem isNaN_baseline {w : Window} (hnan : ∀ v ∈ w.candidates, v.isNaN = false)
    (hinf : infinity true ∉ w.candidates ∨ infinity false ∉ w.candidates) :
    w.baseline.isNaN = false := by
  have hsub := w.retained_sublist.subset
  rw [← Bool.not_eq_true, isNaN_baseline_iff]
  exact Sample.not_middleUndefined (fun v hv => hnan v (hsub hv))
    (hinf.imp (fun h hmem => h (hsub hmem)) fun h hmem => h (hsub hmem))

/-- The mean of finite values can be infinite, but it is no NaN. -/
theorem isNaN_baseline_of_isFinite {w : Window} (h : ∀ v ∈ w.candidates, v.isFinite = true) :
    w.baseline.isNaN = false := by
  refine isNaN_baseline (fun v hv => isNaN_of_isFinite (h v hv)) (.inl fun hmem => ?_)
  exact absurd (h _ hmem) (by decide)

theorem pos_baseline_iff {w : Window} (h : ¬ w.baseline ≤ 0) :
    0 < w.baseline ↔ w.baseline.isNaN = false :=
  zero_lt_iff_of_not_le h

/-- A window without candidates has the baseline zero. -/
theorem candidates_ne_nil {w : Window} (h : ¬ w.baseline ≤ 0) : w.candidates ≠ [] := by
  intro hnil
  have hretained : w.retained = [] := List.sublist_nil.1 (hnil ▸ w.retained_sublist)
  rw [baseline, hretained, Sample.median?, sort_nil] at h
  exact h (by decide +kernel)

end Window

/-! ## Few candidates -/

namespace Window

/-- Fewer than four candidates are all retained. -/
theorem retained_of_few {w : Window} (h : w.candidates.length < Sample.leastForQuartiles) :
    w.retained = w.candidates := by
  have hkept := Sample.withoutOutliers_of_few h
  rw [retained, hkept]
  simp

/-- Few candidates in the total order have their middle as the baseline. -/
theorem baseline_of_few {w : Window} {m : Double}
    (hfew : w.candidates.length < Sample.leastForQuartiles)
    (hsorted : w.candidates.Pairwise fun x y => x.rank ≤ y.rank)
    (hm : Sample.middle? w.candidates = some m) : w.baseline = m := by
  rw [baseline, retained_of_few hfew, Sample.median?, sort_eq_self hsorted, hm]
  rfl

end Window

/-! ## Ready estimates -/

/-- A ready estimate counts all values but the newest as candidates and retains some of them. Its
baseline is greater than zero unless the middle of the retained candidates is undefined; then,
and only then, it is a NaN. -/
theorem ready_usable {p : Policy} {w : Window} {current baseline : Double}
    {candidates retained : Nat} (h : w.estimate p = .ready current baseline candidates retained) :
    candidates = w.size - 1 ∧ 1 ≤ retained ∧ retained ≤ candidates ∧
    (0 < baseline ↔ ¬ Sample.MiddleUndefined w.retained) ∧
    (baseline.isNaN = true ↔ Sample.MiddleUndefined w.retained) ∧
    ((∀ v ∈ w.candidates, v.isNaN = false) →
      infinity true ∉ w.candidates ∨ infinity false ∉ w.candidates → 0 < baseline) := by
  obtain ⟨⟨-, hb⟩, -, rfl, rfl, rfl⟩ := Window.estimate_eq_ready_iff.1 h
  have hretained := Window.retained_ne_nil (Window.candidates_ne_nil hb)
  have hpos := Window.pos_baseline_iff hb
  refine ⟨w.length_candidates, List.length_pos_iff.2 hretained, w.retained_sublist.length_le,
    ?_, w.isNaN_baseline_iff, fun hnan hinf => hpos.2 (Window.isNaN_baseline hnan hinf)⟩
  rw [hpos, ← w.isNaN_baseline_iff, Bool.not_eq_true]

/-- The estimate on few candidates in the total order. -/
theorem Window.estimate_of_few {p : Policy} {w : Window} {m : Double}
    (hfew : w.candidates.length < Sample.leastForQuartiles)
    (hsorted : w.candidates.Pairwise fun x y => x.rank ≤ y.rank)
    (hm : Sample.middle? w.candidates = some m) (henough : p.minHistory.toNat ≤ w.size)
    (hpos : ¬ m ≤ 0) :
    w.estimate p = .ready w.current m w.candidates.length w.candidates.length := by
  have hbaseline := baseline_of_few hfew hsorted hm
  have hretained := congrArg List.length (retained_of_few hfew)
  exact estimate_eq_ready_iff.2 ⟨⟨henough, by rwa [hbaseline]⟩, rfl, hbaseline, rfl, hretained⟩

/-- A mean with an infinite candidate is greater than zero. -/
theorem ready_usable_infinite :
    Window.estimate ⟨[10, infinity false, 20], by simp⟩ ⟨20, .ofDecimal 20 2, 3⟩ =
      .ready 20 (infinity false) 2 2 ∧ 0 < infinity false := by
  have hready : Window.estimate ⟨[10, infinity false, 20], by simp⟩ ⟨20, .ofDecimal 20 2, 3⟩ =
      .ready 20 (infinity false) 2 2 :=
    Window.estimate_of_few (by decide) (by decide +kernel) (by decide +kernel) (by decide)
      (by decide)
  exact ⟨hready, (ready_usable hready).2.2.2.2.2 (by decide +kernel) (.inl (by decide +kernel))⟩

/-- A NaN becomes the baseline of a ready estimate, and so does the mean of the two infinities,
which is one too. -/
theorem ready_without_number :
    Window.estimate ⟨[nan, 1], by simp⟩ ⟨20, .ofDecimal 20 2, 2⟩ = .ready 1 nan 1 1 ∧
    Window.estimate ⟨[infinity true, infinity false, 1], by simp⟩ ⟨20, .ofDecimal 20 2, 3⟩ =
      .ready 1 nan 2 2 ∧
    ¬ 0 < nan := by
  refine ⟨?_, ?_, by decide⟩
  · exact Window.estimate_of_few (by decide) (by decide) (by decide +kernel) (by decide) (by decide)
  · exact Window.estimate_of_few (by decide) (by decide) (by decide +kernel) (by decide) (by decide)

end Slowdown
