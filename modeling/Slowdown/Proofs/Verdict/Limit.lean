/-
The decision on a ratio against exact arithmetic. The ratio is rounded and so is the limit, yet a
regression is more than the limit times the baseline, and what is at least the next number above
the limit times the baseline is one. In between the midpoint decides.
-/
import Slowdown.Proofs.Double.Exact
import Slowdown.Proofs.Verdict.Series

namespace Slowdown

open Double

section

variable {c b t : Double} (hc : c.isFinite = true) (hb : b.isFinite = true) (hb0 : 0 < b)
  (ht : t.isFinite = true) (ht0 : 0 ≤ t)

include hc hb hb0 ht ht0

/-- A regression is more than the baseline times the midpoint of the limit and the next number
above, or as much if the limit is odd. -/
theorem classify_eq_regression_iff_toRat : (classify c b t).2 = .regression ↔
    ((1 + t).toRat + (1 + t).next.toRat) / 2 * b.toRat < c.toRat ∨
      ((1 + t).toRat + (1 + t).next.toRat) / 2 * b.toRat = c.toRat ∧ (1 + t).code % 2 = 1 := by
  have hfinite := isFinite_one_add ht (zero_le_iff.1 ht0).2
  rw [classify_eq_regression_iff,
    lt_div_iff_toRat hfinite (one_add_pos ht0).le hc hb (zero_lt_iff.1 hb0).2]

/-- For finite numbers, a positive baseline and a threshold that is not negative, with the limit
`1 + t` rounded and its next number above: what is a regression exceeds the limit times the
baseline, what reaches the next number times the baseline is one, and what does not exceed the
limit times the baseline is none. All products are exact, and a ratio may leave the range of
doubles at either end. -/
theorem decision_against_exact :
    (1 + t).isFinite = true ∧ 1 + t ⋖ (1 + t).next ∧
    ((classify c b t).2 = .regression → (1 + t).toRat * b.toRat < c.toRat) ∧
    ((1 + t).next.isFinite = true → (1 + t).next.toRat * b.toRat ≤ c.toRat →
      (classify c b t).2 = .regression) ∧
    (c.toRat ≤ (1 + t).toRat * b.toRat → (classify c b t).2 = .ok) := by
  have hfinite := isFinite_one_add ht (zero_le_iff.1 ht0).2
  have hcov := covBy_next hfinite (one_add_pos ht0).le
  have hiff := classify_eq_regression_iff_toRat hc hb hb0 ht ht0
  have hbpos : 0 < b.toRat := toRat_pos.2 (zero_lt_iff.1 hb0).2
  have hnext : (1 + t).toRat < (1 + t).next.toRat := toRat_lt_toRat.2 (lt_iff.1 hcov.lt).2.2
  -- the midpoint times the baseline lies strictly between the two products
  have hlow : (1 + t).toRat * b.toRat < ((1 + t).toRat + (1 + t).next.toRat) / 2 * b.toRat :=
    mul_lt_mul_of_pos_right (left_lt_add_div_two.2 hnext) hbpos
  have hhigh : ((1 + t).toRat + (1 + t).next.toRat) / 2 * b.toRat < (1 + t).next.toRat * b.toRat :=
    mul_lt_mul_of_pos_right (add_div_two_lt_right.2 hnext) hbpos
  have hexceeds : (classify c b t).2 = .regression → (1 + t).toRat * b.toRat < c.toRat := by
    intro h
    rcases hiff.1 h with hmid | ⟨hmid, -⟩
    · exact hlow.trans hmid
    · exact hlow.trans_eq hmid
  refine ⟨hfinite, hcov, hexceeds, fun _ h => hiff.2 (.inl (hhigh.trans_le h)), fun h => ?_⟩
  rw [classify_eq_ok_iff, ← classify_eq_regression_iff]
  exact fun hregression => absurd (hexceeds hregression) (not_lt.2 h)

end

/-- A ratio exactly at the limit, one above, one that overflows and one that underflows. -/
theorem decision_against_exact_quarter :
    (classify (.ofDecimal 125 1) 10 (.ofDecimal 25 2)).2 = .ok ∧
    (classify 13 10 (.ofDecimal 25 2)).2 = .regression ∧
    (classify 1 ⟨false, 1, by decide⟩ (.ofDecimal 25 2)).2 = .regression ∧
    (classify ⟨false, 1, by decide⟩ 10 (.ofDecimal 25 2)).2 = .ok := by
  have quarter : (Double.ofDecimal 25 2).isFinite = true ∧ 0 ≤ Double.ofDecimal 25 2 := by
    decide +kernel
  have ten : (10 : Double).isFinite = true ∧ 0 < (10 : Double) := by decide +kernel
  have hlimit : (1 + Double.ofDecimal 25 2).next.isFinite = true := by decide +kernel
  obtain ⟨-, -, -, -, hat⟩ := decision_against_exact (c := .ofDecimal 125 1) (by decide +kernel)
    ten.1 ten.2 quarter.1 quarter.2
  obtain ⟨-, -, -, habove, -⟩ := decision_against_exact (c := 13) (by decide +kernel)
    ten.1 ten.2 quarter.1 quarter.2
  obtain ⟨-, -, -, hover, -⟩ := decision_against_exact (c := 1) (b := ⟨false, 1, by decide⟩)
    isFinite_one (by decide) (by decide) quarter.1 quarter.2
  obtain ⟨-, -, -, -, hunder⟩ := decision_against_exact (c := ⟨false, 1, by decide⟩) (by decide)
    ten.1 ten.2 quarter.1 quarter.2
  exact ⟨hat (by decide +kernel), habove hlimit (by decide +kernel),
    hover hlimit (by decide +kernel), hunder (by decide +kernel)⟩

end Slowdown
