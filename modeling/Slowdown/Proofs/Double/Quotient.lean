/-
Quotients over a divisor that is not at most zero, be it infinite or a NaN. Those that are numbers
rise with the numerator, infinite ones included, and what exceeds a limit that is not negative
still does over a larger numerator.
-/
import Slowdown.Proofs.Double.Special

namespace Slowdown

namespace Double

/-! ## Infinities in the numeric order -/

theorem le_infinity_of_not {x : Double} (h : x.isNaN = false) :
    x ≤ infinity false ∧ infinity true ≤ x := by
  cases hx : x.isInfinite with
  | false => exact le_infinity (isFinite_of_not h hx)
  | true =>
    rw [eq_infinity_negative hx]
    cases x.negative <;> decide

theorem eq_of_infinity_le {x : Double} (h : infinity false ≤ x) : x = infinity false := by
  obtain ⟨-, hnan, hle⟩ := le_iff.1 h
  have hinfinite : x.isInfinite = true := by
    refine isInfinite_of_not hnan (Bool.eq_false_iff.2 fun hfinite => ?_)
    have hlt := units_lt_infinity hfinite
    rw [units_infinity] at hle
    omega
  have hpos : 0 ≤ x := zero_le_iff.2 ⟨hnan, by rw [units_infinity] at hle; omega⟩
  exact eq_infinity hinfinite hpos

theorem eq_of_le_infinity {x : Double} (h : x ≤ infinity true) : x = infinity true := by
  have hneg : infinity false ≤ -x := by
    obtain ⟨hnan, -, hle⟩ := le_iff.1 h
    have hsign : (infinity true).units = -(infinity false).units := units_neg (infinity false)
    exact le_iff.2 ⟨rfl, hnan, by rw [units_neg]; omega⟩
  have hx : x = -(-x) := by
    obtain ⟨s, c, hc⟩ := x
    show _ = neg (neg _)
    simp [neg]
  rw [hx, eq_of_infinity_le hneg]
  rfl

/-! ## Divisors -/

theorem isZero_of_isInfinite {x : Double} (h : x.isInfinite = true) : x.isZero = false := by
  rw [eq_infinity_negative h, isZero_infinity]

theorem isNaN_div_iff {x y : Double} : (x / y).isNaN = true ↔
    x.isNaN = true ∨ y.isNaN = true ∨ (x.isInfinite = true ∧ y.isInfinite = true) ∨
      (x.isZero = true ∧ y.isZero = true) := by
  have hzero {v : Double} := isZero_of_isInfinite (x := v)
  show (div x y).isNaN = true ↔ _
  unfold div
  dsimp only
  split_ifs with hnan
  · rw [Bool.or_eq_true] at hnan
    simp only [isNaN_nan, true_iff]
    exact hnan.imp_right .inl
  all_goals simp_all [isNaN_round, isNaN_zero, isNaN_nan]

theorem infinity_div (s : Bool) {z : Double} (hz : z.isFinite = true) (hz0 : 0 < z.units) :
    infinity s / z = infinity s := by
  show div (infinity s) z = _
  simp only [div, isNaN_infinity, isInfinite_infinity, isNaN_of_isFinite hz,
    isInfinite_of_isFinite hz, negative_of_pos hz0]
  cases s <;> rfl

/-- Over a finite positive divisor quotients rise with the numerator. -/
theorem div_le_div_of_finite {x y z : Double} (hxy : x ≤ y) (hz : z.isFinite = true)
    (hz0 : 0 < z.units) : x / z ≤ y / z := by
  obtain ⟨hx, hy, hle⟩ := le_iff.1 hxy
  have hzero : z.isZero = false := by
    rw [← Bool.not_eq_true, ← units_eq_zero]
    omega
  have hnumber {v : Double} (hv : v.isNaN = false) : (v / z).isNaN = false :=
    isNaN_div_of_not hv (isNaN_of_isFinite hz) (.inr (isInfinite_of_isFinite hz)) (.inr hzero)
  cases hyi : y.isInfinite with
  | true =>
    cases hs : y.negative with
    | false =>
      rw [eq_infinity_negative hyi, hs, infinity_div _ hz hz0]
      exact (le_infinity_of_not (hnumber hx)).1
    | true =>
      -- nothing else is at most the negative infinity
      have hyinf : y = infinity true := hs ▸ eq_infinity_negative hyi
      have hxinf : x = infinity true := eq_of_le_infinity (hyinf ▸ hxy)
      rw [hxinf, hyinf]
      exact le_self (hnumber rfl)
  | false =>
    cases hxi : x.isInfinite with
    | true =>
      cases hs : x.negative with
      | false =>
        have hxinf : x = infinity false := hs ▸ eq_infinity_negative hxi
        have hyinf : y = infinity false := eq_of_infinity_le (hxinf ▸ hxy)
        rw [hyinf, isInfinite_infinity] at hyi
        cases hyi
      | true =>
        rw [eq_infinity_negative hxi, hs, infinity_div _ hz hz0]
        exact (le_infinity_of_not (hnumber hy)).2
    | false =>
      have hfx := isFinite_of_not hx hxi
      have hfy := isFinite_of_not hy hyi
      rw [le_iff, units_div_of_pos hfx hz hz0, units_div_of_pos hfy hz hz0]
      refine ⟨hnumber hx, hnumber hy, units_ofRatio_mono (by omega) (by omega) ?_⟩
      exact Int.mul_le_mul_of_nonneg_right
        (Int.mul_le_mul_of_nonneg_right hle (by omega)) (by omega)

section

variable {x y z : Double} (hz : ¬ z ≤ 0)

include hz

/-- The divisor of a quotient that is a number is finite, or it is infinite and the numerator is
not. -/
theorem divisor_cases (h : (x / z).isNaN = false) :
    z.isFinite = true ∧ 0 < z.units ∨ z = infinity false ∧ x.isFinite = true := by
  rw [← Bool.not_eq_true, isNaN_div_iff, not_or, not_or, not_or, Bool.not_eq_true,
    Bool.not_eq_true] at h
  obtain ⟨hx, hznan, hinfinite, -⟩ := h
  obtain ⟨-, hpos⟩ := zero_lt_iff.1 ((zero_lt_iff_of_not_le hz).2 hznan)
  cases hzi : z.isInfinite with
  | false => exact .inl ⟨isFinite_of_not hznan hzi, hpos⟩
  | true =>
    have hzinf : z = infinity false := eq_infinity hzi (zero_le_iff.2 ⟨hznan, hpos.le⟩)
    exact .inr ⟨hzinf, isFinite_of_not hx (Bool.eq_false_iff.2 fun hxi => hinfinite ⟨hxi, hzi⟩)⟩

/-- Two quotients that are numbers are in the order of their numerators. -/
theorem div_le_div_right (hxy : x ≤ y) (hx : (x / z).isNaN = false)
    (hy : (y / z).isNaN = false) : x / z ≤ y / z := by
  rcases divisor_cases hz hx with ⟨hfinite, hpos⟩ | ⟨rfl, hfx⟩
  · exact div_le_div_of_finite hxy hfinite hpos
  · rcases divisor_cases hz hy with ⟨hfinite, -⟩ | ⟨-, hfy⟩
    · cases hfinite
    · rw [div_infinity hfx, div_infinity hfy, le_iff, units_zero, units_zero]
      exact ⟨isNaN_zero _, isNaN_zero _, Int.le_refl _⟩

/-- A quotient above a limit that is not negative stays above it with a larger numerator. -/
theorem lt_div_of_le (hxy : x ≤ y) {limit : Double} (hlimit : 0 ≤ limit.units)
    (h : limit < x / z) : limit < y / z := by
  rcases divisor_cases hz (lt_iff.1 h).2.1 with ⟨hfinite, hpos⟩ | ⟨rfl, hfx⟩
  · exact lt_of_lt_of_le h (div_le_div_of_finite hxy hfinite hpos)
  · rw [div_infinity hfx] at h
    exact absurd h (not_lt_zero hlimit _)

end

end Double

end Slowdown
