/-
Where arithmetic produces a NaN: a sum only of a NaN or of the two infinities, half of a number
only of a NaN, a quotient of a finite number over a positive one never.
-/
import Slowdown.Proofs.Double.Arith

namespace Slowdown

namespace Double

/-! ## Single numbers -/

theorem eq_infinity_negative {x : Double} (h : x.isInfinite = true) : x = infinity x.negative := by
  obtain ⟨s, c, hc⟩ := x
  simp only [isInfinite, decide_eq_true_eq] at h
  subst h
  rfl

theorem isNaN_zero (s : Bool) : (zero s).isNaN = false := by cases s <;> rfl

theorem isFinite_zero (s : Bool) : (zero s).isFinite = true := by cases s <;> rfl

theorem isNaN_nan : nan.isNaN = true := by decide

/-- What is not at most zero is greater, unless it is a NaN. -/
theorem zero_lt_iff_of_not_le {x : Double} (h : ¬ x ≤ 0) : 0 < x ↔ x.isNaN = false := by
  rw [le_iff, zero_eq, units_zero] at h
  rw [zero_lt_iff, and_iff_left_iff_imp]
  intro hnan
  by_contra hle
  exact h ⟨hnan, isNaN_zero false, by omega⟩

/-! ## Sums -/

theorem isNaN_add_iff {x y : Double} : (x + y).isNaN = true ↔
    x.isNaN = true ∨ y.isNaN = true ∨
      x.isInfinite = true ∧ y.isInfinite = true ∧ x.negative ≠ y.negative := by
  show (add x y).isNaN = true ↔ _
  unfold add
  dsimp only
  split_ifs with hnan hx hy hy
  · rw [Bool.or_eq_true] at hnan
    simp only [isNaN_nan, true_iff]
    exact hnan.imp_right .inl
  all_goals simp_all [isNaN_round, isNaN_zero, isNaN_nan]

/-! ## Quotients -/

/-- Only a quotient of two infinities or of two zeros is NaN without an operand that is. -/
theorem isNaN_div_of_not {x y : Double} (hx : x.isNaN = false) (hy : y.isNaN = false)
    (hinfinite : x.isInfinite = false ∨ y.isInfinite = false)
    (hzero : x.isZero = false ∨ y.isZero = false) : (x / y).isNaN = false := by
  show (div x y).isNaN = false
  unfold div
  rw [hx, hy]
  dsimp only
  split_ifs <;> simp_all [isNaN_round, isNaN_zero]

/-- Half of an infinity is one. -/
theorem isNaN_half (x : Double) : (x / 2).isNaN = x.isNaN := by
  cases hx : x.isNaN with
  | true =>
    show (div x 2).isNaN = true
    simp [div, hx, isNaN_nan]
  | false =>
    exact isNaN_div_of_not hx (by decide +kernel) (.inr (by decide +kernel))
      (.inr (by decide +kernel))

/-- A ratio over a positive baseline, be it infinite. -/
theorem isNaN_div_of_pos {x y : Double} (hx : x.isFinite = true) (hy : 0 < y) :
    (x / y).isNaN = false := by
  obtain ⟨hnan, hpos⟩ := zero_lt_iff.1 hy
  have hzero : y.isZero = false := by
    rw [← Bool.not_eq_true, ← units_eq_zero]
    omega
  exact isNaN_div_of_not (isNaN_of_isFinite hx) hnan (.inl (isInfinite_of_isFinite hx)) (.inr hzero)

end Double

end Slowdown
