/-
Where rounding leaves the finite range, and by how much it can exceed what is rounded: a result
from the second exponent on by at most one part in `2^53`.
-/
import Slowdown.Proofs.Double.Arith

namespace Slowdown

namespace Double

/-! ## Leaving the finite range -/

theorem natAbs_units_le {x : Double} (hx : x.isFinite = true) :
    x.units.natAbs ≤ unitsOfCode (infinityCode - 1) := by
  rw [isFinite_iff] at hx
  rw [natAbs_units, unitsOfCode_le]
  omega

/-- Finite magnitudes lie below the one from which roundings overflow. -/
theorem natAbs_units_lt {x : Double} (hx : x.isFinite = true) : x.units.natAbs < overflowUnits := by
  have hle := natAbs_units_le hx
  have hmid := units_last_add
  have hnext := unitsOfCode_strictMono (Nat.lt_succ_self (infinityCode - 1))
  rw [Nat.succ_eq_add_one] at hnext
  omega

theorem units_last_add_one : unitsOfCode (infinityCode - 1) + unitsPerOne < overflowUnits := by
  decide +kernel

/-- One more than a finite number that is not negative is finite. -/
theorem isFinite_one_add {x : Double} (hx : x.isFinite = true) (h0 : 0 ≤ x.units) :
    (1 + x).isFinite = true := by
  have hle := natAbs_units_le hx
  have hlast := units_last_add_one
  rw [isFinite_add isFinite_one hx, units_one]
  omega

theorem isFinite_mul {x y : Double} (hx : x.isFinite = true) (hy : y.isFinite = true) :
    (x * y).isFinite = true ↔
      x.units.natAbs * y.units.natAbs < overflowUnits * unitsPerOne := by
  rw [mul_finite hx hy, isFinite_round unitsPerOne_pos]

theorem isFinite_div_iff {x y : Double} (hx : x.isFinite = true) (hy : y.isFinite = true)
    (hy0 : y.units ≠ 0) :
    (x / y).isFinite = true ↔ x.units.natAbs * unitsPerOne < overflowUnits * y.units.natAbs := by
  rw [div_finite hx hy hy0, isFinite_round (Int.natAbs_pos.2 hy0)]

/-- A quotient by one or more stays in the finite range. -/
theorem isFinite_div {x y : Double} (hx : x.isFinite = true) (hy : y.isFinite = true)
    (h : unitsPerOne ≤ y.units.natAbs) : (x / y).isFinite = true := by
  have hpos := unitsPerOne_pos
  rw [isFinite_div_iff hx hy (by omega)]
  exact Nat.mul_lt_mul_of_lt_of_le (natAbs_units_lt hx) h (by omega)

/-- Half of a number is finite exactly if the number is. -/
theorem isFinite_half {x : Double} (hnan : x.isNaN = false) : (x / 2).isFinite = x.isFinite := by
  cases hx : x.isFinite with
  | true =>
    refine isFinite_div hx isFinite_two ?_
    rw [units_two]
    omega
  | false =>
    have hinfinite := isInfinite_of_not hnan hx
    show (div x 2).isFinite = false
    simp only [div, hnan, isNaN_of_isFinite isFinite_two, hinfinite,
      isInfinite_of_isFinite isFinite_two, Bool.or_self, Bool.false_eq_true, ↓reduceIte]
    rfl

/-! ## How far rounding goes up -/

/-- A rounded quotient exceeds the exact one by at most half a unit in its last place. -/
theorem units_nearestCode_le {a d : Nat} (hd : 0 < d) (h : binade * d ≤ a) :
    2 ^ 53 * (unitsOfCode (nearestCode a d) * d) ≤ (2 ^ 53 + 1) * a := by
  have hown : nearestCode (unitsOfCode binade * d) d = binade :=
    nearestCode_unitsOfCode hd (by decide)
  have hfirst : unitsOfCode binade = binade := unitsOfCode_of_le (by omega)
  have hcode : binade ≤ nearestCode a d := by
    rw [← hown, hfirst]
    exact nearestCode_mono hd hd (Nat.mul_le_mul_right d h)
  rcases Nat.eq_or_lt_of_le hcode with heq | hlt
  · rw [← heq, hfirst]
    exact Nat.mul_le_mul (by omega) h
  · -- the quotient is not below the midpoint with the lower neighbour
    obtain ⟨c, hc⟩ : ∃ c, nearestCode a d = c + 1 := ⟨nearestCode a d - 1, by omega⟩
    have hmax := nearestCode_le a d
    have hmid := (nearestCode_le_iff (a := a) hd (show c < infinityCode by omega)).not.1 (by omega)
    obtain ⟨s, r, rfl, hr, hr2⟩ := exists_exponent (show binade ≤ c by omega)
    rw [hc]
    rw [Nat.add_assoc] at hmid ⊢
    rw [unitsOfCode_shifted (by omega) (.inr hr), unitsOfCode_shifted (by omega) (.inr (by omega))]
      at hmid
    rw [unitsOfCode_shifted (by omega) (.inr (by omega))]
    have hlow : (2 * r + 1) * (2 ^ s * d) ≤ 2 * a := by
      have hsum : (r * 2 ^ s + (r + 1) * 2 ^ s) * d = (2 * r + 1) * (2 ^ s * d) := by ring
      rw [hsum] at hmid
      omega
    have hr' : 2 ^ 53 ≤ 2 * r := by
      rw [binade_eq] at hr
      omega
    refine Nat.le_of_mul_le_mul_left (c := 2) ?_ (by decide)
    calc 2 * (2 ^ 53 * ((r + 1) * 2 ^ s * d))
        = (2 ^ 53 * (2 * r + 1) + 2 ^ 53) * (2 ^ s * d) := by ring
      _ ≤ ((2 ^ 53 + 1) * (2 * r + 1)) * (2 ^ s * d) := Nat.mul_le_mul_right _ (by omega)
      _ = (2 ^ 53 + 1) * ((2 * r + 1) * (2 ^ s * d)) := by ring
      _ ≤ (2 ^ 53 + 1) * (2 * a) := Nat.mul_le_mul_left _ hlow
      _ = 2 * ((2 ^ 53 + 1) * a) := by ring

end Double

end Slowdown
