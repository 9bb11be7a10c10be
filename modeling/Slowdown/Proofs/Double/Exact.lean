/-
Exact values as rationals, and neighbours: what lies between two neighbouring numbers rounds to
one of them, so a rounded quotient exceeds a number exactly if the exact one passes the midpoint
of that number and the next.
-/
import Slowdown.Proofs.Double.Range
import Mathlib.Data.Rat.Cast.Order
import Mathlib.Order.Cover

namespace Slowdown

namespace Double

/-! ## Exact values -/

/-- The exact value of a finite number; infinity stands for `2^1024`. -/
def toRat (x : Double) : ℚ := x.units / unitsPerOne

theorem unitsPerOne_pos_rat : (0 : ℚ) < unitsPerOne := by exact_mod_cast unitsPerOne_pos

theorem toRat_lt_toRat {x y : Double} : x.toRat < y.toRat ↔ x.units < y.units := by
  rw [toRat, toRat, div_lt_div_iff_of_pos_right unitsPerOne_pos_rat, Int.cast_lt]

theorem toRat_pos {x : Double} : 0 < x.toRat ↔ 0 < x.units := by
  rw [toRat, div_pos_iff_of_pos_right unitsPerOne_pos_rat, Int.cast_pos]

/-! ## Neighbours -/

/-- The number above one that is finite and not negative. -/
def next (x : Double) : Double :=
  ⟨false, min (x.code + 1) infinityCode, Nat.lt_of_le_of_lt (Nat.min_le_right _ _) (by decide)⟩

theorem units_of_nonneg {x : Double} (h0 : 0 ≤ x.units) : x.units = unitsOfCode x.code := by
  have habs := natAbs_units x
  omega

section

variable {x : Double} (hx : x.isFinite = true) (h0 : 0 ≤ x.units)

include hx

theorem units_next : x.next.units = unitsOfCode (x.code + 1) := by
  have hcode : min (x.code + 1) infinityCode = x.code + 1 := Nat.min_eq_left (isFinite_iff.1 hx)
  show ((unitsOfCode (min (x.code + 1) infinityCode) : Nat) : Int) = _
  rw [hcode]

include h0

/-- There is nothing between a number and the next. -/
theorem covBy_next : x ⋖ x.next := by
  have hxu := units_of_nonneg h0
  have hnext := units_next hx
  have hnan : x.next.isNaN = false := isNaN_eq_false.2 (Nat.min_le_right _ _)
  refine ⟨lt_iff.2 ⟨isNaN_of_isFinite hx, hnan, ?_⟩, fun y hxy hyx => ?_⟩
  · have hlt := unitsOfCode_strictMono (Nat.lt_succ_self x.code)
    rw [Nat.succ_eq_add_one] at hlt
    omega
  · obtain ⟨-, -, hlow⟩ := lt_iff.1 hxy
    obtain ⟨-, -, hhigh⟩ := lt_iff.1 hyx
    have hyu := units_of_nonneg (h0.trans hlow.le)
    have hcode : x.code < y.code := unitsOfCode_strictMono.lt_iff_lt.1 (by omega)
    have hcode' : y.code < x.code + 1 := unitsOfCode_strictMono.lt_iff_lt.1 (by omega)
    omega

end

/-! ## Quotients against a number -/

/-- A quotient rounds to more than a number exactly if it is above the midpoint of that number and
the next, or on it and the number is odd. -/
theorem lt_div_iff_midpoint {l x y : Double} (hl : l.isFinite = true) (hl0 : 0 ≤ l.units)
    (hx : x.isFinite = true) (hy : y.isFinite = true) (hy0 : 0 < y.units) :
    l < x / y ↔ (l.units + l.next.units) * y.units < 2 * (x.units * unitsPerOne) ∨
      (l.units + l.next.units) * y.units = 2 * (x.units * unitsPerOne) ∧ l.code % 2 = 1 := by
  have hnext := units_next hl
  have hlu := units_of_nonneg hl0
  obtain ⟨d, hd⟩ := Int.eq_ofNat_of_zero_le hy0.le
  have hd0 : 0 < d := by omega
  rw [lt_iff, units_div_of_pos hx hy hy0, and_iff_right (isNaN_of_isFinite hl),
    and_iff_right (isNaN_div hx hy hy0.ne'), hd, Int.toNat_natCast, hlu, hnext, ← Int.natCast_add,
    ← Int.natCast_mul]
  rcases Int.lt_or_le x.units 0 with hneg | hnonneg
  · -- a negative quotient is below zero, and the midpoint above
    have hquotient : (ofRatio (x.units * unitsPerOne) d).units ≤ (zero false).units := by
      refine ofRatio_le_units rfl hd0 ?_
      rw [units_zero, Int.zero_mul]
      exact Int.mul_nonpos_of_nonpos_of_nonneg hneg.le (Int.natCast_nonneg _)
    have hproduct : x.units * unitsPerOne < 0 :=
      Int.mul_neg_of_neg_of_pos hneg (by exact_mod_cast unitsPerOne_pos)
    rw [units_zero] at hquotient
    omega
  · obtain ⟨a, ha⟩ := Int.eq_ofNat_of_zero_le hnonneg
    rw [ha, ← Int.natCast_mul, units_ofRatio_natCast]
    have hround := nearestCode_le_iff (a := a * unitsPerOne) hd0 (isFinite_iff.1 hl)
    have hcode : unitsOfCode l.code < unitsOfCode (nearestCode (a * unitsPerOne) d) ↔
        l.code < nearestCode (a * unitsPerOne) d := unitsOfCode_strictMono.lt_iff_lt
    generalize (unitsOfCode l.code + unitsOfCode (l.code + 1)) * d = m at hround ⊢
    omega

/-- The same for exact values. -/
theorem lt_div_iff_toRat {l x y : Double} (hl : l.isFinite = true) (hl0 : 0 ≤ l.units)
    (hx : x.isFinite = true) (hy : y.isFinite = true) (hy0 : 0 < y.units) :
    l < x / y ↔ (l.toRat + l.next.toRat) / 2 * y.toRat < x.toRat ∨
      (l.toRat + l.next.toRat) / 2 * y.toRat = x.toRat ∧ l.code % 2 = 1 := by
  have hone := unitsPerOne_pos_rat
  have hmul : (0 : ℚ) < 2 * (unitsPerOne * unitsPerOne) := by positivity
  -- twice the square of `unitsPerOne` makes integers of both sides
  have hmid : (l.toRat + l.next.toRat) / 2 * y.toRat * (2 * (unitsPerOne * unitsPerOne)) =
      (((l.units + l.next.units) * y.units : Int) : ℚ) := by
    rw [toRat, toRat, toRat]
    push_cast
    field_simp
  have hvalue : x.toRat * (2 * (unitsPerOne * unitsPerOne)) =
      ((2 * (x.units * unitsPerOne) : Int) : ℚ) := by
    rw [toRat]
    push_cast
    field_simp
  rw [lt_div_iff_midpoint hl hl0 hx hy hy0, ← mul_lt_mul_iff_of_pos_right hmul,
    ← mul_left_inj' hmul.ne', hmid, hvalue, Int.cast_lt, Int.cast_inj]

end Double

end Slowdown
