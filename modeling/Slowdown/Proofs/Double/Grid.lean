/-
Numbers on a grid: multiples of a power of two units, up to another power of two. Rounding keeps
both bounds, so sums, halves and fence widths of such numbers are again on a grid, at most one power
finer and one power larger.
-/
import Slowdown.Proofs.Double.Scaling
import Slowdown.Proofs.Double.Special

namespace Slowdown

namespace Double

/-! ## Codes on a grid -/

/-- From `2^52` units on, the powers of two are the first codes of the exponents. -/
theorem unitsOfCode_first {h : Nat} (hh : 52 ≤ h) : unitsOfCode ((h - 51) * binade) = 2 ^ h := by
  have hcode : (h - 51) * binade = (h - 52) * binade + binade := by
    rw [← Nat.succ_mul]
    congr 1
    omega
  rw [hcode, unitsOfCode_shifted (by omega) (.inr (Nat.le_refl _)), binade_eq, ← pow_add]
  congr 1
  omega

theorem exists_code_two_pow {h : Nat} (hh : h ≤ 2097) :
    ∃ c, c < infinityCode ∧ unitsOfCode c = 2 ^ h := by
  rcases Nat.lt_or_ge h 52 with hlow | hlow
  · have hpow : 2 ^ h ≤ binade := by
      rw [binade_eq]
      exact Nat.pow_le_pow_right Nat.two_pos hlow.le
    exact ⟨2 ^ h, hpow.trans_lt (by decide), unitsOfCode_of_le (by omega)⟩
  · exact ⟨(h - 51) * binade, Nat.mul_lt_mul_of_pos_right (show h - 51 < 2047 by omega) (by decide),
      unitsOfCode_first hlow⟩

/-- A magnitude of `2^(52 + g)` units or more is a multiple of `2^g` units. -/
theorem two_pow_dvd_unitsOfCode {c g : Nat} (h : 2 ^ (52 + g) ≤ unitsOfCode c) :
    2 ^ g ∣ unitsOfCode c := by
  have hcode : (52 + g - 51) * binade ≤ c := by
    rwa [← unitsOfCode_first (by omega), unitsOfCode_le] at h
  obtain ⟨j, rfl⟩ := Nat.exists_eq_add_of_le hcode
  have hsplit : (52 + g - 51) * binade + j = binade + j + g * binade := by
    rw [show 52 + g - 51 = g + 1 by omega, Nat.succ_mul]
    omega
  rw [hsplit, unitsOfCode_add_binades (by omega)]
  exact Nat.dvd_mul_left _ _

/-- Rounding keeps the grid: a quotient finer than the result has been exact. -/
theorem two_pow_dvd_nearestCode {a g : Nat} (h : 2 ^ g ∣ a)
    (hfinite : nearestCode a 1 < infinityCode) :
    2 ^ g ∣ unitsOfCode (nearestCode a 1) := by
  have hfree : nearestCode a 1 = freeCode a 1 := by
    rw [nearestCode_eq] at hfinite ⊢
    omega
  obtain ⟨hlt, hge⟩ := quotient_bounds (a := a) (d := 1) Nat.one_pos
  rw [hfree]
  unfold freeCode
  dsimp only
  generalize (a / 1).log2 - 52 = s at hlt hge
  rw [Nat.shiftLeft_eq]
  have hD : 0 < 1 * 2 ^ s := Nat.mul_pos Nat.one_pos (Nat.two_pow_pos s)
  rw [unitsOfCode_shifted (roundHalfEven_le_of_lt hD hlt)
    (hge.imp_right (le_roundHalfEven_of_le hD))]
  -- a coarser unit than the grid keeps it; on a finer one nothing is rounded
  rcases Nat.le_total g s with hgs | hsg
  · exact (pow_dvd_pow 2 hgs).trans (Nat.dvd_mul_left _ _)
  · obtain ⟨t, rfl⟩ := (pow_dvd_pow 2 hsg).trans h
    have hexact : roundHalfEven (2 ^ s * t) (1 * 2 ^ s) = t := by
      rw [Nat.mul_comm, roundHalfEven_mul_right (Nat.two_pow_pos s)]
      simp [roundHalfEven, Nat.mod_one]
    rwa [hexact, Nat.mul_comm]

/-! ## Numbers on a grid -/

/-- Finite, a multiple of `2^low` units and at most `2^high` units in magnitude. -/
structure OnGrid (low high : Nat) (x : Double) : Prop where
  finite : x.isFinite = true
  dvd : (2 : Int) ^ low ∣ x.units
  le : x.units.natAbs ≤ 2 ^ high

/-- Multiples of `2^low` units that are not zero, and magnitudes of up to `2^high` units, are away
from either end of the normal numbers by `2^100`. -/
structure HasRoom (low high : Nat) : Prop where
  low_ge : 152 ≤ low
  high_le : high ≤ 1997

theorem HasRoom.mono {low high low' high' : Nat} (h : HasRoom low high) (hlow : low ≤ low')
    (hhigh : high' ≤ high) : HasRoom low' high' :=
  ⟨h.low_ge.trans hlow, hhigh.trans h.high_le⟩

variable {low high : Nat} {x y : Double}

theorem OnGrid.mono {low' high' : Nat} (h : OnGrid low high x) (hlow : low' ≤ low)
    (hhigh : high ≤ high') : OnGrid low' high' x :=
  ⟨h.finite, (pow_dvd_pow 2 hlow).trans h.dvd, h.le.trans (Nat.pow_le_pow_right Nat.two_pos hhigh)⟩

theorem onGrid_zero : OnGrid low high 0 := by
  rw [zero_eq]
  refine ⟨isFinite_zero false, ?_, ?_⟩ <;> rw [units_zero]
  · exact dvd_zero _
  · exact Nat.zero_le _

theorem two_pow_le_natAbs {n : Int} (hdvd : (2 : Int) ^ low ∣ n) (hn : n ≠ 0) :
    2 ^ low ≤ n.natAbs := by
  have h := Int.natAbs_dvd_natAbs.2 hdvd
  rw [Int.natAbs_pow] at h
  exact Nat.le_of_dvd (Int.natAbs_pos.2 hn) h

/-- What is rounded from so many units is on their grid. -/
theorem onGrid_of_rounded {n : Int} (hx : x.units = nearestUnits n) (hdvd : (2 : Int) ^ low ∣ n)
    (hle : n.natAbs ≤ 2 ^ high) (room : HasRoom low high) : OnGrid low high x := by
  have habs : x.units.natAbs = unitsOfCode (nearestCode n.natAbs 1) := by
    rw [hx, ← units_ofRatio_one, natAbs_units]
    rfl
  -- the bound is itself a double, so rounding does not pass it
  obtain ⟨c, hc, hpow⟩ := exists_code_two_pow (room.high_le.trans (by decide))
  have hcode : nearestCode n.natAbs 1 ≤ c := by
    rw [← nearestCode_unitsOfCode Nat.one_pos hc.le, hpow]
    exact nearestCode_mono Nat.one_pos Nat.one_pos (by omega)
  have hfinite := hcode.trans_lt hc
  refine ⟨?_, ?_, ?_⟩
  · rw [isFinite_iff, ← unitsOfCode_strictMono.lt_iff_lt, ← natAbs_units, habs]
    exact unitsOfCode_strictMono hfinite
  · have hnat : 2 ^ low ∣ n.natAbs := by
      have h := Int.natAbs_dvd_natAbs.2 hdvd
      rwa [Int.natAbs_pow] at h
    have hdvd' := two_pow_dvd_nearestCode hnat hfinite
    rw [← habs, ← Int.natCast_dvd_natCast, Int.dvd_natAbs] at hdvd'
    exact_mod_cast hdvd'
  · rw [habs, ← hpow, unitsOfCode_le]
    exact hcode

theorem OnGrid.neg (h : OnGrid low high x) : OnGrid low high (-x) :=
  ⟨h.finite, by rw [units_neg, dvd_neg]; exact h.dvd, by rw [units_neg, Int.natAbs_neg]; exact h.le⟩

theorem natAbs_add_le_two_pow {m n : Int} (hm : m.natAbs ≤ 2 ^ high) (hn : n.natAbs ≤ 2 ^ high) :
    (m + n).natAbs ≤ 2 ^ (high + 1) :=
  calc (m + n).natAbs ≤ m.natAbs + n.natAbs := Int.natAbs_add_le _ _
    _ ≤ 2 ^ high + 2 ^ high := Nat.add_le_add hm hn
    _ = 2 ^ (high + 1) := by rw [pow_succ, Nat.mul_two]

theorem OnGrid.add (hx : OnGrid low high x) (hy : OnGrid low high y)
    (room : HasRoom low (high + 1)) : OnGrid low (high + 1) (x + y) :=
  onGrid_of_rounded (units_add_eq hx.finite hy.finite) (dvd_add hx.dvd hy.dvd)
    (natAbs_add_le_two_pow hx.le hy.le) room

theorem OnGrid.sub (hx : OnGrid low high x) (hy : OnGrid low high y)
    (room : HasRoom low (high + 1)) : OnGrid low (high + 1) (x - y) := hx.add hy.neg room

/-- Half of a number is on a grid twice as fine. -/
theorem OnGrid.exists_half (h : OnGrid (low + 1) high x) :
    ∃ m, x.units = 2 * m ∧ (2 : Int) ^ low ∣ m ∧ 2 * m.natAbs ≤ 2 ^ high := by
  obtain ⟨t, ht⟩ := h.dvd
  have hm : x.units = 2 * (2 ^ low * t) := by rw [ht, pow_succ]; ring
  have hle := h.le
  rw [hm, Int.natAbs_mul] at hle
  exact ⟨2 ^ low * t, hm, Int.dvd_mul_right _ _, hle⟩

theorem units_half_of_eq {m : Int} (hx : x.isFinite = true) (hm : x.units = 2 * m) :
    (x / 2).units = nearestUnits m := by
  rw [units_half_eq hx, hm]
  push_cast
  rw [mul_div_cancel_left₀ _ two_ne_zero]

theorem OnGrid.half (h : OnGrid (low + 1) high x) (room : HasRoom low high) :
    OnGrid low high (x / 2) := by
  obtain ⟨m, hm, hdvd, hle⟩ := h.exists_half
  exact onGrid_of_rounded (units_half_of_eq h.finite hm) hdvd (by omega) room

end Double

end Slowdown
