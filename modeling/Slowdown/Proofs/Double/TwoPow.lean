/-
Multiples by a power of two. On a grid that stays clear of both ends of the range they are exact,
and they commute with sums, halves and products: the operations do not depend on the scale. Order
and quotients do not depend on it anywhere.
-/
import Slowdown.Proofs.Double.Exact
import Slowdown.Proofs.Double.Grid

namespace Slowdown

namespace Double

/-- The number nearest to `2^k`. -/
def twoPow (k : Int) : Double := round false (unitsPerOne * 2 ^ k.toNat) (2 ^ (-k).toNat)

/-- Multiplied by `2^k`, the number stays finite and is exactly so many times as large. -/
structure MultipliesBy (k : Int) (x : Double) : Prop where
  finite : x.isFinite = true
  multiple_finite : (x * twoPow k).isFinite = true
  exact : (x * twoPow k).toRat = x.toRat * 2 ^ k

theorem eq_of_units {x y : Double} (hs : x.negative = y.negative) (h : x.units = y.units) :
    x = y := by
  have hcode := code_eq_of_units h
  obtain ⟨s, c, hc⟩ := x
  obtain ⟨t, d, hd⟩ := y
  obtain rfl : c = d := hcode
  obtain rfl : s = t := hs
  rfl

/-- Only finite numbers are in the range of normal numbers. -/
theorem isFinite_of_inNormalRange {x : Double} {q : ℚ} (hx : (x.units : ℚ) = q)
    (hq : InNormalRange q) : x.isFinite = true := by
  have habs : (x.units.natAbs : ℚ) < overflowUnits := by
    rw [Nat.cast_natAbs, Int.cast_abs, hx]
    rcases hq with rfl | ⟨-, hlt⟩
    · rw [abs_zero]
      exact_mod_cast overflowUnits_pos
    · exact hlt
  have hnat : x.units.natAbs < overflowUnits := by exact_mod_cast habs
  have hmid := units_last_add
  have hnext := unitsOfCode_strictMono (Nat.lt_succ_self (infinityCode - 1))
  rw [Nat.succ_eq_add_one] at hnext
  rw [isFinite_iff, ← unitsOfCode_strictMono.lt_iff_lt, ← natAbs_units]
  show x.units.natAbs < unitsOfCode (infinityCode - 1 + 1)
  omega

/-- Negative numbers come first, and of one sign the smaller ones. -/
theorem rank_le_iff {x y : Double} : x.rank ≤ y.rank ↔
    x.negative = true ∧ y.negative = false ∨ x.negative = y.negative ∧ x.units ≤ y.units := by
  rw [← key_le_key]
  unfold rank key
  cases x.negative <;> cases y.negative
  · simp
  · simp
  · simp
    omega
  · simp

/-- Only the quotient and the sign matter to a rounding. -/
theorem round_congr {s : Bool} {a d a' d' : Nat} (hd : 0 < d) (hd' : 0 < d')
    (h : a * d' = a' * d) : round s a d = round s a' d' := by
  have hcode : nearestCode a d = nearestCode a' d' :=
    Nat.le_antisymm (nearestCode_mono hd hd' h.le) (nearestCode_mono hd' hd h.ge)
  simp only [round, hcode]

theorem negative_add {x y : Double} (hx : x.isFinite = true) (hy : y.isFinite = true) :
    (x + y).negative = if x.units + y.units = 0 then x.negative && y.negative
      else decide (x.units + y.units < 0) := by
  rw [add_finite hx hy]
  split <;> rfl

theorem negative_half {x : Double} (hx : x.isFinite = true) : (x / 2).negative = x.negative := by
  rw [div_finite hx isFinite_two units_two_pos.ne', negative_of_pos units_two_pos]
  exact Bool.bne_false _

theorem sign_of_scaled {n n' : Int} {k : Int} (h : (n' : ℚ) = n * 2 ^ k) :
    (n' = 0 ↔ n = 0) ∧ (n' < 0 ↔ n < 0) := by
  have hpow : (0 : ℚ) < 2 ^ k := by positivity
  constructor
  · rw [← Int.cast_eq_zero (α := ℚ), h, mul_eq_zero, or_iff_left hpow.ne', Int.cast_eq_zero]
  · rw [← Int.cast_lt (R := ℚ), h, Int.cast_zero, ← zero_mul ((2 : ℚ) ^ k),
      mul_lt_mul_iff_of_pos_right hpow, Int.cast_lt_zero]

/-! ## Powers of two -/

theorem zpow_eq_div (k : Int) : (2 : ℚ) ^ k = 2 ^ k.toNat / 2 ^ (-k).toNat := by
  rw [← zpow_natCast, ← zpow_natCast, ← zpow_sub₀ two_ne_zero]
  congr 1
  omega

theorem two_pow_lt_overflowUnits {h : Nat} (hh : h ≤ 2097) : 2 ^ h < overflowUnits := by
  obtain ⟨c, hc, hpow⟩ := exists_code_two_pow hh
  have hlast := natAbs_units_lt (x := ⟨false, c, hc.trans (by decide)⟩) (isFinite_iff.2 hc)
  rwa [natAbs_units, hpow] at hlast

variable {low high : Nat} {k : Int}

theorem inNormalRange_mul_zpow {n : Int} (hdvd : (2 : Int) ^ low ∣ n) (hle : n.natAbs ≤ 2 ^ high)
    (room : HasRoom low high) (hk : k.natAbs ≤ 100) : InNormalRange (n * 2 ^ k) := by
  obtain ⟨hlow, hhigh⟩ := room
  rcases eq_or_ne n 0 with rfl | hn
  · exact .inl (by simp)
  · have hpow : (0 : ℚ) < 2 ^ k := by positivity
    have habs : |(n * 2 ^ k : ℚ)| = n.natAbs * 2 ^ k := by
      rw [abs_mul, abs_of_pos hpow, Nat.cast_natAbs, Int.cast_abs]
    have hge : (2 : ℚ) ^ (low : Int) ≤ n.natAbs := by
      rw [zpow_natCast]
      exact_mod_cast two_pow_le_natAbs hdvd hn
    have hle' : (n.natAbs : ℚ) ≤ 2 ^ (high : Int) := by rw [zpow_natCast]; exact_mod_cast hle
    have hover : (2 : ℚ) ^ ((high + 100 : Nat) : Int) < overflowUnits := by
      rw [zpow_natCast]
      exact_mod_cast two_pow_lt_overflowUnits (h := high + 100) (by omega)
    -- the exponents leave a hundred places on both sides
    rw [InNormalRange, habs]
    refine .inr ⟨?_, ?_⟩
    · calc (binade : ℚ) = 2 ^ (52 : Int) := by rw [binade_eq]; norm_num
        _ ≤ 2 ^ (low + k) := zpow_le_zpow_right₀ one_le_two (by omega)
        _ = 2 ^ (low : Int) * 2 ^ k := zpow_add₀ two_ne_zero _ _
        _ ≤ n.natAbs * 2 ^ k := mul_le_mul_of_nonneg_right hge hpow.le
    · calc (n.natAbs : ℚ) * 2 ^ k ≤ 2 ^ (high : Int) * 2 ^ k :=
          mul_le_mul_of_nonneg_right hle' hpow.le
        _ = 2 ^ (high + k) := (zpow_add₀ two_ne_zero _ _).symm
        _ ≤ 2 ^ ((high + 100 : Nat) : Int) := zpow_le_zpow_right₀ one_le_two (by omega)
        _ < overflowUnits := hover

/-- Rounding commutes with the multiplication there. -/
theorem nearestUnits_mul_zpow_of_dvd {n : Int} (hdvd : (2 : Int) ^ low ∣ n)
    (hle : n.natAbs ≤ 2 ^ high) (room : HasRoom low high) (hk : k.natAbs ≤ 100) :
    (nearestUnits (n * 2 ^ k) : ℚ) = nearestUnits n * 2 ^ k := by
  have hself := inNormalRange_mul_zpow (k := 0) hdvd hle room (by decide)
  rw [zpow_zero, mul_one] at hself
  exact nearestUnits_mul_zpow hself (inNormalRange_mul_zpow hdvd hle room hk)

/-- The exponent is a variable, as powers this large are not to be evaluated. -/
theorem unitsPerOne_eq {e : Nat} (he : e = 1074) : unitsPerOne = 2 ^ e := by
  rw [unitsPerOne, ← he, Nat.one_shiftLeft]

section

variable (hk : k.natAbs ≤ 100)

include hk

theorem inNormalRange_twoPow : InNormalRange ((unitsPerOne : Int) * 2 ^ k) := by
  obtain ⟨e, he⟩ : ∃ e : Nat, e = 1074 := ⟨_, rfl⟩
  have hone := unitsPerOne_eq he
  have room : HasRoom e e := ⟨by omega, by omega⟩
  refine inNormalRange_mul_zpow ?_ hone.le room hk
  rw [hone]
  exact (Nat.cast_pow 2 e).symm.dvd

theorem units_twoPow : ((twoPow k).units : ℚ) = unitsPerOne * 2 ^ k := by
  have hunits : (twoPow k).units = nearestUnits ((unitsPerOne : Int) * 2 ^ k) := by
    rw [zpow_eq_div, ← mul_div_assoc]
    have h := units_ofRatio ((unitsPerOne * 2 ^ k.toNat : Nat) : Int) (Nat.two_pow_pos (-k).toNat)
    rw [units_ofRatio_natCast] at h
    push_cast at h
    exact h
  have hself : nearestUnits ((unitsPerOne : Int) : ℚ) = unitsPerOne := by
    rw [← units_one]
    exact nearestUnits_units (isNaN_of_isFinite isFinite_one)
  have hrange := inNormalRange_twoPow (k := 0) (by decide)
  rw [zpow_zero, mul_one] at hrange
  rw [hunits, nearestUnits_mul_zpow hrange (inNormalRange_twoPow hk), hself]
  push_cast
  rfl

theorem isFinite_twoPow : (twoPow k).isFinite = true := by
  refine isFinite_of_inNormalRange (units_twoPow hk) ?_
  exact_mod_cast inNormalRange_twoPow hk

variable {x y : Double}

theorem negative_mul_twoPow (hx : x.isFinite = true) :
    (x * twoPow k).negative = x.negative := by
  rw [mul_finite hx (isFinite_twoPow hk)]
  exact Bool.bne_false _

variable (room : HasRoom low high) (hx : OnGrid low high x)

include room hx

/-- A multiple is exact. -/
theorem units_mul_twoPow : ((x * twoPow k).units : ℚ) = x.units * 2 ^ k := by
  have hone := unitsPerOne_pos_rat.ne'
  have hmul : (x.units * (twoPow k).units : ℚ) / unitsPerOne = x.units * 2 ^ k := by
    rw [units_twoPow hk]
    field_simp
  rw [units_mul hx.finite (isFinite_twoPow hk), units_ofRatio _ unitsPerOne_pos]
  push_cast
  rw [hmul, nearestUnits_mul_zpow_of_dvd hx.dvd hx.le room hk,
    nearestUnits_units (isNaN_of_isFinite hx.finite)]

theorem isFinite_mul_twoPow : (x * twoPow k).isFinite = true :=
  isFinite_of_inNormalRange (units_mul_twoPow hk room hx)
    (inNormalRange_mul_zpow hx.dvd hx.le room hk)

theorem multipliesBy : MultipliesBy k x := by
  refine ⟨hx.finite, isFinite_mul_twoPow hk room hx, ?_⟩
  rw [toRat, toRat, units_mul_twoPow hk room hx, div_mul_eq_mul_div]

/-! ## Order and quotients -/

variable (hy : OnGrid low high y)

include hy

theorem units_mul_twoPow_le_iff :
    (x * twoPow k).units ≤ (y * twoPow k).units ↔ x.units ≤ y.units := by
  have hpow : (0 : ℚ) < 2 ^ k := by positivity
  rw [← Int.cast_le (R := ℚ), units_mul_twoPow hk room hx, units_mul_twoPow hk room hy,
    mul_le_mul_iff_of_pos_right hpow, Int.cast_le]

theorem mul_twoPow_le_iff : x * twoPow k ≤ y * twoPow k ↔ x ≤ y := by
  rw [le_iff, le_iff, isNaN_of_isFinite hx.finite, isNaN_of_isFinite hy.finite,
    isNaN_of_isFinite (isFinite_mul_twoPow hk room hx),
    isNaN_of_isFinite (isFinite_mul_twoPow hk room hy), units_mul_twoPow_le_iff hk room hx hy]

theorem rank_mul_twoPow_le_iff : (x * twoPow k).rank ≤ (y * twoPow k).rank ↔ x.rank ≤ y.rank := by
  rw [rank_le_iff, rank_le_iff, negative_mul_twoPow hk hx.finite, negative_mul_twoPow hk hy.finite,
    units_mul_twoPow_le_iff hk room hx hy]

theorem div_mul_twoPow (hy0 : 0 < y.units) : x * twoPow k / (y * twoPow k) = x / y := by
  have hxk := units_mul_twoPow hk room hx
  have hyk := units_mul_twoPow hk room hy
  have hxf := isFinite_mul_twoPow hk room hx
  have hyf := isFinite_mul_twoPow hk room hy
  have hpow : (0 : ℚ) < 2 ^ k := by positivity
  have hyk0 : 0 < (y * twoPow k).units := by
    rw [← Int.cast_pos (R := ℚ), hyk]
    exact mul_pos (Int.cast_pos.2 hy0) hpow
  -- the exact quotients are equal, and so are the signs
  have hcross : (x * twoPow k).units * y.units = x.units * (y * twoPow k).units := by
    rw [← Int.cast_inj (α := ℚ)]
    push_cast
    rw [hxk, hyk]
    ring
  have hnat := congrArg Int.natAbs hcross
  rw [Int.natAbs_mul, Int.natAbs_mul] at hnat
  rw [div_finite hxf hyf hyk0.ne', div_finite hx.finite hy.finite hy0.ne',
    negative_mul_twoPow hk hx.finite, negative_mul_twoPow hk hy.finite]
  refine round_congr (Int.natAbs_pos.2 hyk0.ne') (Int.natAbs_pos.2 hy0.ne') ?_
  rw [Nat.mul_right_comm, hnat, Nat.mul_right_comm]

end

/-! ## Sums, halves and products -/

section

variable (hk : k.natAbs ≤ 100) {x y : Double}

include hk

/-- What is rounded from the multiple of an exact result is the multiple of the rounded one. -/
theorem mul_twoPow_eq {z : Double} {n : Int} (room : HasRoom low high)
    (hdvd : (2 : Int) ^ low ∣ n) (hle : n.natAbs ≤ 2 ^ high) (hx : x.units = nearestUnits n)
    (hz : z.units = nearestUnits (n * 2 ^ k)) (hsign : z.negative = x.negative) :
    x * twoPow k = z := by
  have hgrid : OnGrid low high x := onGrid_of_rounded hx hdvd hle room
  refine eq_of_units ((negative_mul_twoPow hk hgrid.finite).trans hsign.symm) ?_
  rw [← Int.cast_inj (α := ℚ), units_mul_twoPow hk room hgrid, hx, hz,
    nearestUnits_mul_zpow_of_dvd hdvd hle room hk]

theorem add_mul_twoPow (room : HasRoom low (high + 1)) (hx : OnGrid low high x)
    (hy : OnGrid low high y) : (x + y) * twoPow k = x * twoPow k + y * twoPow k := by
  have hx' := hx.mono (Nat.le_refl low) (Nat.le_succ high)
  have hy' := hy.mono (Nat.le_refl low) (Nat.le_succ high)
  have hxf := isFinite_mul_twoPow hk room hx'
  have hyf := isFinite_mul_twoPow hk room hy'
  have hsum : (((x * twoPow k).units + (y * twoPow k).units : Int) : ℚ) =
      ((x.units + y.units : Int) : ℚ) * 2 ^ k := by
    push_cast
    rw [units_mul_twoPow hk room hx', units_mul_twoPow hk room hy', add_mul]
  refine mul_twoPow_eq hk room (dvd_add hx.dvd hy.dvd) (natAbs_add_le_two_pow hx.le hy.le)
    (units_add_eq hx.finite hy.finite) ?_ ?_
  · rw [units_add_eq hxf hyf, hsum]
  · obtain ⟨hzero, hneg⟩ := sign_of_scaled hsum
    rw [negative_add hxf hyf, negative_add hx.finite hy.finite, negative_mul_twoPow hk hx.finite,
      negative_mul_twoPow hk hy.finite]
    simp only [hzero, hneg]

theorem zero_mul_twoPow (room : HasRoom low high) : 0 * twoPow k = 0 := by
  have hzero : OnGrid low high 0 := onGrid_zero
  refine eq_of_units (negative_mul_twoPow hk hzero.finite) ?_
  rw [← Int.cast_inj (α := ℚ), units_mul_twoPow hk room hzero, zero_eq, units_zero, Int.cast_zero,
    zero_mul]

theorem neg_mul_twoPow (hx : x.isFinite = true) : -x * twoPow k = -(x * twoPow k) := by
  have hx' : (-x).isFinite = true := hx
  refine eq_of_units ?_ ?_
  · rw [negative_mul_twoPow hk hx']
    show (!x.negative) = !(x * twoPow k).negative
    rw [negative_mul_twoPow hk hx]
  · rw [units_neg, units_mul hx' (isFinite_twoPow hk), units_mul hx (isFinite_twoPow hk), units_neg,
      Int.neg_mul, units_ofRatio_neg]

theorem sub_mul_twoPow (room : HasRoom low (high + 1)) (hx : OnGrid low high x)
    (hy : OnGrid low high y) : (x - y) * twoPow k = x * twoPow k - y * twoPow k := by
  rw [sub_eq, sub_eq, add_mul_twoPow hk room hx hy.neg, neg_mul_twoPow hk hy.finite]

theorem half_mul_twoPow (room : HasRoom low high) (hx : OnGrid (low + 1) high x) :
    x / 2 * twoPow k = x * twoPow k / 2 := by
  obtain ⟨m, hm, hdvd, hle⟩ := hx.exists_half
  have hx' := hx.mono (Nat.le_succ low) (Nat.le_refl high)
  have hxf := isFinite_mul_twoPow hk room hx'
  refine mul_twoPow_eq hk room hdvd (by omega) (units_half_of_eq hx.finite hm) ?_ ?_
  · rw [units_half_eq hxf, units_mul_twoPow hk room hx', hm]
    push_cast
    congr 1
    ring
  · rw [negative_half hxf, negative_half hx.finite, negative_mul_twoPow hk hx.finite]

/-- The multiple of a mean is the mean of the multiples. -/
theorem mean_mul_twoPow (room : HasRoom low (high + 1)) (hx : OnGrid (low + 1) high x)
    (hy : OnGrid (low + 1) high y) :
    (x + y) / 2 * twoPow k = (x * twoPow k + y * twoPow k) / 2 := by
  have room' := room.mono (Nat.le_succ low) (Nat.le_refl _)
  rw [half_mul_twoPow hk room (hx.add hy room'), add_mul_twoPow hk room' hx hy]

end

end Double

end Slowdown
