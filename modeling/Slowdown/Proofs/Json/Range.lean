/-
Numerals in range: what is scaled down stays finite, what is scaled up does if the value written,
with two roundings to spare, lies below the end of the finite range.
-/
import Slowdown.Json.Basic
import Slowdown.Proofs.Decimal.Layout
import Slowdown.Proofs.Double.Range
import Slowdown.Proofs.Json.Number

namespace Slowdown

open Double

namespace Json

namespace Number

/-! ## Doubles of natural numbers -/

theorem ofNat_eq (n : Nat) : Double.ofNat n = round false (n * unitsPerOne) 1 := by
  have hsign : decide ((n : Int) < 0) = false := decide_eq_false (by omega)
  rw [Double.ofNat, Double.ofInt, hsign, Int.natAbs_natCast]

theorem isFinite_ofNat {n : Nat} : (Double.ofNat n).isFinite = true ↔ n < 2 ^ 1024 - 2 ^ 970 := by
  rw [ofNat_eq, isFinite_round Nat.one_pos, Nat.mul_one, overflowUnits,
    Nat.mul_lt_mul_right unitsPerOne_pos]

/-- Above zero a natural number is one or more, and rounding adds at most one part in `2^53`. -/
theorem units_ofNat {n : Nat} (h : 0 < n) :
    unitsPerOne ≤ (Double.ofNat n).units.natAbs ∧
      2 ^ 53 * (Double.ofNat n).units.natAbs ≤ (2 ^ 53 + 1) * (n * unitsPerOne) := by
  have hunits : (Double.ofNat n).units.natAbs = unitsOfCode (nearestCode (n * unitsPerOne) 1) := by
    rw [natAbs_units, ofNat_eq]
    rfl
  have hfirst : binade ≤ unitsPerOne := by decide
  obtain ⟨c, hc, hmax⟩ : ∃ c, unitsOfCode c = unitsPerOne ∧ c ≤ infinityCode :=
    ⟨1023 * binade, by decide, by decide⟩
  rw [hunits]
  generalize unitsPerOne = one at *
  have hle : one ≤ n * one := Nat.le_mul_of_pos_left _ h
  constructor
  · have hmono : nearestCode (unitsOfCode c * 1) 1 ≤ nearestCode (n * one) 1 :=
      nearestCode_mono Nat.one_pos Nat.one_pos (by rw [hc]; omega)
    rw [nearestCode_unitsOfCode Nat.one_pos hmax] at hmono
    have hunits := unitsOfCode_le.2 hmono
    rwa [hc] at hunits
  · have hexcess := units_nearestCode_le (a := n * one) Nat.one_pos (by omega)
    rwa [Nat.mul_one] at hexcess

/-! ## Scaling -/

/-- The last power of ten in the finite range. With the next two roundings make no difference. -/
theorem stepPower_last : tenTo stepPower < 2 ^ 1024 - 2 ^ 970 ∧
    2 ^ 106 * (2 ^ 1024 - 2 ^ 970) ≤ (2 ^ 53 + 1) ^ 2 * tenTo (stepPower + 1) := by
  decide +kernel

theorem isFinite_powerOfTen {n : Nat} (h : n ≤ stepPower) : (powerOfTen n).isFinite = true :=
  isFinite_ofNat.2 (Nat.lt_of_le_of_lt (tenTo_le h) stepPower_last.1)

theorem isFinite_shrink {x : Double} (hx : x.isFinite = true) (power : Nat) :
    (shrink x power).isFinite = true := by
  have step : ∀ {x : Double} {n : Nat}, x.isFinite = true → n ≤ stepPower →
      (x / powerOfTen n).isFinite = true := fun hx h =>
    isFinite_div hx (isFinite_powerOfTen h) (units_ofNat (tenTo_pos _)).1
  fun_induction shrink x power with
  | case1 x power h => exact step hx h
  | case2 x power h hzero => exact hx
  | case3 x power h hzero ih => exact ih (step hx (Nat.le_refl _))

/-- Significand and power of ten of a number with room for two roundings. -/
def Fits (significand power : Nat) : Prop :=
  (2 ^ 53 + 1) ^ 2 * (significand * tenTo power) < 2 ^ 106 * (2 ^ 1024 - 2 ^ 970)

theorem power_le_of_fits {significand power : Nat} (hpos : 0 < significand)
    (h : Fits significand power) : power ≤ stepPower := by
  by_contra hgreat
  have hbeyond := stepPower_last.2
  have htens : tenTo (stepPower + 1) ≤ significand * tenTo power :=
    Nat.le_trans (tenTo_le (by omega)) (Nat.le_mul_of_pos_left _ hpos)
  exact absurd h (Nat.not_lt.2 (Nat.le_trans hbeyond (Nat.mul_le_mul_left _ htens)))

/-- The product of a significand and a power of ten, each rounded. -/
theorem units_product_lt {significand power : Nat} (hpos : 0 < significand)
    (h : Fits significand power) :
    (Double.ofNat significand).units.natAbs * (powerOfTen power).units.natAbs <
      overflowUnits * unitsPerOne := by
  have hx := (units_ofNat hpos).2
  have hy := (units_ofNat (n := tenTo power) (tenTo_pos _)).2
  unfold Fits at h
  rw [powerOfTen, overflowUnits]
  generalize (Double.ofNat significand).units.natAbs = x at *
  generalize (Double.ofNat (tenTo power)).units.natAbs = y at *
  generalize 2 ^ 1024 - 2 ^ 970 = limit at *
  have hone := unitsPerOne_pos
  generalize unitsPerOne = one at *
  refine Nat.lt_of_mul_lt_mul_left (a := 2 ^ 106) ?_
  calc 2 ^ 106 * (x * y) = 2 ^ 53 * x * (2 ^ 53 * y) := by ring
    _ ≤ (2 ^ 53 + 1) * (significand * one) * ((2 ^ 53 + 1) * (tenTo power * one)) :=
      Nat.mul_le_mul hx hy
    _ = (2 ^ 53 + 1) ^ 2 * (significand * tenTo power) * (one * one) := by ring
    _ < 2 ^ 106 * limit * (one * one) := Nat.mul_lt_mul_of_pos_right h (Nat.mul_pos hone hone)
    _ = 2 ^ 106 * (limit * one * one) := by ring

theorem isFinite_significand {significand : Nat} (h : significand < significandLimit) :
    (Double.ofNat significand).isFinite = true := by
  have hlimit := significandLimit_le
  exact isFinite_ofNat.2 (by omega)

theorem isFinite_grow {significand power : Nat} (hlimit : significand < significandLimit)
    (h : Fits significand power) : (grow (.ofNat significand) power).isFinite = true := by
  have hfinite := isFinite_significand hlimit
  unfold grow
  rcases Nat.eq_zero_or_pos significand with rfl | hpos
  · have hzero : (Double.ofNat 0).isZero = true := rfl
    have hunits : (Double.ofNat 0).units.natAbs = 0 := rfl
    have hend : 0 < overflowUnits * unitsPerOne := Nat.mul_pos overflowUnits_pos unitsPerOne_pos
    rw [if_pos hzero]
    split_ifs with hpower
    · rwa [isFinite_mul hfinite (isFinite_powerOfTen hpower), hunits, Nat.zero_mul]
    · exact hfinite
  · have hpower := power_le_of_fits hpos h
    rw [if_pos hpower, isFinite_mul hfinite (isFinite_powerOfTen hpower)]
    exact units_product_lt hpos h

theorem fits_zero {significand : Nat} (h : significand < significandLimit) :
    Fits significand 0 := by
  have hlimit := significandLimit_le
  have hone : tenTo 0 = 1 := rfl
  have hroom : (2 ^ 53 + 1) ^ 2 ≤ 2 ^ 106 * 2 := by decide
  unfold Fits
  rw [hone, Nat.mul_one]
  generalize 2 ^ 1024 - 2 ^ 970 = limit at *
  calc (2 ^ 53 + 1) ^ 2 * significand ≤ 2 ^ 106 * 2 * significand := Nat.mul_le_mul_right _ hroom
    _ < 2 ^ 106 * limit := by omega

theorem isFinite_scaled {significand : Nat} (hlimit : significand < significandLimit)
    {exponent : Int} (h : 0 ≤ exponent → Fits significand exponent.natAbs) :
    (scaled (.ofNat significand) exponent).isFinite = true := by
  unfold scaled
  split_ifs with hsign
  · exact isFinite_shrink (isFinite_significand hlimit) _
  · exact isFinite_grow hlimit (h (by omega))

/-! ## Numerals -/

theorem absorb_length_le (significand : Nat) (digits : List Digit) :
    (absorb significand digits).2.length ≤ digits.length := by
  induction digits generalizing significand with
  | nil => exact Nat.le_refl _
  | cons d rest ih =>
    unfold absorb
    split_ifs
    · exact Nat.le_succ_of_le (ih _)
    · exact Nat.le_refl _

/-- What has been taken, scaled by the digits that do not fit, is not more than all digits say. -/
theorem absorb_le (significand : Nat) (digits : List Digit) :
    (absorb significand digits).1 * 10 ^ (absorb significand digits).2.length ≤
      significand * 10 ^ digits.length + Digit.value digits := by
  induction digits generalizing significand with
  | nil => exact Nat.le_refl _
  | cons d rest ih =>
    unfold absorb
    split_ifs
    · refine Nat.le_trans (ih _) (le_of_eq ?_)
      rw [Digit.value_cons, List.length_cons]
      ring
    · exact Nat.le_add_right _ _

theorem isFinite_magnitude {significand : Nat} (hlimit : significand < significandLimit)
    {shift : Int} (hshift : shift ≤ 0) {exponent : Option Exponent}
    (hpower : ∀ e ∈ exponent, e.negative = false → Digit.value e.digits ≤ exponentLimit ∧
      (0 ≤ shift + Digit.value e.digits →
        Fits significand (shift + Digit.value e.digits).natAbs)) :
    (magnitude significand shift exponent).isFinite = true := by
  unfold magnitude
  cases exponent with
  | none =>
    refine isFinite_scaled hlimit fun h => ?_
    -- digits behind the point are never scaled up
    obtain rfl : shift = 0 := by omega
    exact fits_zero hlimit
  | some e =>
    dsimp only
    cases hsign : e.negative with
    | true =>
      rw [if_pos (Or.inr rfl : significand = 0 ∨ true = true), if_pos rfl]
      split_ifs with hgreat
      · rfl
      · refine isFinite_scaled hlimit fun h => ?_
        -- a negative exponent scales up by nothing, or down
        have hsum : clampExponent (shift - Digit.value e.digits) = 0 := by
          unfold clampExponent exponentLimit at *
          omega
        rw [hsum]
        exact fits_zero hlimit
    | false =>
      obtain ⟨hle, hfits⟩ := hpower e rfl hsign
      rw [if_neg (by omega), if_neg Bool.false_ne_true]
      refine isFinite_scaled hlimit fun h => ?_
      have hsum : 0 ≤ shift + Digit.value e.digits ∧
          clampExponent (shift + Digit.value e.digits) = shift + Digit.value e.digits := by
        unfold clampExponent exponentLimit at *
        omega
      rw [hsum.2]
      exact hfits hsum.1

theorem fits_of_magnitude {significand : Nat} {shift : Int} {magnitude : ℚ}
    (hle : significand * (10 : ℚ) ^ shift ≤ magnitude)
    (h : (2 ^ 53 + 1) ^ 2 * magnitude < 2 ^ 106 * (2 ^ 1024 - 2 ^ 970 : Nat)) (hshift : 0 ≤ shift) :
    Fits significand shift.natAbs := by
  obtain ⟨power, rfl⟩ := Int.eq_ofNat_of_zero_le hshift
  rw [zpow_natCast] at hle
  have hscaled : (2 ^ 53 + 1) ^ 2 * ((significand : ℚ) * 10 ^ power) ≤
      (2 ^ 53 + 1) ^ 2 * magnitude := mul_le_mul_of_nonneg_left hle (by positivity)
  unfold Fits
  rw [Int.natAbs_natCast]
  rw [← cast_tenTo] at hscaled
  exact_mod_cast hscaled.trans_lt h

/-- What has been taken of a numeral is not more than the numeral denotes. -/
theorem absorb_le_magnitude (n : Numeral) :
    let taken := absorb (Digit.value n.whole) n.fraction
    taken.1 * (10 : ℚ) ^ (n.writtenExponent - (n.fraction.length - taken.2.length : Nat)) ≤
      n.magnitude := by
  have hlength := absorb_length_le (Digit.value n.whole) n.fraction
  have hle := absorb_le (Digit.value n.whole) n.fraction
  rw [← Digit.value_append] at hle
  generalize absorb (Digit.value n.whole) n.fraction = taken at *
  obtain ⟨significand, dropped⟩ := taken
  dsimp only at hlength hle ⊢
  have hexponent : n.writtenExponent - (n.fraction.length - dropped.length : Nat) =
      dropped.length + n.scale := by
    simp only [Numeral.scale]
    omega
  rw [hexponent, zpow_add₀ (by norm_num), zpow_natCast, ← mul_assoc]
  refine mul_le_mul_of_nonneg_right ?_ (by positivity)
  exact_mod_cast hle

/-- A numeral is in range if its whole digits fit, its exponent is not out of range and what it
denotes, with two roundings to spare, is below the end of the finite range. -/
theorem isFinite_ofNumeral {n : Numeral} (hwhole : Digit.value n.whole < significandLimit)
    (hpower : ∀ e ∈ n.exponent, e.negative = false → Digit.value e.digits ≤ exponentLimit)
    (h : (2 ^ 53 + 1) ^ 2 * n.magnitude < 2 ^ 106 * (2 ^ 1024 - 2 ^ 970 : Nat)) :
    (ofNumeral n).isFinite = true := by
  have hall : absorb 0 n.whole = (Digit.value n.whole, []) := absorb_eq hwhole
  have hlimit : (absorb (Digit.value n.whole) n.fraction).1 < significandLimit :=
    absorb_lt hwhole
  have hle := absorb_le_magnitude n
  dsimp only at hle
  have hreal : (magnitude (absorb (Digit.value n.whole) n.fraction).1
      (([] : List Digit).length -
        (n.fraction.length - (absorb (Digit.value n.whole) n.fraction).2.length : Nat))
      n.exponent).isFinite = true := by
    refine isFinite_magnitude hlimit (by simp) fun e he hsign => ⟨hpower e he hsign, ?_⟩
    -- what the written exponent leaves after the digits behind the point
    have hwritten : n.writtenExponent = Digit.value e.digits := by
      rw [Numeral.writtenExponent, Option.mem_def.1 he]
      simp [hsign]
    refine fits_of_magnitude ?_ h
    rw [hwritten] at hle
    refine le_trans (le_of_eq ?_) hle
    congr 2
    simp only [List.length_nil]
    omega
  unfold ofNumeral
  simp only [hall]
  split_ifs
  · exact isFinite_significand hwhole
  · rfl
  · rfl
  · exact hreal
  · exact hreal

theorem isFinite_ofNumeral_ofNat {k : Nat} (h : k < significandLimit) :
    (ofNumeral (.ofNat k)).isFinite = true := by
  have hwhole : ofNumeral (.ofNat k) = .whole k := by
    have hlimit : significandLimit = 2 ^ 64 := by decide
    rw [ofNumeral_eq_whole_iff]
    refine ⟨?_, by omega, by omega, nofun⟩
    simp [Numeral.whole?, Numeral.ofNat]
  rw [hwhole]
  rfl

/-! ## Numerals of doubles -/

open Decimal

/-- The greatest doubles leave no room for two roundings, but there are few of them. -/
theorem isFinite_ofNumeral_last : ∀ k < 3, ∀ s, ∀ h : infinityCode - 1 - k < codeCount,
    (ofNumeral (layout.numeral ⟨s, infinityCode - 1 - k, h⟩)).isFinite = true := by
  decide +kernel

/-- Every other double leaves room for two roundings. -/
theorem magnitude_lt {x : Double} (hzero : x.isZero = false) (hx : x.code < infinityCode - 3) :
    (2 ^ 53 + 1) ^ 2 * (layout.numeral x).magnitude < 2 ^ 106 * (2 ^ 1024 - 2 ^ 970 : Nat) := by
  have hend : (2 ^ 53 + 1) ^ 2 * (unitsOfCode (infinityCode - 4) + unitsOfCode (infinityCode - 3)) <
      2 ^ 106 * (2 ^ 1024 - 2 ^ 970) * (2 * unitsPerOne) := by decide +kernel
  -- the value lies below the midpoint above, and that is at most the last one that leaves room
  have hhigh := (isShortest_shortest layout.tie (code_pos hzero)).rounds.bounds.2.trans
    (halfway_mono (show x.code ≤ infinityCode - 4 by omega))
  have hcode : infinityCode - 4 + 1 = infinityCode - 3 := by decide
  rw [halfway_eq, hcode] at hhigh
  rw [magnitude_numeral layout hzero]
  have hone := unitsPerOne_pos_rat
  generalize 2 ^ 1024 - 2 ^ 970 = limit at *
  generalize unitsOfCode (infinityCode - 4) + unitsOfCode (infinityCode - 3) = high at *
  generalize unitsPerOne = one at *
  have hone : (0 : ℚ) < 2 * one := by positivity
  rw [le_div_iff₀ hone] at hhigh
  refine lt_of_mul_lt_mul_right ?_ hone.le
  calc (2 ^ 53 + 1) ^ 2 * (shortest layout.tie x.code).value * (2 * one)
      = (2 ^ 53 + 1) ^ 2 * ((shortest layout.tie x.code).value * (2 * one)) := mul_assoc _ _ _
    _ ≤ (2 ^ 53 + 1) ^ 2 * (high : ℚ) := mul_le_mul_of_nonneg_left hhigh (by positivity)
    _ < 2 ^ 106 * limit * (2 * one) := by exact_mod_cast hend

theorem power_lt {x : Double} (hzero : x.isZero = false) (hx : x.code < infinityCode - 3) :
    (shortest layout.tie x.code).power < 400 := by
  have hcode := code_pos hzero
  have hlow := (power_bounds (digits_shortest_pos layout.tie hcode)).1
  have hhigh := (cutoff_bounds (by omega) (isShortest_shortest layout.tie hcode).rounds).2
  exact (zpow_lt_zpow_iff_right₀ (by norm_num)).1 (hlow.trans_lt hhigh)

/-- The numeral of a finite double is in range. -/
theorem isFinite_ofNumeral_layout {x : Double} (hx : x.isFinite = true) :
    (ofNumeral (layout.numeral x)).isFinite = true := by
  cases hzero : x.isZero with
  | true =>
    rw [Layout.numeral, if_pos hzero]
    cases x.negative <;> decide +kernel
  | false =>
    -- the last three doubles are decided by computing them
    rcases Nat.lt_or_ge x.code (infinityCode - 3) with hlt | hge
    · have hmagnitude := magnitude_lt hzero hlt
      have laid := laysOut_numeral layout hzero
      refine isFinite_ofNumeral ?_ (fun e he hsign => ?_) hmagnitude
      · have hlength : (layout.numeral x).whole.length ≤ 16 := by
          have := laid.length_whole rfl (by decide)
          omega
        have hlimit : tenTo 16 ≤ significandLimit := by decide
        exact Nat.lt_of_lt_of_le (Digit.value_lt _) (Nat.le_trans (tenTo_le hlength) hlimit)
      · have hpower := laid.value_exponent he hsign
        have := power_lt hzero hlt
        unfold exponentLimit
        omega
    · obtain ⟨s, code, hcode⟩ := x
      rw [isFinite_iff] at hx
      dsimp only at hx hge
      have hk : infinityCode - 1 - (infinityCode - 1 - code) = code := by omega
      have h := isFinite_ofNumeral_last (infinityCode - 1 - code) (by omega) s (by omega)
      simpa only [hk] using h

end Number

end Json

end Slowdown
