/-
Rounding and powers of two. Where neither a value nor its multiple leaves the range of normal
numbers, rounding commutes with the multiplication, since both have the same significand. Below
that range sums are exact, and so a mean is rounded only once.
-/
import Slowdown.Proofs.Double.Nearest
import Slowdown.Proofs.Double.Range

namespace Slowdown

/-- Only the quotient matters. -/
theorem roundHalfEven_mul_right {a d m : Nat} (hm : 0 < m) :
    roundHalfEven (a * m) (d * m) = roundHalfEven a d := by
  have htwice : 2 * (a % d * m) = 2 * (a % d) * m := (Nat.mul_assoc _ _ _).symm
  unfold roundHalfEven
  dsimp only
  simp only [Nat.mul_div_mul_right a d hm, Nat.mul_mod_mul_right, htwice,
    Nat.mul_lt_mul_right hm]

namespace Double

/-! ## Codes -/

/-- Each further exponent doubles the magnitude. -/
theorem unitsOfCode_add_binades {c : Nat} (h : binade ≤ c) (j : Nat) :
    unitsOfCode (c + j * binade) = unitsOfCode c * 2 ^ j := by
  obtain ⟨s, r, rfl, hr, hr2⟩ := exists_exponent h
  have hcode : s * binade + r + j * binade = (s + j) * binade + r := by ring
  rw [hcode, unitsOfCode_shifted hr2.le (.inr hr), unitsOfCode_shifted hr2.le (.inr hr), pow_add,
    Nat.mul_assoc]

theorem log2_mul_two_pow_div {a d : Nat} (hd : 0 < d) (h : d ≤ a) (j : Nat) :
    (a * 2 ^ j / d).log2 = (a / d).log2 + j := by
  have hq : a / d ≠ 0 := (Nat.div_pos h hd).ne'
  have hlow : 2 ^ (a / d).log2 * d ≤ a := (Nat.le_div_iff_mul_le hd).1 (Nat.log2_self_le hq)
  have hhigh : a < 2 ^ ((a / d).log2 + 1) * d := (Nat.div_lt_iff_lt_mul hd).1 Nat.lt_log2_self
  have hmul : d ≤ a * 2 ^ j := h.trans (Nat.le_mul_of_pos_right a (Nat.two_pow_pos j))
  rw [Nat.log2_eq_iff (Nat.div_pos hmul hd).ne', Nat.le_div_iff_mul_le hd, Nat.div_lt_iff_lt_mul hd]
  constructor
  · calc 2 ^ ((a / d).log2 + j) * d = 2 ^ (a / d).log2 * d * 2 ^ j := by rw [pow_add]; ring
      _ ≤ a * 2 ^ j := Nat.mul_le_mul_right _ hlow
  · calc a * 2 ^ j < 2 ^ ((a / d).log2 + 1) * d * 2 ^ j :=
        Nat.mul_lt_mul_of_pos_right hhigh (Nat.two_pow_pos j)
      _ = 2 ^ ((a / d).log2 + j + 1) * d := by rw [Nat.add_right_comm, pow_add]; ring

/-- The rounded significand stays, and the exponent moves. -/
theorem freeCode_mul_two_pow {a d : Nat} (hd : 0 < d) (h : binade * d ≤ a) (j : Nat) :
    freeCode (a * 2 ^ j) d = freeCode a d + j * binade := by
  have hda : d ≤ a := (Nat.le_mul_of_pos_left d (by decide)).trans h
  have hlog : 52 ≤ (a / d).log2 := by
    rw [Nat.le_log2 (Nat.div_pos hda hd).ne', ← binade_eq]
    exact (Nat.le_div_iff_mul_le hd).2 h
  unfold freeCode
  dsimp only
  rw [log2_mul_two_pow_div hd hda, Nat.sub_add_comm hlog, Nat.shiftLeft_eq, Nat.shiftLeft_eq,
    pow_add, ← Nat.mul_assoc, roundHalfEven_mul_right (Nat.two_pow_pos j)]
  ring

theorem binade_le_nearestCode {a d : Nat} (hd : 0 < d) (h : binade * d ≤ a) :
    binade ≤ nearestCode a d := by
  have hown : nearestCode (unitsOfCode binade * d) d = binade :=
    nearestCode_unitsOfCode hd (by decide)
  rw [← hown, unitsOfCode_of_le (by omega)]
  exact nearestCode_mono hd hd (Nat.mul_le_mul_right d h)

theorem nearestCode_mul_two_pow {a d : Nat} (hd : 0 < d) (h : binade * d ≤ a) (j : Nat)
    (hfinite : nearestCode (a * 2 ^ j) d < infinityCode) :
    nearestCode (a * 2 ^ j) d = nearestCode a d + j * binade := by
  have hfree := freeCode_mul_two_pow hd h j
  rw [nearestCode_eq] at hfinite ⊢
  rw [nearestCode_eq]
  omega

/-! ## Rounded rationals -/

/-- The units of the number nearest to so many units. -/
def nearestUnits (q : ℚ) : Int := (ofRatio q.num q.den).units

theorem units_ofRatio (n : Int) {d : Nat} (hd : 0 < d) :
    (ofRatio n d).units = nearestUnits (n / d) := by
  have hcross : n * ((n / d : ℚ).den : Int) = (n / d : ℚ).num * d := by
    have hself := Rat.num_div_den (n / d : ℚ)
    have hd' : (d : ℚ) ≠ 0 := by exact_mod_cast hd.ne'
    have hden : ((n / d : ℚ).den : ℚ) ≠ 0 := by exact_mod_cast (n / d : ℚ).den_ne_zero
    rw [div_eq_div_iff hden hd'] at hself
    exact_mod_cast hself.symm
  exact Int.le_antisymm (units_ofRatio_mono hd (Rat.den_pos _) hcross.le)
    (units_ofRatio_mono (Rat.den_pos _) hd hcross.ge)

theorem units_ofRatio_one (n : Int) : (ofRatio n 1).units = nearestUnits n := by
  rw [units_ofRatio n Nat.one_pos, Nat.cast_one, div_one]

theorem units_add_eq {x y : Double} (hx : x.isFinite = true) (hy : y.isFinite = true) :
    (x + y).units = nearestUnits ((x.units + y.units : Int) : ℚ) := by
  rw [units_add hx hy, units_ofRatio_one]

theorem units_half_eq {x : Double} (hx : x.isFinite = true) :
    (x / 2).units = nearestUnits (x.units / 2) := by
  rw [units_half hx, units_ofRatio _ Nat.two_pos, Nat.cast_two]

theorem nearestUnits_neg (q : ℚ) : nearestUnits (-q) = -nearestUnits q := by
  rw [nearestUnits, Rat.neg_num, Rat.neg_den, units_ofRatio_neg, nearestUnits]

theorem nearestUnits_units {x : Double} (hx : x.isNaN = false) :
    nearestUnits x.units = x.units := by
  have hself := units_ofRatio_units hx Nat.one_pos
  rwa [units_ofRatio_one, Nat.cast_one, Int.mul_one] at hself

/-- So many units are zero, or round to a normal number. -/
def InNormalRange (q : ℚ) : Prop := q = 0 ∨ (binade : ℚ) ≤ |q| ∧ |q| < overflowUnits

theorem InNormalRange.neg {q : ℚ} (h : InNormalRange q) : InNormalRange (-q) := by
  rwa [InNormalRange, abs_neg, neg_eq_zero]

theorem nearestUnits_mul_two_pow_of_pos {q : ℚ} (hq : 0 < q) (hlow : (binade : ℚ) ≤ q) {j : Nat}
    (hhigh : q * 2 ^ j < overflowUnits) : nearestUnits (q * 2 ^ j) = nearestUnits q * 2 ^ j := by
  obtain ⟨a, ha⟩ := Int.eq_ofNat_of_zero_le (Rat.num_nonneg.2 hq.le)
  have hd := Rat.den_pos q
  have hd' : (0 : ℚ) < q.den := by exact_mod_cast hd
  have hself : q = a / q.den := by
    rw [← Int.cast_natCast, ← ha, Rat.num_div_den]
  have hmul : q * 2 ^ j = ((a * 2 ^ j : Nat) : Int) / q.den := by
    nth_rewrite 1 [hself]
    push_cast
    exact div_mul_eq_mul_div _ _ _
  -- both bounds, cleared of the denominator
  have hlow' : binade * q.den ≤ a := by
    rw [hself, le_div_iff₀ hd'] at hlow
    exact_mod_cast hlow
  have hhigh' : a * 2 ^ j < overflowUnits * q.den := by
    rw [hmul, div_lt_iff₀ hd'] at hhigh
    exact_mod_cast hhigh
  have hfinite := isFinite_iff.1 ((isFinite_round (s := false) hd).2 hhigh')
  rw [hmul, ← units_ofRatio _ hd, units_ofRatio_natCast, nearestCode_mul_two_pow hd hlow' j hfinite,
    unitsOfCode_add_binades (binade_le_nearestCode hd hlow'), nearestUnits, ha,
    units_ofRatio_natCast]
  push_cast
  rfl

theorem nearestUnits_mul_two_pow {q : ℚ} {j : Nat} (hq : InNormalRange q)
    (hq' : InNormalRange (q * 2 ^ j)) : nearestUnits (q * 2 ^ j) = nearestUnits q * 2 ^ j := by
  have hpow : (0 : ℚ) < 2 ^ j := by positivity
  -- for what is positive; the others follow by their sign
  have hpos : ∀ r : ℚ, 0 < r → InNormalRange r → InNormalRange (r * 2 ^ j) →
      nearestUnits (r * 2 ^ j) = nearestUnits r * 2 ^ j := by
    intro r hr hlow hhigh
    have hlow := (hlow.resolve_left hr.ne').1
    have hhigh := (hhigh.resolve_left (mul_pos hr hpow).ne').2
    rw [abs_of_pos hr] at hlow
    rw [abs_of_pos (mul_pos hr hpow)] at hhigh
    exact nearestUnits_mul_two_pow_of_pos hr hlow hhigh
  rcases lt_trichotomy q 0 with h | rfl | h
  · have hneg := hpos (-q) (neg_pos.2 h) hq.neg (by rw [neg_mul]; exact hq'.neg)
    rw [neg_mul, nearestUnits_neg, nearestUnits_neg, Int.neg_mul] at hneg
    exact Int.neg_inj.1 hneg
  · have hzero := nearestUnits_units (x := zero false) rfl
    rw [units_zero, Int.cast_zero] at hzero
    rw [zero_mul, hzero, Int.zero_mul]
  · exact hpos q h hq hq'

/-- Rounding commutes with powers of two. -/
theorem nearestUnits_mul_zpow {q : ℚ} {k : Int} (hq : InNormalRange q)
    (hq' : InNormalRange (q * 2 ^ k)) :
    (nearestUnits (q * 2 ^ k) : ℚ) = nearestUnits q * 2 ^ k := by
  obtain ⟨j, rfl | rfl⟩ := Int.eq_nat_or_neg k
  · rw [zpow_natCast] at hq' ⊢
    exact_mod_cast nearestUnits_mul_two_pow hq hq'
  · -- the other way round
    have hpow : (2 : ℚ) ^ j ≠ 0 := by positivity
    have hback : q * 2 ^ (-(j : Int)) * 2 ^ j = q := by
      rw [zpow_neg, zpow_natCast, inv_mul_cancel_right₀ hpow]
    have hscaled := nearestUnits_mul_two_pow hq' (by rwa [hback])
    rw [hback] at hscaled
    rw [hscaled, zpow_neg, zpow_natCast]
    push_cast
    rw [mul_inv_cancel_right₀ hpow]

/-! ## Means -/

/-- A whole number of units is a number up to the second exponent. -/
theorem units_ofRatio_of_small {n : Int} (h : n.natAbs ≤ 2 * binade) : (ofRatio n 1).units = n := by
  have hcode := nearestCode_unitsOfCode Nat.one_pos (show n.natAbs ≤ infinityCode by
    have hlarge : 2 * binade ≤ infinityCode := by decide
    omega)
  rw [unitsOfCode_of_le h, Nat.mul_one] at hcode
  rw [ofRatio, units_round, hcode, unitsOfCode_of_le h]
  simp only [decide_eq_true_eq]
  split <;> omega

/-- From the third exponent on, half of a rounded number is the rounded half. -/
theorem nearestUnits_eq_twice {n : Int} (hlow : 2 * binade ≤ n.natAbs)
    (hhigh : n.natAbs < overflowUnits) : nearestUnits n = nearestUnits (n / 2) * 2 := by
  have hmul : (n : ℚ) / 2 * 2 ^ 1 = n := by rw [pow_one, div_mul_cancel₀ _ two_ne_zero]
  have habs : |(n : ℚ)| = n.natAbs := by rw [Nat.cast_natAbs, Int.cast_abs]
  have hhalf : |(n : ℚ) / 2| = |(n : ℚ)| / 2 := by rw [abs_div, abs_two]
  have hlow' : (2 : ℚ) * binade ≤ |(n : ℚ)| := by rw [habs]; exact_mod_cast hlow
  have hhigh' : |(n : ℚ)| < overflowUnits := by rw [habs]; exact_mod_cast hhigh
  have hnonneg := abs_nonneg (n : ℚ)
  have hrange : InNormalRange n := .inr ⟨by linarith, hhigh'⟩
  have hrange' : InNormalRange (n / 2) := .inr ⟨by linarith, by linarith⟩
  have htwice := nearestUnits_mul_two_pow hrange' (by rwa [hmul])
  rwa [hmul, pow_one] at htwice

/-- A mean is rounded once: where the sum is rounded, halving it is exact. -/
theorem units_mean {x y : Double} (hx : x.isFinite = true) (hy : y.isFinite = true)
    (hsum : (x + y).isFinite = true) :
    ((x + y) / 2).units = (ofRatio (x.units + y.units) 2).units := by
  rw [units_half hsum, units_add hx hy]
  rw [isFinite_add hx hy] at hsum
  generalize x.units + y.units = n at hsum ⊢
  rcases Nat.le_total n.natAbs (2 * binade) with hsmall | hlarge
  · rw [units_ofRatio_of_small hsmall]
  · have hself : nearestUnits (nearestUnits (n / 2)) = nearestUnits (n / 2) :=
      nearestUnits_units (isNaN_ofRatio _ _)
    rw [units_ofRatio_one, nearestUnits_eq_twice hlarge hsum, units_ofRatio _ Nat.two_pos,
      units_ofRatio _ Nat.two_pos]
    push_cast
    rw [mul_div_cancel_right₀ _ two_ne_zero, hself]

/-- Numbers of the same value are equally near. -/
theorem IsNearest.of_units {x y : Double} {n : Int} {d : Nat} (h : IsNearest x n d)
    (hxy : y.units = x.units) : IsNearest y n d := by
  have hcode := code_eq_of_units hxy
  refine ⟨?_, fun z hz => ?_, fun z hz hne htie => ?_⟩
  · rw [isFinite_iff, hcode]
    exact isFinite_iff.1 h.finite
  · rw [hxy]
    exact h.nearest z hz
  · rw [hcode]
    rw [hxy] at hne htie
    exact h.even_of_tie z hz hne htie

/-- The mean of two finite numbers is the number nearest to the exact mean. -/
theorem mean_isNearest {x y : Double} (hx : x.isFinite = true) (hy : y.isFinite = true)
    (hsum : (x + y).isFinite = true) : IsNearest ((x + y) / 2) (x.units + y.units) 2 := by
  have hfinite : (ofRatio (x.units + y.units) 2).isFinite = true := by
    rw [isFinite_add hx hy] at hsum
    rw [ofRatio, isFinite_round (by decide)]
    omega
  exact (ofRatio_isNearest (by decide) hfinite).of_units (units_mean hx hy hsum)

end Double

end Slowdown
