/-
The operations on finite numbers as one rounding of the exact result, and the order facts that
follow from it: a mean lies between its terms unless their sum leaves the finite range, adding
what is not negative does not go down, and a quotient falls with its divisor.
-/
import Slowdown.Proofs.Double.Rounding

namespace Slowdown

namespace Double

/-! ## Constants -/

theorem unitsPerOne_pos : 0 < unitsPerOne := by decide

@[simp] theorem units_zero (s : Bool) : (zero s).units = 0 := by
  unfold zero units; simp

theorem zero_eq : (0 : Double) = zero false := rfl

theorem two_eq : (2 : Double) = ⟨false, 1024 * binade, by decide⟩ := by decide +kernel

theorem units_two : (2 : Double).units = 2 * unitsPerOne := by
  rw [two_eq]
  rfl

theorem units_two_pos : 0 < (2 : Double).units := by
  rw [units_two]
  have := unitsPerOne_pos
  omega

theorem isFinite_two : (2 : Double).isFinite = true := by
  rw [two_eq]
  rfl

theorem units_one : (1 : Double).units = unitsPerOne := by decide +kernel

theorem isFinite_one : (1 : Double).isFinite = true := by decide +kernel

theorem units_infinity : (infinity false).units = unitsOfCode infinityCode := rfl

theorem zero_le_iff {x : Double} : 0 ≤ x ↔ x.isNaN = false ∧ 0 ≤ x.units := by
  rw [le_iff, zero_eq, units_zero]
  exact and_iff_right rfl

theorem zero_lt_iff {x : Double} : 0 < x ↔ x.isNaN = false ∧ 0 < x.units := by
  rw [lt_iff, zero_eq, units_zero]
  exact and_iff_right rfl

theorem units_nonneg {x : Double} (h : x.negative = false) : 0 ≤ x.units := by
  unfold units; simp [h]

theorem units_nonpos {x : Double} (h : x.negative = true) : x.units ≤ 0 := by
  unfold units; simp [h]

theorem negative_of_pos {x : Double} (h : 0 < x.units) : x.negative = false := by
  by_contra hs
  have := units_nonpos (Bool.eq_true_of_not_eq_false hs)
  omega

theorem units_lt_infinity {x : Double} (h : x.isFinite = true) :
    x.units.natAbs < unitsOfCode infinityCode := by
  rw [natAbs_units]
  exact unitsOfCode_strictMono (isFinite_iff.1 h)

theorem not_lt_zero {x : Double} (h : 0 ≤ x.units) (s : Bool) : ¬ x < zero s := by
  rw [lt_iff, units_zero]
  omega

theorem isFinite_of_le {x y : Double} (hy : y.isFinite = true) (h0 : 0 ≤ x.units) (h : x ≤ y) :
    x.isFinite = true := by
  have hlt := units_lt_infinity hy
  have hle := (le_iff.1 h).2.2
  rw [isFinite_iff, ← unitsOfCode_strictMono.lt_iff_lt, ← natAbs_units]
  omega

/-! ## Finite operands -/

/-- The sign given to a rounding only has to be that of the exact value if there is one. -/
theorem units_round_of_sign {s : Bool} {a d : Nat} {n : Int} (ha : a = n.natAbs)
    (hs : n ≠ 0 → s = decide (n < 0)) : (round s a d).units = (ofRatio n d).units := by
  subst ha
  by_cases hn : n = 0
  · subst hn; simp [ofRatio, units_round]
  · rw [hs hn]; rfl

theorem add_finite {x y : Double} (hx : x.isFinite = true) (hy : y.isFinite = true) :
    x + y = if x.units + y.units = 0 then zero (x.negative && y.negative)
      else ofRatio (x.units + y.units) 1 := by
  show add x y = _
  simp only [add, isNaN_of_isFinite hx, isNaN_of_isFinite hy, isInfinite_of_isFinite hx,
    isInfinite_of_isFinite hy, Bool.or_self, Bool.false_eq_true, ↓reduceIte]
  rfl

theorem units_add {x y : Double} (hx : x.isFinite = true) (hy : y.isFinite = true) :
    (x + y).units = (ofRatio (x.units + y.units) 1).units := by
  rw [add_finite hx hy]
  split
  · rename_i h; rw [h]; simp [ofRatio, units_round]
  · rfl

theorem isNaN_add {x y : Double} (hx : x.isFinite = true) (hy : y.isFinite = true) :
    (x + y).isNaN = false := by
  rw [add_finite hx hy]
  split
  · rfl
  · exact isNaN_ofRatio _ _

theorem sub_eq (x y : Double) : x - y = x + -y := rfl

theorem units_sub {x y : Double} (hx : x.isFinite = true) (hy : y.isFinite = true) :
    (x - y).units = (ofRatio (x.units - y.units) 1).units := by
  rw [sub_eq, units_add hx (by rwa [isFinite_neg]), units_neg, Int.sub_eq_add_neg]

theorem isNaN_sub {x y : Double} (hx : x.isFinite = true) (hy : y.isFinite = true) :
    (x - y).isNaN = false := by
  rw [sub_eq]; exact isNaN_add hx (by rwa [isFinite_neg])

theorem mul_finite {x y : Double} (hx : x.isFinite = true) (hy : y.isFinite = true) :
    x * y = round (x.negative != y.negative) (x.units.natAbs * y.units.natAbs) unitsPerOne := by
  show mul x y = _
  simp only [mul, isNaN_of_isFinite hx, isNaN_of_isFinite hy, isInfinite_of_isFinite hx,
    isInfinite_of_isFinite hy, Bool.or_self, Bool.false_eq_true, ↓reduceIte]

theorem units_mul {x y : Double} (hx : x.isFinite = true) (hy : y.isFinite = true) :
    (x * y).units = (ofRatio (x.units * y.units) unitsPerOne).units := by
  rw [mul_finite hx hy]
  -- unless a factor is zero the signs say which side of zero the product is on
  refine units_round_of_sign (Int.natAbs_mul _ _).symm fun hn => ?_
  have hx0 : x.units ≠ 0 := left_ne_zero_of_mul hn
  have hy0 : y.units ≠ 0 := right_ne_zero_of_mul hn
  have hxy : x.units * y.units < 0 ↔ 0 < x.units ∧ y.units < 0 ∨ x.units < 0 ∧ 0 < y.units :=
    mul_neg_iff
  cases hxs : x.negative <;> cases hys : y.negative
  · have := units_nonneg hxs; have := units_nonneg hys; simp [hxy]; omega
  · have := units_nonneg hxs; have := units_nonpos hys; simp [hxy]; omega
  · have := units_nonpos hxs; have := units_nonneg hys; simp [hxy]; omega
  · have := units_nonpos hxs; have := units_nonpos hys; simp [hxy]; omega

theorem div_finite {x y : Double} (hx : x.isFinite = true) (hy : y.isFinite = true)
    (hy0 : y.units ≠ 0) :
    x / y = round (x.negative != y.negative) (x.units.natAbs * unitsPerOne) y.units.natAbs := by
  have hz : y.isZero = false := by
    rw [← Bool.not_eq_true, ← units_eq_zero]; exact hy0
  show div x y = _
  simp only [div, isNaN_of_isFinite hx, isNaN_of_isFinite hy, isInfinite_of_isFinite hx,
    isInfinite_of_isFinite hy, hz, Bool.or_self, Bool.false_eq_true, ↓reduceIte]

theorem isNaN_div {x y : Double} (hx : x.isFinite = true) (hy : y.isFinite = true)
    (hy0 : y.units ≠ 0) : (x / y).isNaN = false := by
  rw [div_finite hx hy hy0]; exact isNaN_round _ _ _

theorem units_div_of_pos {x y : Double} (hx : x.isFinite = true) (hy : y.isFinite = true)
    (hy0 : 0 < y.units) :
    (x / y).units = (ofRatio (x.units * unitsPerOne) y.units.toNat).units := by
  rw [div_finite hx hy hy0.ne', show y.units.natAbs = y.units.toNat by omega]
  refine units_round_of_sign (by rw [Int.natAbs_mul, Int.natAbs_natCast]) fun hn => ?_
  have hx0 : x.units ≠ 0 := left_ne_zero_of_mul hn
  have hpos : (0 : Int) < unitsPerOne := by exact_mod_cast unitsPerOne_pos
  have hsign : x.units * unitsPerOne < 0 ↔ x.units < 0 := by
    rw [mul_neg_iff]; omega
  rw [negative_of_pos hy0]
  cases hxs : x.negative
  · have := units_nonneg hxs; simp [hsign]; omega
  · have := units_nonpos hxs; simp [hsign]; omega

/-- A sum does not fall with its second term, also where it leaves the finite range. -/
theorem add_le_add_left {x y z : Double} (hx : x.isFinite = true) (hy : y.isFinite = true)
    (hz : z.isFinite = true) (h : y ≤ z) : x + y ≤ x + z := by
  have hle := (le_iff.1 h).2.2
  rw [le_iff, units_add hx hy, units_add hx hz]
  exact ⟨isNaN_add hx hy, isNaN_add hx hz,
    units_ofRatio_mono Nat.one_pos Nat.one_pos (by push_cast; omega)⟩

/-! ## Leaving the finite range -/

/-- The magnitude, in units, from which a rounding overflows: `2^1024 - 2^970`. -/
def overflowUnits : Nat := (2 ^ 1024 - 2 ^ 970) * unitsPerOne

/-- It is the midpoint of the largest finite number and `2^1024`. -/
theorem units_last_add : unitsOfCode (infinityCode - 1) + unitsOfCode (infinityCode - 1 + 1) =
    2 * overflowUnits := by
  decide +kernel

theorem overflowUnits_pos : 0 < overflowUnits := by
  have hlt : 2 ^ 970 < 2 ^ 1024 := pow_lt_pow_right₀ one_lt_two (by decide)
  exact Nat.mul_pos (Nat.sub_pos_of_lt hlt) unitsPerOne_pos

theorem isFinite_round {s : Bool} {a d : Nat} (hd : 0 < d) :
    (round s a d).isFinite = true ↔ a < overflowUnits * d := by
  have hlast : infinityCode - 1 < infinityCode := by decide
  have hodd : (infinityCode - 1) % 2 ≠ 0 := by decide
  have hle := nearestCode_le_iff (a := a) hd hlast
  rw [units_last_add, Nat.mul_assoc] at hle
  rw [isFinite_iff]
  show nearestCode a d < infinityCode ↔ _
  omega

theorem isFinite_ofRatio {n : Int} : (ofRatio n 1).isFinite = true ↔ n.natAbs < overflowUnits := by
  rw [ofRatio, isFinite_round Nat.one_pos, Nat.mul_one]

/-- A sum of finite numbers is finite exactly if its exact value does not round to `2^1024`. -/
theorem isFinite_add {x y : Double} (hx : x.isFinite = true) (hy : y.isFinite = true) :
    (x + y).isFinite = true ↔ (x.units + y.units).natAbs < overflowUnits := by
  rw [add_finite hx hy]
  split
  · rename_i h
    simp only [h, Int.natAbs_zero, overflowUnits_pos, iff_true]
    rfl
  · exact isFinite_ofRatio

/-- A sum from `2^1024 - 2^970` on is infinite. -/
theorem add_eq_infinity {x y : Double} (hx : x.isFinite = true) (hy : y.isFinite = true)
    (h : (overflowUnits : Int) ≤ x.units + y.units) : x + y = infinity false := by
  have hpos := overflowUnits_pos
  have hinf : ¬ nearestCode (x.units + y.units).natAbs 1 < infinityCode := fun hlt => by
    have := isFinite_ofRatio.1 (isFinite_iff.2 hlt)
    omega
  have hle := nearestCode_le (x.units + y.units).natAbs 1
  have hcode : nearestCode (x.units + y.units).natAbs 1 = infinityCode := by omega
  have hsign : decide (x.units + y.units < 0) = false := decide_eq_false (by omega)
  rw [add_finite hx hy, if_neg (by omega)]
  simp only [ofRatio, round, infinity, hcode, hsign]

/-! ## Means -/

/-- Twice a finite number is a number, or lies beyond the finite range. -/
theorem exists_twice (x : Double) :
    (∃ z : Double, z.isNaN = false ∧ z.units = 2 * x.units) ∨
      unitsOfCode infinityCode ≤ 2 * x.units.natAbs := by
  obtain ⟨c, hc⟩ : ∃ c, unitsOfCode c = 2 * unitsOfCode x.code := by
    rcases Nat.lt_or_ge x.code binade with h | h
    · exact ⟨2 * x.code, by rw [unitsOfCode_of_le (by omega), unitsOfCode_of_le (by omega)]⟩
    · obtain ⟨s, r, hsr, hr1, hr2⟩ := exists_exponent h
      refine ⟨(s + 1) * binade + r, ?_⟩
      rw [hsr, unitsOfCode_shifted (by omega) (.inr hr1), unitsOfCode_shifted (by omega) (.inr hr1)]
      ring
  rw [natAbs_units, ← hc]
  rcases Nat.lt_or_ge infinityCode c with h | h
  · exact .inr (unitsOfCode_le.2 h.le)
  · refine .inl ⟨⟨x.negative, c, Nat.lt_of_le_of_lt h (by decide)⟩, isNaN_eq_false.2 h, ?_⟩
    unfold units
    rw [hc]
    split <;> push_cast <;> ring

/-- A finite rounding keeps a lower bound that is twice a finite number. -/
theorem twice_le_ofRatio {x : Double} {n : Int}
    (hn : (ofRatio n 1).isFinite = true) (h : 2 * x.units ≤ n) :
    2 * x.units ≤ (ofRatio n 1).units := by
  -- if twice `x` is no number, nothing of at least its size rounds to a finite one
  rcases exists_twice x with ⟨z, hz, hzx⟩ | hbig
  · rw [← hzx]
    exact units_le_ofRatio hz Nat.one_pos (by omega)
  · have hlt := units_lt_infinity hn
    by_contra hc
    have hpos : 0 < x.units := by omega
    have hinf := units_le_ofRatio (x := infinity false) (n := n) rfl Nat.one_pos
      (by rw [units_infinity]; omega)
    rw [units_infinity] at hinf
    omega

theorem ofRatio_le_twice {x : Double} {n : Int}
    (hn : (ofRatio n 1).isFinite = true) (h : n ≤ 2 * x.units) :
    (ofRatio n 1).units ≤ 2 * x.units := by
  have hneg := twice_le_ofRatio (x := -x) (n := -n)
    (by rw [isFinite_ofRatio] at hn ⊢; omega) (by rw [units_neg]; omega)
  rw [units_neg, units_ofRatio_neg] at hneg
  omega

theorem units_half {x : Double} (hx : x.isFinite = true) :
    (x / 2).units = (ofRatio x.units 2).units := by
  rw [units_div_of_pos hx isFinite_two units_two_pos, units_two]
  have hpos := unitsPerOne_pos
  have hnat : (2 * (unitsPerOne : Int)).toNat = 2 * unitsPerOne := by omega
  rw [hnat]
  exact Int.le_antisymm
    (units_ofRatio_mono (by omega) (by decide) (by push_cast; exact le_of_eq (by ring)))
    (units_ofRatio_mono (by decide) (by omega) (by push_cast; exact le_of_eq (by ring)))

/-- The mean of two finite numbers lies between them, whenever their sum is finite. -/
theorem mean_between {x y : Double} (hx : x.isFinite = true) (hy : y.isFinite = true)
    (hxy : x ≤ y) (hsum : (x + y).isFinite = true) : x ≤ (x + y) / 2 ∧ (x + y) / 2 ≤ y := by
  have hle := (le_iff.1 hxy).2.2
  have hround : (ofRatio (x.units + y.units) 1).isFinite = true :=
    isFinite_ofRatio.2 ((isFinite_add hx hy).1 hsum)
  have hlow : 2 * x.units ≤ (x + y).units := by
    rw [units_add hx hy]; exact twice_le_ofRatio hround (by omega)
  have hhigh : (x + y).units ≤ 2 * y.units := by
    rw [units_add hx hy]; exact ofRatio_le_twice hround (by omega)
  have hnan : ((x + y) / 2).isNaN = false := isNaN_div hsum isFinite_two units_two_pos.ne'
  rw [le_iff, le_iff, units_half hsum]
  exact ⟨⟨isNaN_of_isFinite hx, hnan,
      units_le_ofRatio (isNaN_of_isFinite hx) (by decide) (by omega)⟩,
    hnan, isNaN_of_isFinite hy, ofRatio_le_units (isNaN_of_isFinite hy) (by decide) (by omega)⟩

/-! ## Fences -/

@[simp] theorem isNaN_infinity (s : Bool) : (infinity s).isNaN = false := by
  simp [isNaN, infinity]

@[simp] theorem isInfinite_infinity (s : Bool) : (infinity s).isInfinite = true := by
  simp [isInfinite, infinity]

@[simp] theorem isZero_infinity (s : Bool) : (infinity s).isZero = false := by
  simp [isZero, infinity, infinityCode, binade]

/-- An infinity that is not negative is `+inf`. -/
theorem eq_infinity {p : Double} (hi : p.isInfinite = true) (hp : 0 ≤ p) : p = infinity false := by
  simp only [isInfinite, decide_eq_true_eq] at hi
  have hu : 0 ≤ p.units := (zero_le_iff.1 hp).2
  have hs : p.negative = false := by
    by_contra h
    have hneg : p.units = -(unitsOfCode p.code : Int) := by
      unfold units; rw [if_pos (Bool.eq_true_of_not_eq_false h)]
    have hpos : unitsOfCode p.code ≠ 0 := unitsOfCode_eq_zero.not.2 (by rw [hi]; decide)
    omega
  obtain ⟨s, c, hc⟩ := p
  simp only at hi hs
  subst hi hs
  rfl

theorem add_infinity {x : Double} (hx : x.isFinite = true) (s : Bool) :
    x + infinity s = infinity s := by
  show add x (infinity s) = _
  simp [add, isNaN_of_isFinite hx, isInfinite_of_isFinite hx]

theorem le_infinity {x : Double} (hx : x.isFinite = true) :
    x ≤ infinity false ∧ infinity true ≤ x := by
  have hlt := units_lt_infinity hx
  have hpos := units_infinity
  have hneg : (infinity true).units = -unitsOfCode infinityCode := rfl
  rw [le_iff, le_iff]
  exact ⟨⟨isNaN_of_isFinite hx, rfl, by omega⟩, rfl, isNaN_of_isFinite hx, by omega⟩

theorem le_add_of_nonneg {x p : Double} (hx : x.isFinite = true) (hp : 0 ≤ p) : x ≤ x + p := by
  cases hi : p.isInfinite
  · have hfin := isFinite_of_not (zero_le_iff.1 hp).1 hi
    have hu := (zero_le_iff.1 hp).2
    rw [le_iff, units_add hx hfin]
    exact ⟨isNaN_of_isFinite hx, isNaN_add hx hfin,
      units_le_ofRatio (isNaN_of_isFinite hx) Nat.one_pos (by omega)⟩
  · rw [eq_infinity hi hp, add_infinity hx]
    exact (le_infinity hx).1

/-- What is not negative added to one gives a positive number. -/
theorem one_add_pos {p : Double} (hp : 0 ≤ p) : 0 < (1 + p).units := by
  have hle := (le_iff.1 (le_add_of_nonneg isFinite_one hp)).2.2
  have hpos := unitsPerOne_pos
  rw [units_one] at hle
  omega

theorem sub_le_of_nonneg {x p : Double} (hx : x.isFinite = true) (hp : 0 ≤ p) : x - p ≤ x := by
  cases hi : p.isInfinite
  · have hfin := isFinite_of_not (zero_le_iff.1 hp).1 hi
    have hu := (zero_le_iff.1 hp).2
    rw [le_iff, units_sub hx hfin]
    exact ⟨isNaN_sub hx hfin, isNaN_of_isFinite hx,
      ofRatio_le_units (isNaN_of_isFinite hx) Nat.one_pos (by omega)⟩
  · rw [eq_infinity hi hp, sub_eq, show -infinity false = infinity true from rfl, add_infinity hx]
    exact (le_infinity hx).2

theorem sub_nonneg_of_le {x y : Double} (hx : x.isFinite = true) (hy : y.isFinite = true)
    (h : x ≤ y) : 0 ≤ y - x := by
  have hle := (le_iff.1 h).2.2
  rw [zero_le_iff, units_sub hy hx]
  refine ⟨isNaN_sub hy hx, ?_⟩
  have := units_le_ofRatio (x := zero false) (n := y.units - x.units) rfl Nat.one_pos
    (by rw [units_zero]; omega)
  rwa [units_zero] at this

/-- A finite positive factor keeps what is not negative so, infinity included. -/
theorem mul_nonneg_of_pos {f p : Double} (hf : f.isFinite = true) (hf0 : 0 < f.units) (hp : 0 ≤ p) :
    0 ≤ f * p := by
  cases hi : p.isInfinite
  · have hfin := isFinite_of_not (zero_le_iff.1 hp).1 hi
    have hu := (zero_le_iff.1 hp).2
    rw [zero_le_iff, units_mul hf hfin]
    refine ⟨by rw [mul_finite hf hfin]; exact isNaN_round _ _ _, ?_⟩
    have := units_le_ofRatio (x := zero false) (n := f.units * p.units) rfl unitsPerOne_pos
      (by rw [units_zero]; exact (Int.zero_mul _).trans_le (Int.mul_nonneg hf0.le hu))
    rwa [units_zero] at this
  · -- an infinite factor: the other one is not zero, so the product is infinite too
    have hz : f.isZero = false := by
      rw [← Bool.not_eq_true, ← units_eq_zero]; omega
    rw [eq_infinity hi hp]
    have hinf : f * infinity false = infinity false := by
      show mul f (infinity false) = _
      simp [mul, isNaN_of_isFinite hf, hz, negative_of_pos hf0]
      rfl
    rw [hinf, zero_le_iff, units_infinity]
    exact ⟨rfl, Int.natCast_nonneg _⟩

/-! ## Ratios -/

/-- What is not negative gives a smaller ratio over a larger divisor. -/
theorem div_le_div_left {x y z : Double} (hx : x.isFinite = true) (hx0 : 0 ≤ x.units)
    (hy : y.isFinite = true) (hz : z.isFinite = true) (hy0 : 0 < y.units) (hyz : y ≤ z) :
    x / z ≤ x / y := by
  have hle := (le_iff.1 hyz).2.2
  have hz0 : 0 < z.units := by omega
  rw [le_iff, units_div_of_pos hx hz hz0, units_div_of_pos hx hy hy0]
  refine ⟨isNaN_div hx hz hz0.ne', isNaN_div hx hy hy0.ne', ?_⟩
  refine units_ofRatio_mono (by omega) (by omega) ?_
  exact Int.mul_le_mul_of_nonneg_left (by omega) (Int.mul_nonneg hx0 (by omega))

theorem div_infinity {x : Double} (hx : x.isFinite = true) :
    x / infinity false = zero x.negative := by
  show div x (infinity false) = _
  simp [div, isNaN_of_isFinite hx, isInfinite_of_isFinite hx]
  simp [infinity]

theorem infinity_div_two : infinity false / 2 = infinity false := by
  have hsign : (2 : Double).negative = false := negative_of_pos units_two_pos
  show div (infinity false) 2 = _
  simp [div, hsign, isNaN_of_isFinite isFinite_two, isInfinite_of_isFinite isFinite_two]
  rfl

end Double

end Slowdown
