/-
Numbers of the same value, that is, equal in the numeric order or both NaN. Sums, halves and
products of such numbers have the same value again, and so have the negation of a result and the
result of the negated operands.
-/
import Slowdown.Proofs.Double.Quotient

namespace Slowdown

namespace Double

/-- Equal in the numeric order, as the two zeros are, or both NaN. -/
def SameValue (x y : Double) : Prop := x.isNaN = true ∧ y.isNaN = true ∨ x ≤ y ∧ y ≤ x

/-! ## Equal values -/

theorem sameValue_of_units {x y : Double} (hx : x.isNaN = false) (hy : y.isNaN = false)
    (h : x.units = y.units) : SameValue x y :=
  .inr ⟨le_iff.2 ⟨hx, hy, h.le⟩, le_iff.2 ⟨hy, hx, h.ge⟩⟩

theorem SameValue.refl (x : Double) : SameValue x x := by
  cases hx : x.isNaN with
  | true => exact .inl ⟨hx, hx⟩
  | false => exact sameValue_of_units hx hx rfl

theorem SameValue.symm {x y : Double} (h : SameValue x y) : SameValue y x :=
  h.imp And.symm And.symm

theorem SameValue.le_iff_left {x x' : Double} (h : SameValue x x') (y : Double) :
    x ≤ y ↔ x' ≤ y := by
  rcases h with ⟨hx, hx'⟩ | ⟨hle, hge⟩
  · rw [le_iff, le_iff, hx, hx']
    simp
  · exact ⟨le_trans hge, le_trans hle⟩

theorem SameValue.le_iff_right {y y' : Double} (h : SameValue y y') (x : Double) :
    x ≤ y ↔ x ≤ y' := by
  rcases h with ⟨hy, hy'⟩ | ⟨hle, hge⟩
  · rw [le_iff, le_iff, hy, hy']
    simp
  · exact ⟨fun hxy => le_trans hxy hle, fun hxy => le_trans hxy hge⟩

theorem SameValue.trans {x y z : Double} (h : SameValue x y) (h' : SameValue y z) :
    SameValue x z := by
  rcases h' with ⟨hy, hz⟩ | ⟨hle, hge⟩
  · rcases h with ⟨hx, -⟩ | ⟨hxy, -⟩
    · exact .inl ⟨hx, hz⟩
    · rw [le_iff, hy] at hxy
      exact absurd hxy.2.1 (by simp)
  · exact .inr ⟨(h.le_iff_left z).2 hle, (h.le_iff_right z).2 hge⟩

/-- Only NaN and the zeros have a value in common with another number. -/
theorem SameValue.cases {x y : Double} (h : SameValue x y) :
    x = y ∨ x.isNaN = true ∧ y.isNaN = true ∨ x = zero x.negative ∧ y = zero y.negative := by
  rcases h with hnan | ⟨hle, hge⟩
  · exact .inr (.inl hnan)
  · have hunits : x.units = y.units := Int.le_antisymm (le_iff.1 hle).2.2 (le_iff.1 hge).2.2
    have hcode := code_eq_of_units hunits
    obtain ⟨s, c, hc⟩ := x
    obtain ⟨t, d, hd⟩ := y
    obtain rfl : c = d := hcode
    by_cases hzero : c = 0
    · subst hzero
      exact .inr (.inr ⟨rfl, rfl⟩)
    · left
      have hpos := unitsOfCode_eq_zero.not.2 hzero
      cases s <;> cases t <;> simp [units] at hunits ⊢ <;> omega

/-- A function respects values if NaN stays one and the signs of zeros do not matter. -/
theorem SameValue.map {f : Double → Double} (hnan : ∀ x, x.isNaN = true → (f x).isNaN = true)
    (hzero : ∀ s t, SameValue (f (zero s)) (f (zero t))) {x y : Double} (h : SameValue x y) :
    SameValue (f x) (f y) := by
  rcases h.cases with rfl | ⟨hx, hy⟩ | ⟨hx, hy⟩
  · exact .refl _
  · exact .inl ⟨hnan x hx, hnan y hy⟩
  · rw [hx, hy]
    exact hzero _ _

/-! ## Operations on equal values -/

theorem add_swap (x y : Double) : x + y = y + x := by
  show add x y = add y x
  unfold add
  dsimp only
  cases hxi : x.isInfinite <;> cases hyi : y.isInfinite
  · simp only [Bool.or_comm y.isNaN, Int.add_comm y.units, Bool.and_comm y.negative,
      Bool.false_eq_true, ↓reduceIte]
  · simp only [Bool.or_comm y.isNaN, Bool.false_eq_true, ↓reduceIte, Bool.false_and]
  · simp only [Bool.or_comm y.isNaN, Bool.false_eq_true, ↓reduceIte, Bool.false_and]
  · -- of two infinities of one sign either is the sum
    rw [eq_infinity_negative hxi, eq_infinity_negative hyi]
    cases x.negative <;> cases y.negative <;> rfl

theorem zero_add_sameValue (s : Bool) (y : Double) : SameValue (zero s + y) y := by
  cases hy : y.isNaN with
  | true => exact .inl ⟨isNaN_add_iff.2 (.inr (.inl hy)), hy⟩
  | false =>
    cases hyi : y.isInfinite with
    | true =>
      rw [eq_infinity_negative hyi, add_infinity (isFinite_zero s)]
      exact .refl _
    | false =>
      have hfinite := isFinite_of_not hy hyi
      refine sameValue_of_units (isNaN_add (isFinite_zero s) hfinite) hy ?_
      rw [units_add (isFinite_zero s) hfinite, units_zero, Int.zero_add]
      simpa using units_ofRatio_units hy Nat.one_pos

theorem SameValue.add {x x' y y' : Double} (hx : SameValue x x') (hy : SameValue y y') :
    SameValue (x + y) (x' + y') := by
  have left {u u' : Double} (hu : SameValue u u') (v : Double) : SameValue (u + v) (u' + v) :=
    hu.map (fun _ h => isNaN_add_iff.2 (.inl h)) fun s t =>
      (zero_add_sameValue s v).trans (zero_add_sameValue t v).symm
  have right := left hy x'
  rw [add_swap y, add_swap y'] at right
  exact (left hx y).trans right

theorem SameValue.half {x x' : Double} (h : SameValue x x') : SameValue (x / 2) (x' / 2) := by
  refine h.map (fun x hx => (isNaN_half x).trans hx) fun s t => ?_
  refine sameValue_of_units ((isNaN_half _).trans (isNaN_zero s))
    ((isNaN_half _).trans (isNaN_zero t)) ?_
  rw [units_half (isFinite_zero s), units_half (isFinite_zero t), units_zero, units_zero]

theorem SameValue.mul_left {f x x' : Double} (hf : f.isFinite = true) (h : SameValue x x') :
    SameValue (f * x) (f * x') := by
  refine h.map (fun x hx => ?_) fun s t => ?_
  · show (mul f x).isNaN = true
    simp [mul, hx, isNaN_nan]
  · have hnumber (s : Bool) : (f * zero s).isNaN = false := by
      rw [mul_finite hf (isFinite_zero s)]
      exact isNaN_round _ _ _
    refine sameValue_of_units (hnumber s) (hnumber t) ?_
    rw [units_mul hf (isFinite_zero s), units_mul hf (isFinite_zero t), units_zero, units_zero]

/-! ## Negation -/

theorem neg_twice (x : Double) : - -x = x := by
  show neg (neg x) = x
  simp [neg]

theorem isNaN_neg (x : Double) : (-x).isNaN = x.isNaN := rfl

theorem neg_infinity (s : Bool) : -infinity s = infinity !s := rfl

theorem neg_le_neg_iff_swap {x y : Double} : -x ≤ -y ↔ y ≤ x := by
  rw [le_iff, le_iff, isNaN_neg, isNaN_neg, units_neg, units_neg, Int.neg_le_neg_iff,
    and_left_comm]

theorem SameValue.neg {x y : Double} (h : SameValue x y) : SameValue (-x) (-y) :=
  h.imp id fun hle => ⟨neg_le_neg_iff_swap.2 hle.2, neg_le_neg_iff_swap.2 hle.1⟩

theorem neg_add_infinity {x : Double} (hx : x.isFinite = true) (s : Bool) :
    SameValue (-x + -infinity s) (-(x + infinity s)) := by
  rw [neg_infinity, add_infinity (by rwa [isFinite_neg]), add_infinity hx]
  exact .refl _

theorem neg_add_neg (x y : Double) : SameValue (-x + -y) (-(x + y)) := by
  by_cases hnan : x.isNaN = true ∨ y.isNaN = true
  · refine .inl ⟨isNaN_add_iff.2 ?_, isNaN_add_iff.2 ?_⟩
    · exact or_assoc.1 (.inl hnan)
    · exact or_assoc.1 (.inl hnan)
  · rw [not_or, Bool.not_eq_true, Bool.not_eq_true] at hnan
    obtain ⟨hx, hy⟩ := hnan
    -- finite terms add exactly before they are rounded; an infinite one decides by its sign
    cases hxi : x.isInfinite <;> cases hyi : y.isInfinite
    · have hxf := isFinite_of_not hx hxi
      have hyf := isFinite_of_not hy hyi
      have hxf' : (-x).isFinite = true := hxf
      have hyf' : (-y).isFinite = true := hyf
      refine sameValue_of_units (isNaN_add hxf' hyf') (isNaN_add hxf hyf) ?_
      rw [units_neg, units_add hxf' hyf', units_add hxf hyf, units_neg, units_neg,
        ← Int.neg_add, units_ofRatio_neg]
    · rw [eq_infinity_negative hyi]
      exact neg_add_infinity (isFinite_of_not hx hxi) _
    · rw [eq_infinity_negative hxi, add_swap, add_swap (infinity _)]
      exact neg_add_infinity (isFinite_of_not hy hyi) _
    · rw [eq_infinity_negative hxi, eq_infinity_negative hyi]
      cases x.negative <;> cases y.negative
      · exact .refl _
      · exact .inl ⟨rfl, rfl⟩
      · exact .inl ⟨rfl, rfl⟩
      · exact .refl _

theorem neg_half (x : Double) : SameValue (-x / 2) (-(x / 2)) := by
  cases hx : x.isNaN with
  | true => exact .inl ⟨(isNaN_half _).trans hx, (isNaN_half x).trans hx⟩
  | false =>
    cases hxi : x.isInfinite with
    | true =>
      rw [eq_infinity_negative hxi, neg_infinity, infinity_div _ isFinite_two units_two_pos,
        infinity_div _ isFinite_two units_two_pos]
      exact .refl _
    | false =>
      have hfinite := isFinite_of_not hx hxi
      have hfinite' : (-x).isFinite = true := hfinite
      refine sameValue_of_units ((isNaN_half _).trans hx) ((isNaN_half x).trans hx) ?_
      rw [units_neg, units_half hfinite', units_half hfinite, units_neg, units_ofRatio_neg]

/-- The mean of two negated numbers, in the other order. -/
theorem neg_mean (x y : Double) : SameValue ((-y + -x) / 2) (-((x + y) / 2)) := by
  rw [add_swap]
  exact (neg_add_neg x y).half.trans (neg_half _)

end Double

end Slowdown
