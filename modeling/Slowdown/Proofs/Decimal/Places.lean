/-
Decimals with a fixed number of places: what is printed of a double is the multiple of the last
place nearest to it, of two equally near ones the even one.
-/
import Slowdown.Decimal.Layout
import Slowdown.Proofs.Decimal.Layout

namespace Slowdown

open Double

/-- The number that a numeral denotes. -/
def Numeral.value (n : Numeral) : ℚ := if n.negative then -n.magnitude else n.magnitude

/-! ## The nearest integer -/

/-- The rounded quotient is at most a half away, and no less only if it is even. -/
theorem roundHalfEven_near {a d : Nat} (hd : 0 < d) :
    |(roundHalfEven a d : ℚ) - a / d| ≤ 1 / 2 ∧
      (|(roundHalfEven a d : ℚ) - a / d| = 1 / 2 → roundHalfEven a d % 2 = 0) := by
  have hup := (roundHalfEven_le_iff (a := a) hd).1 (Nat.le_refl _)
  -- that it is not less by one bounds it from above
  have hdown : 2 * roundHalfEven a d * d < 2 * a + d ∨
      2 * roundHalfEven a d * d = 2 * a + d ∧ roundHalfEven a d % 2 = 0 := by
    rcases Nat.eq_zero_or_pos (roundHalfEven a d) with hzero | hpos
    · rw [hzero]
      omega
    · obtain ⟨k, hk⟩ : ∃ k, roundHalfEven a d = k + 1 := ⟨roundHalfEven a d - 1, by omega⟩
      have hnot : ¬ roundHalfEven a d ≤ k := by omega
      rw [roundHalfEven_le_iff hd] at hnot
      have hsplit : 2 * (k + 1) * d = (2 * k + 1) * d + d := by ring
      rw [hk, hsplit]
      omega
  -- both bounds, divided by the divisor
  generalize roundHalfEven a d = q at *
  have hd : (0 : ℚ) < d := by exact_mod_cast hd
  have hup : (a / d : ℚ) - q < 1 / 2 ∨ (a / d : ℚ) - q = 1 / 2 ∧ q % 2 = 0 := by
    refine hup.imp (fun h => ?_) (fun h => ⟨?_, h.2⟩)
    · have h : (2 * a : ℚ) < (2 * q + 1) * d := by exact_mod_cast h
      rw [sub_lt_iff_lt_add, div_lt_iff₀ hd]
      linarith
    · have h : (2 * a : ℚ) = (2 * q + 1) * d := by exact_mod_cast h.1
      rw [sub_eq_iff_eq_add, div_eq_iff hd.ne']
      linarith
  have hdown : (q : ℚ) - a / d < 1 / 2 ∨ (q : ℚ) - a / d = 1 / 2 ∧ q % 2 = 0 := by
    refine hdown.imp (fun h => ?_) (fun h => ⟨?_, h.2⟩)
    · have h : (2 * q * d : ℚ) < 2 * a + d := by exact_mod_cast h
      rw [sub_lt_comm, lt_div_iff₀ hd]
      linarith
    · have h : (2 * q * d : ℚ) = 2 * a + d := by exact_mod_cast h.1
      rw [sub_eq_iff_eq_add, ← sub_eq_iff_eq_add', eq_div_iff hd.ne']
      linarith
  rcases abs_cases ((q : ℚ) - a / d) with ⟨habs, -⟩ | ⟨habs, -⟩
  · rw [habs]
    exact ⟨hdown.elim le_of_lt fun h => h.1.le,
      fun h => hdown.elim (fun h' => by linarith) And.right⟩
  · rw [habs, neg_sub]
    exact ⟨hup.elim le_of_lt fun h => h.1.le,
      fun h => hup.elim (fun h' => by linarith) And.right⟩

/-- An integer at most a half away is nearest, and another one is as near only if it is a half
away. -/
theorem nearest_of_half {r : ℚ} {q m : Int} (h : |q - r| ≤ 1 / 2) :
    |q - r| ≤ |m - r| ∧ (m ≠ q → |q - r| = |m - r| → |q - r| = 1 / 2) := by
  by_cases hm : m = q
  · exact ⟨hm ▸ le_rfl, fun hne => absurd hm hne⟩
  · have hapart : (1 : ℚ) ≤ |(m : ℚ) - q| := by
      exact_mod_cast Int.one_le_abs (sub_ne_zero.2 hm)
    have htriangle := abs_sub_le (m : ℚ) r q
    rw [abs_sub_comm r] at htriangle
    exact ⟨by linarith, fun _ heq => by linarith⟩

/-! ## Printed places -/

namespace Decimal

/-- A numeral is a double to a number of places: so many digits after the point, the sign of the
double, and no multiple of the last place is nearer to it, nor is another one as near unless the
digits make an even number. -/
structure IsFixed (places : Nat) (x : Double) (n : Numeral) : Prop where
  written : n.IsWritten
  length_fraction : n.fraction.length = places
  exponent : n.exponent = none
  sign : n.negative = x.negative
  nearest : ∀ m : Int, |n.value - x.toRat| ≤ |m / 10 ^ places - x.toRat|
  even_of_tie : ∀ m : Int, |n.value - x.toRat| = |m / 10 ^ places - x.toRat| →
    m / 10 ^ places ≠ n.value → n.significand % 2 = 0

section

variable (places : Nat) (x : Double)

theorem significand_fixedNumeral : (fixedNumeral places x).significand =
    roundHalfEven (unitsOfCode x.code * tenTo places) unitsPerOne := by
  unfold fixedNumeral Numeral.significand
  dsimp only
  rw [List.take_append_drop, Digit.value_append, Digit.value_replicate_zero, Digit.value_ofNat,
    Nat.zero_mul, Nat.zero_add]

theorem length_fraction_fixedNumeral : (fixedNumeral places x).fraction.length = places := by
  unfold fixedNumeral
  dsimp only
  rw [List.length_drop, List.length_append, List.length_replicate]
  omega

theorem isWhole_fixedNumeral : Digit.IsWhole (fixedNumeral places x).whole := by
  unfold fixedNumeral
  dsimp only
  obtain ⟨d, more, hdigits, hd⟩ := Digit.isWhole_ofNat
    (roundHalfEven (unitsOfCode x.code * tenTo places) unitsPerOne)
  rw [hdigits]
  rcases Nat.lt_or_ge places (d :: more).length with hmany | hfew
  · -- enough digits: those in front of the places
    obtain ⟨k, hk⟩ : ∃ k, (d :: more).length - places = k + 1 :=
      ⟨(d :: more).length - places - 1, by omega⟩
    rw [show places + 1 - (d :: more).length = 0 by omega, List.replicate_zero, List.nil_append,
      hk, List.take_succ_cons]
    exact ⟨d, _, rfl, fun hzero => by rw [hd hzero, List.take_nil]⟩
  · -- too few: a lone zero
    obtain ⟨k, hk⟩ : ∃ k, places + 1 - (d :: more).length = k + 1 :=
      ⟨places - (d :: more).length, by omega⟩
    have hsplit : (List.replicate (k + 1) Digit.zero ++ d :: more).length - places = 1 := by
      rw [List.length_append, List.length_replicate]
      omega
    rw [hk, hsplit, List.replicate_succ, List.cons_append, List.take_succ_cons, List.take_zero]
    exact Digit.isWhole_zero

theorem magnitude_fixedNumeral : (fixedNumeral places x).magnitude =
    roundHalfEven (unitsOfCode x.code * tenTo places) unitsPerOne / 10 ^ places := by
  have hscale : (fixedNumeral places x).scale = -places := by
    rw [Numeral.scale, length_fraction_fixedNumeral]
    exact zero_sub _
  rw [Numeral.magnitude, significand_fixedNumeral, hscale, zpow_neg, zpow_natCast, div_eq_mul_inv]

/-- In units of the last place the numeral is as far from the double as the rounded quotient is
from the exact one. -/
theorem distance_fixedNumeral :
    ∃ q : Int, (fixedNumeral places x).value = q / 10 ^ places ∧
      |q - x.toRat * 10 ^ places| ≤ 1 / 2 ∧
      (|q - x.toRat * 10 ^ places| = 1 / 2 → (fixedNumeral places x).significand % 2 = 0) := by
  have hnear := roundHalfEven_near (a := unitsOfCode x.code * tenTo places) unitsPerOne_pos
  have hmagnitude := magnitude_fixedNumeral places x
  rw [significand_fixedNumeral]
  generalize roundHalfEven (unitsOfCode x.code * tenTo places) unitsPerOne = q at *
  have hexact : ((unitsOfCode x.code * tenTo places : Nat) / unitsPerOne : ℚ) =
      unitsOfCode x.code / unitsPerOne * 10 ^ places := by
    push_cast [cast_tenTo]
    exact mul_div_right_comm _ _ _
  have hsign : (fixedNumeral places x).negative = x.negative := rfl
  rw [hexact] at hnear
  unfold Numeral.value toRat units
  rw [hsign, hmagnitude]
  -- a sign turns both numbers round and leaves their distance
  cases x.negative with
  | true =>
    refine ⟨-q, ?_, ?_⟩
    · rw [if_pos rfl]
      push_cast
      ring
    · rw [if_pos rfl]
      push_cast
      rw [neg_div, neg_mul, sub_neg_eq_add, neg_add_eq_sub, abs_sub_comm]
      exact hnear
  | false =>
    refine ⟨q, ?_, ?_⟩
    · rw [if_neg Bool.false_ne_true, Int.cast_natCast]
    · rw [if_neg Bool.false_ne_true, Int.cast_natCast, Int.cast_natCast]
      exact hnear

end

theorem isFixed_fixedNumeral (places : Nat) (x : Double) :
    IsFixed places x (fixedNumeral places x) := by
  obtain ⟨q, hvalue, hhalf, heven⟩ := distance_fixedNumeral places x
  have hplaces : (0 : ℚ) < 10 ^ places := by positivity
  have hdistance : ∀ m : Int,
      |m / 10 ^ places - x.toRat| = |m - x.toRat * 10 ^ places| / 10 ^ places := by
    intro m
    rw [← abs_of_pos hplaces, ← abs_div, abs_of_pos hplaces]
    congr 1
    field_simp
  refine ⟨⟨isWhole_fixedNumeral places x, nofun⟩, length_fraction_fixedNumeral places x, rfl, rfl,
    fun m => ?_, fun m heq hne => ?_⟩
  · rw [hvalue, hdistance, hdistance]
    exact div_le_div_of_nonneg_right (nearest_of_half hhalf).1 hplaces.le
  · rw [hvalue] at heq hne
    rw [hdistance, hdistance, div_left_inj' hplaces.ne'] at heq
    exact heven ((nearest_of_half hhalf).2 (fun h => hne (by rw [h])) heq)

/-- What is printed of a finite double is the double to so many places. -/
theorem isFixed_fixed (places : Nat) {x : Double} (hx : x.isFinite = true) :
    ∃ n, fixed places x = String.ofList (n.text false) ∧ IsFixed places x n :=
  ⟨fixedNumeral places x, if_pos hx, isFixed_fixedNumeral places x⟩

end Decimal

end Slowdown
