/-
The doubles that JSON numerals are read as: finite ones for numerals in range, and the nearest for
those read as integers.
-/
import Slowdown.Json.Number
import Slowdown.Proofs.Double.Arith
import Slowdown.Proofs.Double.Nearest

namespace Slowdown

open Double

/-! ## Whole numbers -/

/-- The whole number that a numeral without fraction and exponent denotes. -/
def Numeral.whole? (n : Numeral) : Option Int :=
  if n.fraction = [] ∧ n.exponent = none then
    some (if n.negative then -(Digit.value n.whole : Int) else Digit.value n.whole)
  else none

namespace Json

namespace Number

theorem absorb_lt {significand : Nat} {digits : List Digit} (h : significand < significandLimit) :
    (absorb significand digits).1 < significandLimit := by
  induction digits generalizing significand with
  | nil => exact h
  | cons d rest ih =>
    unfold absorb
    split
    · rename_i hfits
      exact ih hfits
    · exact h

/-- What fits is taken whole. -/
theorem absorb_eq {significand : Nat} {digits : List Digit}
    (h : digits.foldl (fun n d => 10 * n + d.val) significand < significandLimit) :
    absorb significand digits = (digits.foldl (fun n d => 10 * n + d.val) significand, []) := by
  induction digits generalizing significand with
  | nil => rfl
  | cons d rest ih =>
    have grows : ∀ (ds : List Digit) (m : Nat), m ≤ ds.foldl (fun n d => 10 * n + d.val) m := by
      intro ds
      induction ds with
      | nil => exact fun m => Nat.le_refl m
      | cons d ds ih => exact fun m => Nat.le_trans (by omega) (ih (10 * m + d.val))
    rw [List.foldl_cons] at h ⊢
    rw [absorb, if_pos (Nat.lt_of_le_of_lt (grows rest _) h), ih h]

/-- If all digits are taken, they are taken whole. -/
theorem eq_of_absorb {significand taken : Nat} {digits : List Digit}
    (h : absorb significand digits = (taken, [])) :
    taken = digits.foldl (fun n d => 10 * n + d.val) significand := by
  induction digits generalizing significand with
  | nil =>
    cases h
    rfl
  | cons d rest ih =>
    unfold absorb at h
    split at h
    · exact ih h
    · cases h

/-- The numerals that are read as integers: whole ones of 64 bits, with their sign if they have
one, and not `-0`. -/
theorem ofNumeral_eq_whole_iff {n : Numeral} {k : Int} :
    ofNumeral n = .whole k ↔
      n.whole? = some k ∧ -(2 ^ 63) ≤ k ∧ k < 2 ^ 64 ∧ (n.negative = true → k ≠ 0) := by
  have hlimit : significandLimit = 2 ^ 64 := by decide
  constructor
  · intro h
    obtain ⟨taken, dropped, habsorb⟩ : ∃ taken dropped, absorb 0 n.whole = (taken, dropped) :=
      ⟨_, _, rfl⟩
    have hlt : (absorb 0 n.whole).1 < significandLimit := absorb_lt (by decide)
    rw [habsorb] at hlt
    unfold ofNumeral at h
    simp only [habsorb] at h
    -- an integer is made in two branches, the signed one within half the limit
    split_ifs at h with hplain hneg hbig <;> cases h
    all_goals
      obtain ⟨hfraction, hexponent, rfl⟩ := hplain
      have hvalue : taken = Digit.value n.whole := eq_of_absorb habsorb
      unfold Numeral.whole?
      rw [if_pos ⟨hfraction, hexponent⟩, ← hvalue]
    · exact ⟨by rw [if_pos hneg], by omega, by omega, fun _ => by omega⟩
    · exact ⟨by rw [if_neg hneg], by omega, by omega, fun hn => absurd hn hneg⟩
  · rintro ⟨hn, hlow, hhigh, hzero⟩
    unfold Numeral.whole? at hn
    split_ifs at hn with hplain hneg
    all_goals
      cases hn
      -- a value below the limit has all its digits taken
      have hvalue : Digit.value n.whole < significandLimit := by omega
      have hall : absorb 0 n.whole = (Digit.value n.whole, []) := absorb_eq hvalue
      unfold ofNumeral
      rw [hall]
      dsimp only
      rw [if_pos ⟨hplain.1, hplain.2, rfl⟩]
    · have := hzero hneg
      rw [if_pos hneg, if_neg (by omega)]
    · rw [if_neg hneg]

/-! ## Doubles of whole numbers -/

theorem ofInt_eq (k : Int) : Double.ofInt k = ofRatio (k * unitsPerOne) 1 := by
  have hpos := unitsPerOne_pos
  unfold Double.ofInt ofRatio
  rw [Int.natAbs_mul, Int.natAbs_natCast]
  congr 1
  rw [decide_eq_decide, Int.mul_neg_iff]
  omega

/-- Significands are far from the end of the finite range. -/
theorem significandLimit_le : 2 * significandLimit ≤ 2 ^ 1024 - 2 ^ 970 := by
  have hlimit : 2 * significandLimit = 2 ^ 65 := by decide
  have hless : 2 ^ 65 ≤ 2 ^ 970 := by gcongr <;> decide
  have hsplit : 2 ^ 1024 = 2 ^ 54 * 2 ^ 970 := by rw [← pow_add]
  rw [hlimit, hsplit]
  generalize 2 ^ 970 = less at *
  omega

theorem isFinite_ofInt {k : Int} (h : k.natAbs < significandLimit) :
    (Double.ofInt k).isFinite = true := by
  rw [ofInt_eq, isFinite_ofRatio, Int.natAbs_mul, Int.natAbs_natCast, overflowUnits]
  have hlimit := significandLimit_le
  exact Nat.mul_lt_mul_of_pos_right (by omega) unitsPerOne_pos

/-- A whole number of 64 bits becomes the nearest double. -/
theorem ofInt_isNearest {k : Int} (h : k.natAbs < significandLimit) :
    (Double.ofInt k).IsNearest (k * unitsPerOne) 1 := by
  have hfinite := isFinite_ofInt h
  rw [ofInt_eq] at hfinite ⊢
  exact ofRatio_isNearest Nat.one_pos hfinite

/-! ## Doubles of numerals -/

/-- A numeral in range has a finite value. -/
theorem isFinite_toDouble {n : Numeral} (h : (ofNumeral n).isFinite = true) :
    (ofNumeral n).toDouble.isFinite = true := by
  cases hn : ofNumeral n with
  | real x =>
    rw [hn] at h
    exact h
  | whole k =>
    obtain ⟨-, hlow, hhigh, -⟩ := ofNumeral_eq_whole_iff.1 hn
    have hlimit : significandLimit = 2 ^ 64 := by decide
    exact isFinite_ofInt (by omega)

/-- What is read as an integer is the integer written, and becomes the nearest double. -/
theorem isNearest_of_whole {n : Numeral} {k : Int} (h : ofNumeral n = .whole k) :
    n.whole? = some k ∧ (ofNumeral n).toDouble.IsNearest (k * unitsPerOne) 1 := by
  obtain ⟨hn, hlow, hhigh, -⟩ := ofNumeral_eq_whole_iff.1 h
  have hlimit : significandLimit = 2 ^ 64 := by decide
  rw [h]
  exact ⟨hn, ofInt_isNearest (by omega)⟩

end Number

end Json

end Slowdown
