/-
Rounding gives the nearest finite number and, of two equally near ones, the one with the even
code.
-/
import Slowdown.Proofs.Double.Rounding

namespace Slowdown

namespace Double

/-- Finite, and no finite number is nearer to `n / d` units; nor is another one equally near, unless
the code is even. -/
structure IsNearest (x : Double) (n : Int) (d : Nat) : Prop where
  finite : x.isFinite = true
  nearest : ∀ y : Double, y.isFinite = true →
    (n - x.units * d).natAbs ≤ (n - y.units * d).natAbs
  even_of_tie : ∀ y : Double, y.isFinite = true → y.units ≠ x.units →
    (n - y.units * d).natAbs = (n - x.units * d).natAbs → x.code % 2 = 0

/-! ## Codes -/

/-- How far a code is from a quotient, in units of its divisor. -/
def distance (a d c : Nat) : Nat := (a - unitsOfCode c * d) + (unitsOfCode c * d - a)

/-- Every code other than the rounded one is farther from the quotient, or as far if the rounded
one is even. -/
theorem distance_nearestCode {a d c : Nat} (hd : 0 < d) (hfinite : nearestCode a d < infinityCode)
    (hc : c ≠ nearestCode a d) :
    distance a d (nearestCode a d) < distance a d c ∨
      distance a d (nearestCode a d) = distance a d c ∧ nearestCode a d % 2 = 0 := by
  unfold distance
  have hmid := nearestCode_le_iff (a := a) (d := d) hd hfinite
  generalize hk : nearestCode a d = k at *
  rcases Nat.lt_or_gt_of_ne hc with hlt | hgt
  · -- the quotient is not below the midpoint with the lower neighbour
    obtain ⟨b, rfl⟩ : ∃ b, k = b + 1 := ⟨k - 1, by omega⟩
    have hlow := nearestCode_le_iff (a := a) (d := d) (c := b) hd (by omega)
    have hcb : unitsOfCode c * d ≤ unitsOfCode b * d :=
      Nat.mul_le_mul_right d (unitsOfCode_le.2 (by omega))
    have hbk : unitsOfCode b * d < unitsOfCode (b + 1) * d :=
      Nat.mul_lt_mul_of_pos_right (unitsOfCode_strictMono (Nat.lt_succ_self b)) hd
    rw [hk, Nat.add_mul] at hlow
    omega
  · -- nor above the midpoint with the higher one
    have hsc : unitsOfCode (k + 1) * d ≤ unitsOfCode c * d :=
      Nat.mul_le_mul_right d (unitsOfCode_le.2 hgt)
    have hks : unitsOfCode k * d < unitsOfCode (k + 1) * d :=
      Nat.mul_lt_mul_of_pos_right (unitsOfCode_strictMono (Nat.lt_succ_self k)) hd
    rw [Nat.add_mul] at hmid
    omega

/-! ## Quotients with a sign -/

theorem units_mul_eq (y : Double) (d : Nat) :
    y.units * d = if y.negative then -((unitsOfCode y.code * d : Nat) : Int)
      else (unitsOfCode y.code * d : Nat) := by
  unfold units
  split <;> push_cast <;> ring

/-- On the side of a quotient a number is as far as its code, on the other side not nearer. -/
theorem distance_le (n : Int) (d : Nat) (y : Double) :
    distance n.natAbs d y.code ≤ (n - y.units * d).natAbs := by
  rw [units_mul_eq]
  unfold distance
  split <;> omega

theorem distance_ofRatio (n : Int) (d : Nat) :
    (n - (ofRatio n d).units * d).natAbs = distance n.natAbs d (nearestCode n.natAbs d) := by
  rw [units_mul_eq]
  unfold distance ofRatio round
  dsimp only
  simp only [decide_eq_true_eq]
  split <;> omega

/-- A number with the code of a rounding but another value is farther away. -/
theorem distance_lt_of_sign {n : Int} {d : Nat} {y : Double} (hd : 0 < d)
    (hcode : y.code = nearestCode n.natAbs d) (hne : y.units ≠ (ofRatio n d).units) :
    distance n.natAbs d y.code < (n - y.units * d).natAbs := by
  have hcode0 : 0 < unitsOfCode y.code := by
    by_contra h0
    have hz : unitsOfCode (nearestCode n.natAbs d) = 0 := by rw [← hcode]; omega
    rw [ofRatio, units_round, hz] at hne
    unfold units at hne
    rw [hcode, hz] at hne
    simp at hne
  have hn0 : n ≠ 0 := by
    rintro rfl
    rw [hcode, Int.natAbs_zero, nearestCode_zero, unitsOfCode_zero] at hcode0
    exact Nat.lt_irrefl 0 hcode0
  -- the same magnitude and not the same number: the signs differ
  have hsign : y.negative ≠ decide (n < 0) := by
    intro hs
    apply hne
    unfold units ofRatio round
    rw [hcode, hs]
  have hpos : 0 < unitsOfCode y.code * d := Nat.mul_pos hcode0 hd
  rw [units_mul_eq]
  unfold distance
  cases hy : y.negative
  · have hneg : n < 0 := by
      by_contra h
      exact hsign (by rw [hy, decide_eq_false h])
    rw [if_neg Bool.false_ne_true]
    omega
  · have hnonneg : ¬ n < 0 := fun h => hsign (by rw [hy, decide_eq_true h])
    rw [if_pos rfl]
    omega

/-- A finite rounding is the nearest number. -/
theorem ofRatio_isNearest {n : Int} {d : Nat} (hd : 0 < d)
    (hfinite : (ofRatio n d).isFinite = true) : IsNearest (ofRatio n d) n d := by
  have hcode : nearestCode n.natAbs d < infinityCode := isFinite_iff.1 hfinite
  refine ⟨hfinite, fun y _ => ?_, fun y _ hne htie => ?_⟩
  · rw [distance_ofRatio]
    refine Nat.le_trans ?_ (distance_le n d y)
    -- a number with the rounded code can only differ by its sign
    by_cases hy : y.code = nearestCode n.natAbs d
    · rw [hy]
    · rcases distance_nearestCode hd hcode hy with h | ⟨h, -⟩ <;> omega
  · rw [distance_ofRatio] at htie
    by_cases hy : y.code = nearestCode n.natAbs d
    · have hlt := distance_lt_of_sign hd hy hne
      rw [htie, hy] at hlt
      exact absurd hlt (Nat.lt_irrefl _)
    · have hle := distance_le n d y
      rcases distance_nearestCode hd hcode hy with h | ⟨-, h⟩
      · omega
      · exact h

end Double

end Slowdown
