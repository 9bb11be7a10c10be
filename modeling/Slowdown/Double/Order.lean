/-
The two orders of binary64 numbers: the numeric comparisons, which hold of no pair with a
not-a-number in it and take both zeros for equal, and the total order used for sorting, which
tells every two layouts apart.
-/
import Slowdown.Double.Basic

namespace Slowdown

namespace Double

/-! ## Numeric comparisons -/

/-- Orders the numbers that are not NaN by value. -/
def key (x : Double) : Int := if x.negative then -(x.code : Int) else x.code

/-- Less in value; what is not a number is neither less nor greater, and the zeros are equal. -/
protected def lt (x y : Double) : Prop := ¬ x.isNaN ∧ ¬ y.isNaN ∧ x.key < y.key

/-- At most in value; what is not a number is not even at most itself. -/
protected def le (x y : Double) : Prop := ¬ x.isNaN ∧ ¬ y.isNaN ∧ x.key ≤ y.key

instance : LT Double := ⟨Double.lt⟩
instance : LE Double := ⟨Double.le⟩

instance (x y : Double) : Decidable (x < y) := inferInstanceAs (Decidable (_ ∧ _ ∧ _))
instance (x y : Double) : Decidable (x ≤ y) := inferInstanceAs (Decidable (_ ∧ _ ∧ _))

/-! ## The total order -/

/-- Orders all layouts: negative ones by falling code, then the others by rising code. -/
def rank (x : Double) : Int := if x.negative then -(x.code : Int) - 1 else x.code

theorem rank_inj {x y : Double} (h : x.rank = y.rank) : x = y := by
  obtain ⟨sx, cx, hx⟩ := x
  obtain ⟨sy, cy, hy⟩ := y
  have same : sx = sy ∧ cx = cy := by
    cases sx <;> cases sy <;> simp [rank] at h ⊢ <;> omega
  obtain ⟨rfl, rfl⟩ := same
  rfl

/-- A list in the total order. -/
def sort (xs : List Double) : List Double :=
  xs.mergeSort fun x y => decide (x.rank ≤ y.rank)

end Double

end Slowdown
