/-
The exact values of binary64 numbers: magnitudes grow strictly with the code, so the numeric
comparisons of numbers that are not NaN compare exact values, and the total order refines them.
-/
import Slowdown.Double.Arith
import Slowdown.Double.Order
import Mathlib.Order.Monotone.Basic
import Mathlib.Tactic

namespace Slowdown

namespace Double

/-! ## Magnitudes of codes -/

theorem binade_eq : binade = 2 ^ 52 := by decide

/-- Within one exponent, and up to the first code of the next, codes are multiples of one unit. -/
theorem unitsOfCode_shifted {s r : Nat} (hr : r ≤ 2 * binade) (hs : s = 0 ∨ binade ≤ r) :
    unitsOfCode (s * binade + r) = r * 2 ^ s := by
  unfold unitsOfCode
  split
  · -- a code this small has the least exponent
    rename_i hlt
    obtain rfl : s = 0 := by
      rcases hs with hs | hs
      · exact hs
      · by_contra h
        have := Nat.mul_le_mul_right binade (show 1 ≤ s by omega)
        omega
    simp
  · rename_i hge
    rw [Nat.shiftLeft_eq]
    simp only [binade] at *
    rcases Nat.lt_or_ge r (2 * 0x10000000000000) with h | h
    · have hdiv : (s * 0x10000000000000 + r) / 0x10000000000000 - 1 = s := by omega
      have hmod : 0x10000000000000 + (s * 0x10000000000000 + r) % 0x10000000000000 = r := by omega
      rw [hdiv, hmod]
    · -- the first code of the next exponent
      obtain rfl : r = 2 * 0x10000000000000 := by omega
      have hdiv : (s * 0x10000000000000 + 2 * 0x10000000000000) / 0x10000000000000 - 1 = s + 1 := by
        omega
      have hmod : (s * 0x10000000000000 + 2 * 0x10000000000000) % 0x10000000000000 = 0 := by omega
      rw [hdiv, hmod, Nat.pow_succ]
      ring

/-- Codes up to the second exponent are the units themselves. -/
theorem unitsOfCode_of_le {c : Nat} (h : c ≤ 2 * binade) : unitsOfCode c = c := by
  simpa using unitsOfCode_shifted (s := 0) h (.inl rfl)

/-- Above the least exponent a code is an exponent and a significand of 53 bits. -/
theorem exists_exponent {c : Nat} (h : binade ≤ c) :
    ∃ s r, c = s * binade + r ∧ binade ≤ r ∧ r < 2 * binade := by
  refine ⟨c / binade - 1, c - (c / binade - 1) * binade, ?_, ?_, ?_⟩ <;>
    simp only [binade] at * <;> omega

/-- The next code lies one unit of its exponent higher. -/
theorem unitsOfCode_succ (c : Nat) :
    unitsOfCode (c + 1) = unitsOfCode c + 2 ^ (c / binade - 1) := by
  rcases Nat.lt_or_ge c binade with h | h
  · rw [unitsOfCode_of_le (by omega), unitsOfCode_of_le (by omega), Nat.div_eq_of_lt h]
    rfl
  · obtain ⟨s, r, rfl, hr1, hr2⟩ := exists_exponent h
    have hdiv : (s * binade + r) / binade - 1 = s := by simp only [binade] at *; omega
    rw [Nat.add_assoc, unitsOfCode_shifted (by omega) (.inr (by omega)),
      unitsOfCode_shifted (by omega) (.inr hr1), hdiv]
    ring

theorem unitsOfCode_strictMono : StrictMono unitsOfCode :=
  strictMono_nat_of_lt_succ fun c => by
    rw [unitsOfCode_succ]
    exact Nat.lt_add_of_pos_right (Nat.two_pow_pos _)

@[simp] theorem unitsOfCode_zero : unitsOfCode 0 = 0 := by simp [unitsOfCode, binade]

theorem unitsOfCode_le {c d : Nat} : unitsOfCode c ≤ unitsOfCode d ↔ c ≤ d :=
  unitsOfCode_strictMono.le_iff_le

theorem unitsOfCode_eq_zero {c : Nat} : unitsOfCode c = 0 ↔ c = 0 := by
  have h := unitsOfCode_strictMono.injective.eq_iff (a := c) (b := 0)
  rwa [unitsOfCode_zero] at h

/-! ## Classes of values -/

theorem isNaN_eq_false {x : Double} : x.isNaN = false ↔ x.code ≤ infinityCode := by
  simp [isNaN]

theorem isFinite_iff {x : Double} : x.isFinite = true ↔ x.code < infinityCode := by
  simp [isFinite]

theorem isNaN_of_isFinite {x : Double} (h : x.isFinite = true) : x.isNaN = false := by
  rw [isNaN_eq_false]; rw [isFinite_iff] at h; omega

theorem isInfinite_of_isFinite {x : Double} (h : x.isFinite = true) : x.isInfinite = false := by
  rw [isFinite_iff] at h; simp [isInfinite]; omega

/-- A number is finite, an infinity, or not a number. -/
theorem isFinite_of_not {x : Double} (hn : x.isNaN = false) (hi : x.isInfinite = false) :
    x.isFinite = true := by
  rw [isNaN_eq_false] at hn
  simp only [isInfinite, decide_eq_false_iff_not] at hi
  rw [isFinite_iff]; omega

theorem isInfinite_of_not {x : Double} (hn : x.isNaN = false) (hf : x.isFinite = false) :
    x.isInfinite = true := by
  by_contra hi
  rw [isFinite_of_not hn (Bool.eq_false_of_not_eq_true hi)] at hf
  cases hf

theorem natAbs_units (x : Double) : x.units.natAbs = unitsOfCode x.code := by
  unfold units; split <;> simp

theorem code_eq_of_units {x y : Double} (h : x.units = y.units) : x.code = y.code := by
  apply unitsOfCode_strictMono.injective
  rw [← natAbs_units, ← natAbs_units, h]

theorem units_neg (x : Double) : (-x).units = -x.units := by
  show (neg x).units = _
  unfold neg units
  cases x.negative <;> simp

theorem isFinite_neg (x : Double) : (-x).isFinite = x.isFinite := rfl

theorem units_eq_zero {x : Double} : x.units = 0 ↔ x.isZero = true := by
  rw [← Int.natAbs_eq_zero, natAbs_units, unitsOfCode_eq_zero]
  simp only [isZero, decide_eq_true_eq]

/-! ## Numeric comparisons -/

theorem key_le_key {x y : Double} : x.key ≤ y.key ↔ x.units ≤ y.units := by
  have hxy := unitsOfCode_le (c := x.code) (d := y.code)
  have hyx := unitsOfCode_le (c := y.code) (d := x.code)
  have hx := unitsOfCode_eq_zero (c := x.code)
  have hy := unitsOfCode_eq_zero (c := y.code)
  unfold key units
  split <;> split <;> omega

theorem key_lt_key {x y : Double} : x.key < y.key ↔ x.units < y.units := by
  rw [← Int.not_le, ← Int.not_le, key_le_key]

theorem le_iff {x y : Double} :
    x ≤ y ↔ x.isNaN = false ∧ y.isNaN = false ∧ x.units ≤ y.units := by
  show Double.le x y ↔ _
  unfold Double.le
  rw [key_le_key, Bool.not_eq_true, Bool.not_eq_true]

theorem lt_iff {x y : Double} :
    x < y ↔ x.isNaN = false ∧ y.isNaN = false ∧ x.units < y.units := by
  show Double.lt x y ↔ _
  unfold Double.lt
  rw [key_lt_key, Bool.not_eq_true, Bool.not_eq_true]

theorem le_self {x : Double} (h : x.isNaN = false) : x ≤ x := le_iff.2 ⟨h, h, Int.le_refl _⟩

theorem le_trans {x y z : Double} (h : x ≤ y) (h' : y ≤ z) : x ≤ z := by
  rw [le_iff] at *
  exact ⟨h.1, h'.2.1, Int.le_trans h.2.2 h'.2.2⟩

theorem lt_of_lt_of_le {x y z : Double} (h : x < y) (h' : y ≤ z) : x < z := by
  rw [le_iff] at h'
  rw [lt_iff] at *
  exact ⟨h.1, h'.2.1, Int.lt_of_lt_of_le h.2.2 h'.2.2⟩

theorem lt_of_le_of_lt {x y z : Double} (h : x ≤ y) (h' : y < z) : x < z := by
  rw [le_iff] at h
  rw [lt_iff] at *
  exact ⟨h.1, h'.2.1, Int.lt_of_le_of_lt h.2.2 h'.2.2⟩

/-! ## The sorted list -/

theorem sort_perm (xs : List Double) : (sort xs).Perm xs := List.mergeSort_perm _ _

theorem mem_sort {xs : List Double} {x : Double} : x ∈ sort xs ↔ x ∈ xs := (sort_perm xs).mem_iff

@[simp] theorem length_sort (xs : List Double) : (sort xs).length = xs.length :=
  (sort_perm xs).length_eq

theorem sort_pairwise_rank (xs : List Double) : (sort xs).Pairwise fun x y => x.rank ≤ y.rank := by
  have trans : ∀ a b c : Double, decide (a.rank ≤ b.rank) = true →
      decide (b.rank ≤ c.rank) = true → decide (a.rank ≤ c.rank) = true := by
    intro a b c hab hbc
    rw [decide_eq_true_eq] at *
    exact Int.le_trans hab hbc
  have total : ∀ a b : Double, (decide (a.rank ≤ b.rank) || decide (b.rank ≤ a.rank)) = true := by
    intro a b
    rw [Bool.or_eq_true, decide_eq_true_eq, decide_eq_true_eq]
    exact Int.le_total a.rank b.rank
  exact (List.pairwise_mergeSort trans total xs).imp fun hab => of_decide_eq_true hab

/-- Numbers in the total order are in the numeric order. -/
theorem units_le_of_rank_le {x y : Double} (h : x.rank ≤ y.rank) : x.units ≤ y.units := by
  -- the two orders differ in that the rank puts negative zero below zero
  rw [← key_le_key]
  unfold rank at h
  unfold key
  cases hx : x.negative <;> cases hy : y.negative <;> simp only [hx, hy] at h ⊢ <;>
    simp at h ⊢ <;> omega

/-- Without NaN the sorted list is in ascending numeric order. -/
theorem sort_pairwise_le {xs : List Double} (h : ∀ x ∈ xs, x.isNaN = false) :
    (sort xs).Pairwise (· ≤ ·) := by
  refine (sort_pairwise_rank xs).imp_of_mem fun ha hb hab => ?_
  rw [le_iff]
  exact ⟨h _ (mem_sort.1 ha), h _ (mem_sort.1 hb), units_le_of_rank_le hab⟩

/-- The total order admits one arrangement of a list. -/
theorem eq_of_perm_of_pairwise_rank {xs ys : List Double} (h : xs.Perm ys)
    (hx : xs.Pairwise fun x y => x.rank ≤ y.rank) (hy : ys.Pairwise fun x y => x.rank ≤ y.rank) :
    xs = ys :=
  h.eq_of_pairwise (fun _ _ _ _ hab hba => rank_inj (Int.le_antisymm hab hba)) hx hy

@[simp] theorem sort_nil : sort [] = [] := List.length_eq_zero_iff.1 (length_sort [])

/-- What is in the total order is its own sorted list. -/
theorem sort_eq_self {xs : List Double} (h : xs.Pairwise fun x y => x.rank ≤ y.rank) :
    sort xs = xs :=
  eq_of_perm_of_pairwise_rank (sort_perm xs) (sort_pairwise_rank xs) h

/-- A sorted list does not tell in which order the values came. -/
theorem sort_eq_of_perm {xs ys : List Double} (h : ys.Perm xs) : sort ys = sort xs :=
  eq_of_perm_of_pairwise_rank ((sort_perm ys).trans (h.trans (sort_perm xs).symm))
    (sort_pairwise_rank ys) (sort_pairwise_rank xs)

/-- Dropping values and sorting can be exchanged. -/
theorem sort_filter (p : Double → Bool) (xs : List Double) :
    sort (xs.filter p) = (sort xs).filter p :=
  eq_of_perm_of_pairwise_rank ((sort_perm _).trans ((sort_perm xs).filter p).symm)
    (sort_pairwise_rank _) ((sort_pairwise_rank xs).filter p)

end Double

end Slowdown
