/-
The median of finite numbers below `2^1023`. At least half of the sample is on either side of it,
its own value counted on both. It is a value of a sample of odd size; for an even size it is the
number nearest to the exact mean of the two middle values.
-/
import Slowdown.Proofs.Baseline.InnerHalf
import Slowdown.Proofs.Double.Scaling

namespace Slowdown

open Double

namespace Sample

/-! ## Counting by ranks -/

section

variable {s : List Double} (ascending : s.Pairwise (· ≤ ·)) (hsm : ∀ v ∈ s, v.IsSmall)
  {i : Nat} {x : Double} (hx : s[i]? = some x)

include ascending hsm hx

/-- The values up to a rank are at most the one there. -/
theorem succ_le_countP {m : Double} (hxm : x ≤ m) : i + 1 ≤ s.countP fun v => v ≤ m := by
  obtain ⟨hi, -⟩ := List.getElem?_eq_some_iff.1 hx
  have hall : (s.take (i + 1)).countP (fun v => v ≤ m) = (s.take (i + 1)).length := by
    rw [List.countP_eq_length]
    intro v hv
    obtain ⟨j, hj, rfl⟩ := List.mem_take_iff_getElem.1 hv
    have hrank : s[j] ≤ x :=
      le_of_rank_le ascending hsm (List.getElem?_eq_getElem (by omega)) hx (by omega)
    exact decide_eq_true (le_trans hrank hxm)
  have hsub := (List.take_sublist (i + 1) s).countP_le (p := fun v => v ≤ m)
  rw [hall, List.length_take] at hsub
  omega

theorem sub_le_countP {m : Double} (hmx : m ≤ x) : s.length - i ≤ s.countP fun v => m ≤ v := by
  have hall : (s.drop i).countP (fun v => m ≤ v) = (s.drop i).length := by
    rw [List.countP_eq_length]
    intro v hv
    obtain ⟨j, hj, rfl⟩ := List.mem_drop_iff_getElem.1 hv
    have hrank : x ≤ s[i + j] :=
      le_of_rank_le ascending hsm hx (List.getElem?_eq_getElem (by omega)) (by omega)
    exact decide_eq_true (le_trans hmx hrank)
  have hsub := (List.drop_sublist i s).countP_le (p := fun v => m ≤ v)
  rwa [hall, List.length_drop] at hsub

end

/-- Half of a sample of small numbers is at most its median, and half is at least that. -/
theorem half_le_countP {values : List Double} {m : Double} (small : ∀ v ∈ values, v.IsSmall)
    (hm : median? values = some m) :
    (values.length + 1) / 2 ≤ values.countP (fun v => v ≤ m) ∧
      (values.length + 1) / 2 ≤ values.countP fun v => m ≤ v := by
  have hsorted := sort_ascending small
  have hsmall := sort_small small
  have hnil : sort values ≠ [] := by
    intro h
    rw [median?, h] at hm
    simp [middle?] at hm
  obtain ⟨m', low, high, hm', hlow, hhigh, hlm, hmh⟩ := middle?_between hsorted hsmall hnil
  obtain rfl := Option.some.inj (hm.symm.trans hm')
  -- all ranks up to the lower middle hold values at most the median, all from the upper on at least
  have hbelow := succ_le_countP hsorted hsmall hlow hlm
  have habove := sub_le_countP hsorted hsmall hhigh hmh
  have hpos := List.length_pos_iff.2 hnil
  rw [(sort_perm values).countP_eq, length_sort] at hbelow habove
  rw [length_sort] at hpos
  omega

/-! ## The median of small numbers -/

/-- What the median `m` is to a sample and to an ascending arrangement `s` of it. -/
structure IsMedian (m : Double) (values s : List Double) : Prop where
  half_below : (values.length + 1) / 2 ≤ values.countP fun v => v ≤ m
  half_above : (values.length + 1) / 2 ≤ values.countP fun v => m ≤ v
  odd : values.length % 2 = 1 → m ∈ values
  even : values.length % 2 = 0 → ∃ low high, s[values.length / 2 - 1]? = some low ∧
    s[values.length / 2]? = some high ∧ low ≤ m ∧ m ≤ high ∧
    m.IsNearest (low.units + high.units) 2

/-- The median of a nonempty sample of small numbers has half of the sample on either side; and for
an even size it lies between the two middle values of any ascending arrangement, where it is the
number nearest to their exact mean, however small, and the even one of two equally near. -/
theorem median_has_middle_rank (values s : List Double) (small : ∀ v ∈ values, v.IsSmall)
    (hne : values ≠ []) (hs : s.Perm values) (ascending : s.Pairwise (· ≤ ·)) :
    ∃ m, median? values = some m ∧ IsMedian m values s := by
  have hpos := List.length_pos_iff.2 hne
  have hlen := length_sort values
  obtain ⟨low, high, hlow, hhigh, hcases⟩ :=
    middle?_eq (s := sort values) (List.length_pos_iff.1 (by omega))
  have hlowS := sort_small small low (mem_of_rank hlow)
  have hhighS := sort_small small high (mem_of_rank hhigh)
  have hle := le_of_rank_le (sort_ascending small) (sort_small small) hlow hhigh (by omega)
  rw [hlen] at hlow hhigh hcases
  rcases hcases with ⟨hodd, -, hm⟩ | ⟨heven, hm⟩
  · obtain ⟨hbelow, habove⟩ := half_le_countP small hm
    exact ⟨high, hm, hbelow, habove, fun _ => mem_sort.1 (mem_of_rank hhigh), fun heven => by omega⟩
  · obtain ⟨hbelow, habove⟩ := half_le_countP small hm
    refine ⟨_, hm, hbelow, habove, fun hodd => by omega, fun _ => ?_⟩
    rw [show (values.length - 1) / 2 = values.length / 2 - 1 by omega] at hlow
    -- the given arrangement has the same values at the two ranks
    have hlen' := hs.length_eq
    obtain ⟨x, hx⟩ := exists_rank (s := s) (i := values.length / 2 - 1) (by omega)
    obtain ⟨y, hy⟩ := exists_rank (s := s) (i := values.length / 2) (by omega)
    obtain ⟨hxl, hlx⟩ := le_of_same_rank small hs ascending hx hlow
    obtain ⟨hyh, hhy⟩ := le_of_same_rank small hs ascending hy hhigh
    obtain ⟨hlm, hmh⟩ := hlowS.mean_between hhighS hle
    have hxu : x.units = low.units := Int.le_antisymm (le_iff.1 hxl).2.2 (le_iff.1 hlx).2.2
    have hyu : y.units = high.units := Int.le_antisymm (le_iff.1 hyh).2.2 (le_iff.1 hhy).2.2
    refine ⟨x, y, hx, hy, le_trans hxl hlm, le_trans hmh hhy, ?_⟩
    rw [hxu, hyu]
    exact mean_isNearest hlowS.1 hhighS.1 (hlowS.isFinite_add hhighS)

/-- The middle values are the two least numbers above zero: their mean is a tie. -/
theorem median_has_middle_rank_tie :
    ∃ m, median? [1000, ⟨false, 1, by decide⟩, -3, ⟨false, 2, by decide⟩] = some m ∧
      m.IsNearest 3 2 := by
  obtain ⟨m, hm, hmedian⟩ := median_has_middle_rank
    [1000, ⟨false, 1, by decide⟩, -3, ⟨false, 2, by decide⟩]
    [-3, ⟨false, 1, by decide⟩, ⟨false, 2, by decide⟩, 1000]
    (by decide +kernel) (by simp) (by decide +kernel) (by decide +kernel)
  obtain ⟨low, high, hlow, hhigh, -, -, hnearest⟩ := hmedian.even rfl
  obtain rfl : ⟨false, 1, by decide⟩ = low := by simpa using hlow
  obtain rfl : ⟨false, 2, by decide⟩ = high := by simpa using hhigh
  exact ⟨m, hm, hnearest⟩

end Sample

end Slowdown
