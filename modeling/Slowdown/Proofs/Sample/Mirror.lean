/-
Samples with every value negated, whatever doubles they are. Sorting reverses them, and so the two
halves, the quartiles and the fences change places and sign, and the outliers at either end are
those at the other.
-/
import Slowdown.Proofs.Double.Mirror
import Slowdown.Proofs.Sample.Ranks

namespace Slowdown

open Double

/-! ## Sorting -/

theorem Double.rank_neg (x : Double) : (-x).rank = -1 - x.rank := by
  show (neg x).rank = _
  unfold neg rank
  cases x.negative <;> simp <;> omega

/-- The total order of the negated values is the opposite one, for NaN and zeros too. -/
theorem Double.sort_map_neg (values : List Double) :
    sort (values.map (-·)) = ((sort values).map (-·)).reverse := by
  refine eq_of_perm_of_pairwise_rank ?_ (sort_pairwise_rank _) ?_
  · exact (sort_perm _).trans (((sort_perm values).map _).symm.trans (List.reverse_perm _).symm)
  · rw [List.pairwise_reverse, List.pairwise_map]
    refine (sort_pairwise_rank values).imp fun h => ?_
    rw [rank_neg, rank_neg]
    omega

namespace Sample

/-! ## The middle -/

theorem middle?_reverse_neg (s : List Double) :
    Option.Rel SameValue (middle? (s.map (-·)).reverse) ((middle? s).map (-·)) := by
  by_cases hne : s = []
  · subst hne
    exact .none
  · have hpos := List.length_pos_iff.2 hne
    have hlen : (s.map (-·)).reverse.length = s.length := by simp
    obtain ⟨low, high, hlow, hhigh, hcases⟩ := middle?_eq hne
    obtain ⟨low', high', hlow', hhigh', hcases'⟩ := middle?_eq (s := (s.map (-·)).reverse)
      (List.length_pos_iff.1 (by omega))
    rw [hlen] at hlow' hhigh' hcases'
    rw [List.getElem?_reverse (by simp; omega), List.length_map, List.getElem?_map] at hlow' hhigh'
    -- the middle ranks change places
    rw [show s.length - 1 - (s.length - 1) / 2 = s.length / 2 by omega, hhigh] at hlow'
    rw [show s.length - 1 - s.length / 2 = (s.length - 1) / 2 by omega, hlow] at hhigh'
    obtain rfl : -high = low' := Option.some.inj hlow'
    obtain rfl : -low = high' := Option.some.inj hhigh'
    rcases hcases with ⟨hodd, rfl, hm⟩ | ⟨heven, hm⟩
    · rcases hcases' with ⟨-, -, hm'⟩ | ⟨heven, -⟩
      · rw [hm, hm']
        exact .some (.refl _)
      · omega
    · rcases hcases' with ⟨hodd, -⟩ | ⟨-, hm'⟩
      · omega
      · rw [hm, hm']
        exact .some (neg_mean low high)

theorem median?_neg (values : List Double) :
    Option.Rel SameValue (median? (values.map (-·))) ((median? values).map (-·)) := by
  rw [median?, median?, sort_map_neg]
  exact middle?_reverse_neg _

/-! ## Quartiles and fences -/

/-- Two pairs of numbers of the same values. -/
def SameValues (a b : Double × Double) : Prop := SameValue a.1 b.1 ∧ SameValue a.2 b.2

theorem quartiles?_neg (values : List Double) :
    Option.Rel SameValues (quartiles? (values.map (-·)))
      ((quartiles? values).map fun (first, third) => (-third, -first)) := by
  unfold quartiles?
  rw [List.length_map]
  split_ifs with hfew
  · exact .none
  · dsimp only
    have hlen := length_sort values
    -- the lower half of the negated values is the upper half negated, and the other way round
    have hlower : (sort (values.map (-·))).take (values.length / 2) =
        (((sort values).drop ((values.length + 1) / 2)).map (-·)).reverse := by
      rw [sort_map_neg, List.take_reverse, List.length_map, hlen, List.map_drop]
      congr 2
      omega
    have hupper : (sort (values.map (-·))).drop ((values.length + 1) / 2) =
        (((sort values).take (values.length / 2)).map (-·)).reverse := by
      rw [sort_map_neg, List.drop_reverse, List.length_map, hlen, List.map_take]
      congr 2
      omega
    have hfirst := middle?_reverse_neg ((sort values).drop ((values.length + 1) / 2))
    have hthird := middle?_reverse_neg ((sort values).take (values.length / 2))
    rw [hlower, hupper]
    generalize middle? (((sort values).drop ((values.length + 1) / 2)).map (-·)).reverse = first'
      at hfirst
    generalize middle? (((sort values).take (values.length / 2)).map (-·)).reverse = third'
      at hthird
    generalize middle? ((sort values).drop ((values.length + 1) / 2)) = third at hfirst
    generalize middle? ((sort values).take (values.length / 2)) = first at hthird
    cases first <;> cases third <;> cases hfirst <;> cases hthird
    · exact .none
    · exact .none
    · exact .none
    · exact .some ⟨‹_›, ‹_›⟩

/-- From quartiles that mirror each other come fences that do. -/
theorem fences_neg {first third first' third' : Double} (hfirst : SameValue first' (-third))
    (hthird : SameValue third' (-first)) :
    SameValues (first' - fenceFactor * (third' - first'), third' + fenceFactor * (third' - first'))
      (-(third + fenceFactor * (third - first)), -(first - fenceFactor * (third - first))) := by
  have hrange : SameValue (third' - first') (third - first) := by
    have h := hthird.add hfirst.neg
    rwa [neg_twice, add_swap (-first)] at h
  have hwide := hrange.mul_left isFinite_fenceFactor
  constructor
  · exact (hfirst.add hwide.neg).trans (neg_add_neg _ _)
  · have h := neg_add_neg first (-(fenceFactor * (third - first)))
    rw [neg_twice] at h
    exact (hthird.add hwide).trans h

theorem fences?_neg (values : List Double) :
    Option.Rel SameValues (fences? (values.map (-·)))
      ((fences? values).map fun (lower, upper) => (-upper, -lower)) := by
  have hquartiles := quartiles?_neg values
  unfold fences?
  generalize quartiles? (values.map (-·)) = quartiles' at hquartiles ⊢
  generalize quartiles? values = quartiles at hquartiles ⊢
  cases quartiles with
  | none =>
    cases hquartiles
    exact .none
  | some quartiles =>
    obtain ⟨first, third⟩ := quartiles
    cases hquartiles with
    | some h => exact .some (fences_neg h.1 h.2)

/-! ## Outliers -/

theorem withoutOutliers_neg (values : List Double) :
    withoutOutliers (values.map (-·)) = (withoutOutliers values).map (-·) := by
  have hfences := fences?_neg values
  unfold withoutOutliers
  generalize fences? (values.map (-·)) = fences' at hfences ⊢
  generalize fences? values = fences at hfences ⊢
  cases fences with
  | none =>
    cases hfences
    rfl
  | some fences =>
    obtain ⟨lower, upper⟩ := fences
    cases hfences with
    | some h =>
      rename_i fences'
      obtain ⟨lower', upper'⟩ := fences'
      obtain ⟨hlower, hupper⟩ := h
      dsimp only at hlower hupper ⊢
      rw [List.filter_map]
      congr 1
      refine List.filter_congr fun v _ => ?_
      simp only [Function.comp_apply, decide_eq_decide]
      -- the fences have changed places with their signs, and with them the two comparisons
      rw [hlower.le_iff_left, hupper.le_iff_right, neg_le_neg_iff_swap, neg_le_neg_iff_swap,
        and_comm]

/-- The statistics of a sample with every value negated, be it of any doubles, infinities and NaN
included: the median is negated, the quartiles and the fences change places and are negated, each in
value, and what is no outlier is exactly what was none, negated, in the same order. A sample without
one of these has none of it either when it is negated. -/
theorem statistics_of_negated (values : List Double) :
    Option.Rel SameValue (median? (values.map (-·))) ((median? values).map (-·)) ∧
    Option.Rel SameValues (quartiles? (values.map (-·)))
      ((quartiles? values).map fun (first, third) => (-third, -first)) ∧
    Option.Rel SameValues (fences? (values.map (-·)))
      ((fences? values).map fun (lower, upper) => (-upper, -lower)) ∧
    withoutOutliers (values.map (-·)) = (withoutOutliers values).map (-·) :=
  ⟨median?_neg values, quartiles?_neg values, fences?_neg values, withoutOutliers_neg values⟩

end Sample

end Slowdown
