/-
Ranks of the statistics of a sample of finite numbers below `2^1023`: the middle of a sorted
sample lies between its middle values, the fences lie outside the values of rank `n/4` from
either end, and so the values that are no outliers are a slice of the sorted sample that leaves
out at most `n/4` values at each end.
-/
import Slowdown.Sample
import Slowdown.Proofs.Double.Arith

namespace Slowdown

open Double

/-! ## Small numbers -/

/-- Finite and of magnitude below `2^1023`: the sum of two such numbers is finite. -/
def Double.IsSmall (x : Double) : Prop :=
  x.isFinite = true ∧ x.units.natAbs < 2 ^ 1023 * unitsPerOne

instance (x : Double) : Decidable x.IsSmall := inferInstanceAs (Decidable (_ ∧ _))

namespace Double

theorem unitsOfCode_small : unitsOfCode (2046 * binade) = 2 ^ 1023 * unitsPerOne := by
  decide +kernel

theorem IsSmall.isNaN {x : Double} (h : x.IsSmall) : x.isNaN = false := isNaN_of_isFinite h.1

theorem isSmall_of_units_lt {x : Double} (h : x.units.natAbs < 2 ^ 1023 * unitsPerOne) :
    x.IsSmall := by
  refine ⟨isFinite_iff.2 ?_, h⟩
  rw [natAbs_units, ← unitsOfCode_small] at h
  exact Nat.lt_trans (unitsOfCode_strictMono.lt_iff_lt.1 h) (by decide)

theorem IsSmall.of_between {x y z : Double} (hx : x.IsSmall) (hz : z.IsSmall) (hxy : x ≤ y)
    (hyz : y ≤ z) : y.IsSmall := by
  have hxu := hx.2
  have hzu := hz.2
  have h1 := (le_iff.1 hxy).2.2
  have h2 := (le_iff.1 hyz).2.2
  generalize hb : 2 ^ 1023 * unitsPerOne = b at hxu hzu
  exact isSmall_of_units_lt (by rw [hb]; omega)

theorem IsSmall.isFinite_add {x y : Double} (hx : x.IsSmall) (hy : y.IsSmall) :
    (x + y).isFinite = true := by
  -- the largest small number is the one before `2^1023`
  have hlast : ∀ z : Double, z.IsSmall → 2 * z.units.natAbs < overflowUnits := fun z hz => by
    have hcode : z.code < 2046 * binade := by
      have h := hz.2
      rw [natAbs_units, ← unitsOfCode_small] at h
      exact unitsOfCode_strictMono.lt_iff_lt.1 h
    have hle : unitsOfCode z.code ≤ unitsOfCode (2046 * binade - 1) :=
      unitsOfCode_le.2 (by omega)
    have hmax : 2 * unitsOfCode (2046 * binade - 1) < overflowUnits := by decide +kernel
    rw [natAbs_units]
    omega
  have h1 := hlast x hx
  have h2 := hlast y hy
  rw [Double.isFinite_add hx.1 hy.1]
  omega

theorem IsSmall.mean_between {x y : Double} (hx : x.IsSmall) (hy : y.IsSmall) (hxy : x ≤ y) :
    x ≤ (x + y) / 2 ∧ (x + y) / 2 ≤ y :=
  Double.mean_between hx.1 hy.1 hxy (hx.isFinite_add hy)

end Double

namespace Sample

/-! ## Ascending samples -/

/-- Of two ranks of an ascending sample the higher has the larger value. -/
theorem le_of_rank_le {s : List Double} {i j : Nat} {x y : Double} (hs : s.Pairwise (· ≤ ·))
    (hsm : ∀ v ∈ s, v.IsSmall) (hx : s[i]? = some x) (hy : s[j]? = some y) (hij : i ≤ j) :
    x ≤ y := by
  obtain ⟨hi, rfl⟩ := List.getElem?_eq_some_iff.1 hx
  obtain ⟨hj, rfl⟩ := List.getElem?_eq_some_iff.1 hy
  rcases Nat.lt_or_eq_of_le hij with h | rfl
  · exact List.pairwise_iff_getElem.1 hs i j hi hj h
  · exact le_self (hsm _ (List.getElem_mem hi)).isNaN

theorem exists_rank {s : List Double} {i : Nat} (h : i < s.length) : ∃ x, s[i]? = some x :=
  ⟨s[i], List.getElem?_eq_getElem h⟩

theorem mem_of_rank {s : List Double} {i : Nat} {x : Double} (h : s[i]? = some x) : x ∈ s :=
  List.mem_of_getElem? h

theorem sort_small {values : List Double} (hsm : ∀ v ∈ values, v.IsSmall) :
    ∀ v ∈ sort values, v.IsSmall := by
  intro v hv
  exact hsm v (mem_sort.1 hv)

theorem sort_ascending {values : List Double} (hsm : ∀ v ∈ values, v.IsSmall) :
    (sort values).Pairwise (· ≤ ·) := by
  apply sort_pairwise_le
  intro v hv
  exact (hsm v hv).isNaN

/-! ## The middle -/

/-- The middle value of a sample of odd size, and the mean of the two middle values of one of even
size. -/
theorem middle?_eq {s : List Double} (hne : s ≠ []) :
    ∃ low high, s[(s.length - 1) / 2]? = some low ∧ s[s.length / 2]? = some high ∧
      (s.length % 2 = 1 ∧ low = high ∧ middle? s = some high ∨
        s.length % 2 = 0 ∧ middle? s = some ((low + high) / 2)) := by
  have hlen := List.length_pos_iff.2 hne
  obtain ⟨low, hlow⟩ := exists_rank (s := s) (i := (s.length - 1) / 2) (by omega)
  obtain ⟨high, hhigh⟩ := exists_rank (s := s) (i := s.length / 2) (by omega)
  refine ⟨low, high, hlow, hhigh, ?_⟩
  unfold middle?
  dsimp only
  rcases Nat.mod_two_eq_zero_or_one s.length with heven | hodd
  · -- an even size: the two middle ranks are neighbours
    right
    have hhalf : s.length / 2 - 1 = (s.length - 1) / 2 := by omega
    rw [if_neg (by omega), hhalf, hlow, hhigh]
    exact ⟨heven, rfl⟩
  · -- an odd size: they are the same rank
    left
    have hhalf : (s.length - 1) / 2 = s.length / 2 := by omega
    rw [hhalf, hhigh] at hlow
    rw [if_pos hodd]
    exact ⟨hodd, (Option.some.inj hlow).symm, hhigh⟩

/-- The middle of an ascending sample lies between its two middle values, which are one for an
odd size. -/
theorem middle?_between {s : List Double} (hs : s.Pairwise (· ≤ ·)) (hsm : ∀ v ∈ s, v.IsSmall)
    (hne : s ≠ []) :
    ∃ m low high, middle? s = some m ∧ s[(s.length - 1) / 2]? = some low ∧
      s[s.length / 2]? = some high ∧ low ≤ m ∧ m ≤ high := by
  obtain ⟨low, high, hlow, hhigh, hcases⟩ := middle?_eq hne
  have hle := le_of_rank_le hs hsm hlow hhigh (by omega)
  have hlow' := hsm low (mem_of_rank hlow)
  have hhigh' := hsm high (mem_of_rank hhigh)
  rcases hcases with ⟨-, rfl, hm⟩ | ⟨-, hm⟩
  · exact ⟨low, low, low, hm, hlow, hhigh, hle, hle⟩
  · obtain ⟨h1, h2⟩ := hlow'.mean_between hhigh' hle
    exact ⟨_, low, high, hm, hlow, hhigh, h1, h2⟩

/-- The middle of an ascending sample of small numbers is small. -/
theorem middle?_small {s : List Double} {m : Double} (hs : s.Pairwise (· ≤ ·))
    (hsm : ∀ v ∈ s, v.IsSmall) (hm : middle? s = some m) : m.IsSmall := by
  have hne : s ≠ [] := by rintro rfl; simp [middle?] at hm
  obtain ⟨m', low, high, hm', hlow, hhigh, h1, h2⟩ := middle?_between hs hsm hne
  obtain rfl : m' = m := Option.some_inj.1 (hm'.symm.trans hm)
  exact (hsm low (mem_of_rank hlow)).of_between (hsm high (mem_of_rank hhigh)) h1 h2

/-! ## Quartiles and fences -/

/-- The quartiles lie outside the values of rank `n/4` from either end, both included. -/
theorem quartiles?_outside {values : List Double} (hsm : ∀ v ∈ values, v.IsSmall)
    (hn : leastForQuartiles ≤ values.length) :
    ∃ first third low high, quartiles? values = some (first, third) ∧
      first.IsSmall ∧ third.IsSmall ∧ (sort values)[values.length / 4]? = some low ∧
      (sort values)[values.length - 1 - values.length / 4]? = some high ∧
      first ≤ low ∧ low ≤ high ∧ high ≤ third := by
  have hn4 : 4 ≤ values.length := hn
  have hsmS := sort_small hsm
  have hs := sort_ascending hsm
  have hlen := length_sort values
  unfold quartiles?
  rw [if_neg (by omega)]
  dsimp only
  generalize hS : sort values = s at *
  have hlow := List.take_sublist (values.length / 2) s
  have hupp := List.drop_sublist ((values.length + 1) / 2) s
  -- the upper middle value of the lower half, and the lower one of the upper half
  obtain ⟨first, -, low, hfirst, -, hlowR, -, hfl⟩ := middle?_between (hs.sublist hlow)
    (fun v hv => hsmS v (hlow.subset hv)) (by rw [← List.length_pos_iff, List.length_take]; omega)
  obtain ⟨third, high, -, hthird, hhighR, -, hht, -⟩ := middle?_between (hs.sublist hupp)
    (fun v hv => hsmS v (hupp.subset hv)) (by rw [← List.length_pos_iff, List.length_drop]; omega)
  rw [List.length_take, List.getElem?_take_of_lt (by omega)] at hlowR
  rw [List.length_drop, List.getElem?_drop] at hhighR
  have hlowI : s[values.length / 4]? = some low := by
    rw [← hlowR]; congr 1; omega
  have hhighI : s[values.length - 1 - values.length / 4]? = some high := by
    rw [← hhighR]; congr 1; omega
  refine ⟨first, third, low, high, by rw [hfirst, hthird], ?_, ?_, hlowI, hhighI, hfl,
    le_of_rank_le hs hsmS hlowI hhighI (by omega), hht⟩
  · exact middle?_small (hs.sublist hlow) (fun v hv => hsmS v (hlow.subset hv)) hfirst
  · exact middle?_small (hs.sublist hupp) (fun v hv => hsmS v (hupp.subset hv)) hthird

theorem units_fenceFactor_pos : 0 < fenceFactor.units := by decide +kernel

theorem isFinite_fenceFactor : fenceFactor.isFinite = true := by decide +kernel

/-- The fences lie outside the values of rank `n/4` from either end. -/
theorem fences?_outside {values : List Double} (hsm : ∀ v ∈ values, v.IsSmall)
    (hn : leastForQuartiles ≤ values.length) :
    ∃ lower upper low high, fences? values = some (lower, upper) ∧
      (sort values)[values.length / 4]? = some low ∧
      (sort values)[values.length - 1 - values.length / 4]? = some high ∧
      lower ≤ low ∧ high ≤ upper := by
  obtain ⟨first, third, low, high, hq, hf, ht, hlow, hhigh, hfl, hlh, hht⟩ :=
    quartiles?_outside hsm hn
  have hrange : 0 ≤ third - first :=
    sub_nonneg_of_le hf.1 ht.1 (le_trans hfl (le_trans hlh hht))
  have hwide : 0 ≤ fenceFactor * (third - first) :=
    mul_nonneg_of_pos isFinite_fenceFactor units_fenceFactor_pos hrange
  refine ⟨_, _, low, high, by rw [fences?, hq]; rfl, hlow, hhigh, ?_, ?_⟩
  · exact le_trans (sub_le_of_nonneg hf.1 hwide) hfl
  · exact le_trans hht (le_add_of_nonneg ht.1 hwide)

/-! ## Outliers -/

/-- A sample too small for quartiles has no outliers. -/
theorem withoutOutliers_of_few {values : List Double} (hn : values.length < leastForQuartiles) :
    withoutOutliers values = values := by
  have hf : fences? values = none := by simp [fences?, quartiles?, hn]
  rw [withoutOutliers, hf]

/-- The values that are no outliers are those in an interval, which is the whole finite range for
a sample too small for quartiles and else holds the values of rank `n/4` from either end. -/
theorem exists_interval {values : List Double} (hsm : ∀ v ∈ values, v.IsSmall) :
    ∃ lower upper, (withoutOutliers values = values.filter fun v => lower ≤ v ∧ v ≤ upper) ∧
      ∀ low high, (sort values)[values.length / 4]? = some low →
        (sort values)[values.length - 1 - values.length / 4]? = some high →
        lower ≤ low ∧ high ≤ upper := by
  rcases Nat.lt_or_ge values.length leastForQuartiles with hn | hn
  · refine ⟨infinity true, infinity false, ?_, fun low high hlow hhigh => ?_⟩
    · rw [withoutOutliers_of_few hn, eq_comm, List.filter_eq_self]
      intro v hv
      exact decide_eq_true (le_infinity (hsm v hv).1).symm
    · exact ⟨(le_infinity (sort_small hsm low (mem_of_rank hlow)).1).2,
        (le_infinity (sort_small hsm high (mem_of_rank hhigh)).1).1⟩
  · obtain ⟨lower, upper, low, high, hf, hlow, hhigh, hll, hhu⟩ := fences?_outside hsm hn
    refine ⟨lower, upper, by rw [withoutOutliers, hf], fun low' high' hlow' hhigh' => ?_⟩
    obtain rfl := Option.some.inj (hlow.symm.trans hlow')
    obtain rfl := Option.some.inj (hhigh.symm.trans hhigh')
    exact ⟨hll, hhu⟩

/-! ## Slices -/

/-- The values of an ascending sample between two bounds are a slice of it. -/
theorem filter_between_eq_slice {s : List Double} (hs : s.Pairwise (· ≤ ·)) (low high : Double) :
    ∃ a m, (s.filter fun v => low ≤ v ∧ v ≤ high) = (s.drop a).take m ∧ a + m ≤ s.length ∧
      ∀ i x, s[i]? = some x → (low ≤ x ∧ x ≤ high ↔ a ≤ i ∧ i < a + m) := by
  induction s with
  | nil => exact ⟨0, 0, rfl, Nat.le_refl _, by simp⟩
  | cons v rest ih =>
    obtain ⟨hv, hrest⟩ := List.pairwise_cons.1 hs
    obtain ⟨a, m, hslice, hlen, hin⟩ := ih hrest
    rw [List.filter_cons]
    by_cases hp : low ≤ v ∧ v ≤ high
    · -- the slice of the rest is empty or starts at once
      obtain ⟨rfl, hm⟩ | rfl : a = 0 ∧ 0 < m ∨ m = 0 := by
        rcases Nat.eq_zero_or_pos m with hm | hm
        · exact .inr hm
        · left
          have hlast := (hin a rest[a] (List.getElem?_eq_getElem (by omega))).2 ⟨by omega, by omega⟩
          have hfirst := hin 0 rest[0] (List.getElem?_eq_getElem (by omega))
          have hv0 : v ≤ rest[0] := hv _ (List.getElem_mem _)
          by_contra hcon
          have h0a : rest[0] ≤ rest[a] :=
            List.pairwise_iff_getElem.1 hrest 0 a (by omega) (by omega) (by omega)
          have := hfirst.1 ⟨le_trans hp.1 hv0, le_trans h0a hlast.2⟩
          omega
      · refine ⟨0, m + 1, by simpa [hp] using hslice, by simp; omega, fun i x hx => ?_⟩
        cases i with
        | zero => simp at hx; subst hx; simp [hp]
        | succ i => rw [hin i x (by simpa using hx)]; omega
      · refine ⟨0, 1, by simpa [hp] using hslice, by simp, fun i x hx => ?_⟩
        cases i with
        | zero => simp at hx; subst hx; simp [hp]
        | succ i => rw [hin i x (by simpa using hx)]; omega
    · refine ⟨a + 1, m, by simpa [hp] using hslice, by simp; omega, fun i x hx => ?_⟩
      cases i with
      | zero => simp at hx; subst hx; simp [hp]
      | succ i => rw [hin i x (by simpa using hx)]; omega

/-- The values that are no outliers, sorted, are a slice of the sorted sample, which lacks at
most `n/4` values at each end. -/
theorem sort_withoutOutliers {values : List Double} (hsm : ∀ v ∈ values, v.IsSmall) :
    ∃ a m, sort (withoutOutliers values) = ((sort values).drop a).take m ∧
      a ≤ values.length / 4 ∧ values.length - values.length / 4 ≤ a + m ∧
      a + m ≤ values.length := by
  have hlen := length_sort values
  have hs := sort_ascending hsm
  obtain ⟨lower, upper, hkept, houtside⟩ := exists_interval hsm
  obtain ⟨a, m, hslice, hle, hin⟩ := filter_between_eq_slice hs lower upper
  have hsort : sort (withoutOutliers values) = ((sort values).drop a).take m := by
    rw [hkept, ← hslice]
    exact sort_filter _ _
  rcases Nat.eq_zero_or_pos values.length with h0 | hpos
  · exact ⟨a, m, hsort, by omega, by omega, by omega⟩
  · -- the values of rank `n/4` from either end are in the slice
    obtain ⟨low, hlow⟩ := exists_rank (s := sort values) (i := values.length / 4) (by omega)
    obtain ⟨high, hhigh⟩ := exists_rank (s := sort values)
      (i := values.length - 1 - values.length / 4) (by omega)
    obtain ⟨hll, hhu⟩ := houtside low high hlow hhigh
    have hlh := le_of_rank_le hs (sort_small hsm) hlow hhigh (by omega)
    have hk := (hin _ _ hlow).1 ⟨hll, le_trans hlh hhu⟩
    have hk' := (hin _ _ hhigh).1 ⟨le_trans hll hlh, hhu⟩
    exact ⟨a, m, hsort, hk.1, by omega, by omega⟩

/-- At most `n/4` values are left out at each end. -/
theorem le_length_withoutOutliers {values : List Double} (hsm : ∀ v ∈ values, v.IsSmall) :
    values.length - 2 * (values.length / 4) ≤ (withoutOutliers values).length := by
  obtain ⟨a, m, hslice, ha, hm, hle⟩ := sort_withoutOutliers hsm
  have hlen := length_sort (withoutOutliers values)
  rw [hslice, List.length_take, List.length_drop, length_sort] at hlen
  omega

/-- The median of the values that are no outliers lies near the middle of the sample: its rank
is off by at most half of `n/4`. -/
theorem median?_withoutOutliers_between {values : List Double} (hsm : ∀ v ∈ values, v.IsSmall)
    (hne : values ≠ []) :
    ∃ m low high, median? (withoutOutliers values) = some m ∧
      (sort values)[(values.length - 1 - values.length / 4) / 2]? = some low ∧
      (sort values)[(values.length - 1 + values.length / 4 + 1) / 2]? = some high ∧
      low ≤ m ∧ m ≤ high := by
  have hpos := List.length_pos_iff.2 hne
  have hs := sort_ascending hsm
  have hsmS := sort_small hsm
  have hlen := length_sort values
  obtain ⟨a, m, hslice, ha, hm, hle⟩ := sort_withoutOutliers hsm
  have hsub : (sort (withoutOutliers values)).Sublist (sort values) := by
    rw [hslice]; exact (List.take_sublist _ _).trans (List.drop_sublist _ _)
  have hlenS : (sort (withoutOutliers values)).length = m := by
    rw [hslice, List.length_take, List.length_drop]; omega
  obtain ⟨mid, x, y, hmid, hx, hy, hxm, hmy⟩ := middle?_between (hs.sublist hsub)
    (fun v hv => hsmS v (hsub.subset hv)) (by rw [← List.length_pos_iff]; omega)
  -- ranks of the slice as ranks of the sample
  rw [hlenS, hslice, List.getElem?_take_of_lt (by omega), List.getElem?_drop] at hx hy
  obtain ⟨low, hlow⟩ := exists_rank (s := sort values)
    (i := (values.length - 1 - values.length / 4) / 2) (by omega)
  obtain ⟨high, hhigh⟩ := exists_rank (s := sort values)
    (i := (values.length - 1 + values.length / 4 + 1) / 2) (by omega)
  refine ⟨mid, low, high, hmid, hlow, hhigh, ?_, ?_⟩
  · exact le_trans (le_of_rank_le hs hsmS hlow hx (by omega)) hxm
  · exact le_trans hmy (le_of_rank_le hs hsmS hy hhigh (by omega))

end Sample

end Slowdown
