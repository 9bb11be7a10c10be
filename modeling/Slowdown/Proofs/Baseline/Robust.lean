/-
Robustness of the baseline: for candidates that are finite and below `2^1023` it lies near the
middle of the sorted candidates, and so no replacement of less than about three eighths of them
moves it out of the range of the others.
-/
import Slowdown.Proofs.Baseline.Window
import Slowdown.Proofs.Sample.Ranks
import Mathlib.Data.Finset.Card

namespace Slowdown

open Double

namespace Sample

/-! ## Ranks and replacements -/

/-- Two ascending arrangements of one sample agree in value at every rank. -/
theorem units_eq_of_rank {s t : List Double} {i : Nat} {x y : Double} (hst : s.Perm t)
    (hs : s.Pairwise (· ≤ ·)) (ht : t.Pairwise (· ≤ ·)) (hx : s[i]? = some x)
    (hy : t[i]? = some y) : x.units = y.units := by
  have hmono : ∀ l : List Double, l.Pairwise (· ≤ ·) → (l.map units).Pairwise (· ≤ ·) :=
    fun l hl => List.pairwise_map.2 (hl.imp fun h => (le_iff.1 h).2.2)
  have heq : s.map units = t.map units :=
    (hst.map units).eq_of_pairwise (fun _ _ _ _ => Int.le_antisymm) (hmono s hs) (hmono t ht)
  have hi := congrArg (·[i]?) heq
  simp only [List.getElem?_map, hx, hy, Option.map_some, Option.some.injEq] at hi
  exact hi

theorem countP_le_card {ys : List Double} {p : Double → Bool} {R : Finset Nat}
    (h : ∀ i y, ys[i]? = some y → p y → i ∈ R) : ys.countP p ≤ R.card := by
  -- count places in place of values
  have hcount : ys.countP p = ((List.finRange ys.length).filter fun i => p (ys.get i)).length := by
    conv_lhs => rw [← List.map_get_finRange ys]
    rw [List.countP_map, List.countP_eq_length_filter]
    rfl
  rw [hcount, ← List.toFinset_card_of_nodup ((List.nodup_finRange _).filter _)]
  refine Finset.card_le_card_of_injOn Fin.val (fun i hi => ?_) Fin.val_injective.injOn
  have hi : p (ys.get i) = true := by simpa using hi
  exact h i (ys.get i) (by simp) hi

/-- Of more values with a property than places were touched, one stands at an untouched place. -/
theorem exists_untouched {s t ys : List Double} {p : Double → Bool} {R : Finset Nat}
    (hs : s.Perm ys) (ht : t.Sublist s) (hp : ∀ v ∈ t, p v) (hR : R.card < t.length) :
    ∃ i y, i ∉ R ∧ ys[i]? = some y ∧ p y := by
  by_contra hcon
  have hle : ys.countP p ≤ R.card := countP_le_card fun i y hy hpy => by
    by_contra hi
    exact hcon ⟨i, y, hi, hy, hpy⟩
  have hall : t.countP p = t.length := List.countP_eq_length.2 hp
  have hsub := ht.countP_le (p := p)
  rw [hs.countP_eq] at hsub
  omega

end Sample

/-! ## The baseline near the middle -/

/-- The baseline lies between the values whose ranks are off the middle by at most half of
`n/4`. -/
theorem Window.baseline_between {w : Window} (hsm : ∀ v ∈ w.candidates, v.IsSmall)
    (hne : w.candidates ≠ []) :
    ∃ low high,
      (sort w.candidates)[(w.candidates.length - 1 - w.candidates.length / 4) / 2]? = some low ∧
      (sort w.candidates)[(w.candidates.length - 1 + w.candidates.length / 4 + 1) / 2]? =
        some high ∧
      low ≤ w.baseline ∧ w.baseline ≤ high := by
  obtain ⟨m, low, high, hm, hlow, hhigh, h1, h2⟩ := Sample.median?_withoutOutliers_between hsm hne
  have hkept : Sample.withoutOutliers w.candidates ≠ [] := by
    intro h
    rw [h] at hm
    simp [Sample.median?, Sample.middle?, sort] at hm
  have hbase : w.baseline = m := by rw [Window.baseline, Window.retained_eq hkept, hm]; rfl
  exact ⟨low, high, hlow, hhigh, hbase ▸ h1, hbase ▸ h2⟩

/-- With few enough candidates replaced, the baseline lies between two that were not. -/
theorem Window.baseline_between_untouched {w : Window} {R : Finset Nat}
    (hsm : ∀ v ∈ w.candidates, v.IsSmall) (hne : w.candidates ≠ [])
    (hR : R.card ≤ (w.candidates.length - 1 - w.candidates.length / 4) / 2) :
    ∃ i j low high, i ∉ R ∧ j ∉ R ∧ w.candidates[i]? = some low ∧ w.candidates[j]? = some high ∧
      low ≤ w.baseline ∧ w.baseline ≤ high := by
  have hpos := List.length_pos_iff.2 hne
  have hs := Sample.sort_ascending hsm
  have hsmS := Sample.sort_small hsm
  have hlen := length_sort w.candidates
  obtain ⟨x, y, hx, hy, hxb, hby⟩ := Window.baseline_between hsm hne
  -- as many values lie below the lower rank as above the upper one
  obtain ⟨i, low, hi, hlow, hlx⟩ := Sample.exists_untouched (R := R) (sort_perm w.candidates)
    (p := fun v => decide (v ≤ x))
    (List.take_sublist ((w.candidates.length - 1 - w.candidates.length / 4) / 2 + 1) _)
    (fun v hv => by
      obtain ⟨k, hk, rfl⟩ := List.mem_take_iff_getElem.1 hv
      exact decide_eq_true (Sample.le_of_rank_le hs hsmS (List.getElem?_eq_getElem (by omega)) hx
        (by omega)))
    (by rw [List.length_take]; omega)
  obtain ⟨j, high, hj, hhigh, hyh⟩ := Sample.exists_untouched (R := R) (sort_perm w.candidates)
    (p := fun v => decide (y ≤ v))
    (List.drop_sublist ((w.candidates.length - 1 + w.candidates.length / 4 + 1) / 2) _)
    (fun v hv => by
      obtain ⟨k, hk, rfl⟩ := List.mem_drop_iff_getElem.1 hv
      exact decide_eq_true (Sample.le_of_rank_le hs hsmS hy (List.getElem?_eq_getElem (by omega))
        (by omega)))
    (by rw [List.length_drop]; omega)
  exact ⟨i, j, low, high, hi, hj, hlow, hhigh, le_trans (of_decide_eq_true hlx) hxb,
    le_trans hby (of_decide_eq_true hyh)⟩

/-- Robustness: in any ascending arrangement of the `n` candidates the reported baseline lies
between the values of rank `(n - 1 - k) / 2` and `(n - 1 + k) / 2`, rounded up, for `k = n / 4`;
and replacing `(n - 1 - k) / 2` candidates by any small numbers leaves it between two that were
not replaced. -/
theorem estimate_robust (p : Policy) (w : Window) (s : List Double) (hs : s.Perm w.candidates)
    (ascending : s.Pairwise (· ≤ ·)) (hsm : ∀ v ∈ w.candidates, v.IsSmall)
    (enough : p.minHistory.toNat ≤ w.size) (hne : w.candidates ≠ []) :
    (∃ b low high, (w.estimate p).baseline? = some b ∧
      s[(s.length - 1 - s.length / 4) / 2]? = some low ∧
      s[(s.length - 1 + s.length / 4 + 1) / 2]? = some high ∧ low ≤ b ∧ b ≤ high) ∧
    ∀ (w' : Window) (replaced : Finset Nat), w'.candidates.length = w.candidates.length →
      (∀ v ∈ w'.candidates, v.IsSmall) →
      (∀ i, i ∉ replaced → w'.candidates[i]? = w.candidates[i]?) →
      replaced.card ≤ (s.length - 1 - s.length / 4) / 2 →
      ∃ b i j low high, (w'.estimate p).baseline? = some b ∧ i ∉ replaced ∧ j ∉ replaced ∧
        w.candidates[i]? = some low ∧ w.candidates[j]? = some high ∧ low ≤ b ∧ b ≤ high := by
  have hlen := hs.length_eq
  refine ⟨?_, fun w' replaced hlen' hsm' hsame hcard => ?_⟩
  · obtain ⟨x, y, hx, hy, hxb, hby⟩ := Window.baseline_between hsm hne
    have hpos := List.length_pos_iff.2 hne
    have hsorted := Sample.sort_ascending hsm
    have hperm := hs.trans (sort_perm w.candidates).symm
    rw [← hlen] at hx hy
    obtain ⟨low, hlow⟩ := Sample.exists_rank (s := s)
      (i := (s.length - 1 - s.length / 4) / 2) (by omega)
    obtain ⟨high, hhigh⟩ := Sample.exists_rank (s := s)
      (i := (s.length - 1 + s.length / 4 + 1) / 2) (by omega)
    -- the arrangement given and the sorted one have equal values at each rank
    have hlx := Sample.units_eq_of_rank hperm ascending hsorted hlow hx
    have hhy := Sample.units_eq_of_rank hperm ascending hsorted hhigh hy
    have hlowN := (hsm low (hs.mem_iff.1 (Sample.mem_of_rank hlow))).isNaN
    have hhighN := (hsm high (hs.mem_iff.1 (Sample.mem_of_rank hhigh))).isNaN
    refine ⟨w.baseline, low, high, Window.estimate_baseline? enough, hlow, hhigh, ?_, ?_⟩
    · rw [le_iff] at hxb ⊢
      exact ⟨hlowN, hxb.2.1, hlx ▸ hxb.2.2⟩
    · rw [le_iff] at hby ⊢
      exact ⟨hby.1, hhighN, hhy ▸ hby.2.2⟩
  · -- a window of the same size is judged if the old one was
    have hsize : w'.size = w.size := by
      have h1 := w'.length_candidates
      have h2 := w.length_candidates
      have h3 := w'.size_pos
      have h4 := w.size_pos
      omega
    have hne' : w'.candidates ≠ [] := by
      rw [← List.length_pos_iff] at hne ⊢; omega
    obtain ⟨i, j, low, high, hi, hj, hlow, hhigh, h1, h2⟩ :=
      Window.baseline_between_untouched (R := replaced) hsm' hne'
        (by rw [hlen', ← hlen]; exact hcard)
    exact ⟨w'.baseline, i, j, low, high, Window.estimate_baseline? (by rw [hsize]; exact enough),
      hi, hj, (hsame i hi).symm.trans hlow, (hsame j hj).symm.trans hhigh, h1, h2⟩

/-- A spike among four candidates, and a spike put in its place: the baseline stays between the
middle values, and between those that were not replaced. -/
theorem estimate_robust_spike :
    (∃ b, (Window.estimate ⟨[10, 12, 11, 1000, 13], by simp⟩ ⟨5, 0, 5⟩).baseline? = some b ∧
      11 ≤ b ∧ b ≤ 12) ∧
    ∃ b low high, (Window.estimate ⟨[10, 12, 11, 1, 13], by simp⟩ ⟨5, 0, 5⟩).baseline? = some b ∧
      low ∈ [(10 : Double), 12, 11] ∧ high ∈ [(10 : Double), 12, 11] ∧ low ≤ b ∧ b ≤ high := by
  obtain ⟨⟨b, low, high, hb, hlow, hhigh, h1, h2⟩, hrepl⟩ := estimate_robust ⟨5, 0, 5⟩
    ⟨[10, 12, 11, 1000, 13], by simp⟩ [10, 11, 12, 1000] (by decide +kernel) (by decide +kernel)
    (by decide +kernel) (by decide) (by decide)
  obtain rfl : 11 = low := by simpa using hlow
  obtain rfl : 12 = high := by simpa using hhigh
  -- the fourth of the candidates is the one replaced
  have hsame : ∀ i, i ∉ ({3} : Finset Nat) →
      ([10, 12, 11, 1] : List Double)[i]? = ([10, 12, 11, 1000] : List Double)[i]? := fun i hi => by
    rw [Finset.mem_singleton] at hi
    rw [show ([10, 12, 11, 1] : List Double) = [10, 12, 11, 1000].set 3 1 by simp,
      List.getElem?_set_ne (Ne.symm hi)]
  have hmem : ∀ k v, k ∉ ({3} : Finset Nat) → ([10, 12, 11, 1000] : List Double)[k]? = some v →
      v ∈ ([10, 12, 11] : List Double) := fun k v hk hv => by
    have hlt := (List.getElem?_eq_some_iff.1 hv).1
    simp only [Finset.mem_singleton, List.length_cons, List.length_nil] at hk hlt
    refine List.mem_of_getElem? (i := k) ?_
    rw [show ([10, 12, 11] : List Double) = [10, 12, 11, 1000].take 3 by simp,
      List.getElem?_take_of_lt (by omega)]
    exact hv
  obtain ⟨b', i, j, low, high, hb', hi, hj, hlow, hhigh, h1', h2'⟩ := hrepl
    ⟨[10, 12, 11, 1, 13], by simp⟩ {3} (by decide) (by decide +kernel) hsame (by decide)
  exact ⟨⟨b, hb, h1, h2⟩, b', low, high, hb', hmem i low hi hlow, hmem j high hj hhigh, h1', h2'⟩

end Slowdown
