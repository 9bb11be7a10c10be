/-
The verdict against the extreme candidates, for finite positive values: if every candidate alone
would make the newest value a regression, the verdict is one, unless the two middle values add
up to infinity; and if none would, the verdict is that all is well.
-/
import Slowdown.Proofs.Baseline.Ready
import Slowdown.Proofs.Verdict.Series

namespace Slowdown

open Double

/-! ## The median of positive values -/

namespace Sample

/-- The size is even and the two middle values add up to `2^1024 - 2^970` or more, which rounds
to infinity. -/
def MiddleOverflows (values : List Double) : Prop :=
  values.length % 2 = 0 ∧ ∃ low high, (sort values)[values.length / 2 - 1]? = some low ∧
    (sort values)[values.length / 2]? = some high ∧ (overflowUnits : Int) ≤ low.units + high.units

/-- The median of positive values lies between two of them, or its sum overflows and it is
infinite. -/
theorem median?_of_positive {values : List Double}
    (hpos : ∀ v ∈ values, v.isFinite = true ∧ 0 < v.units) (hne : values ≠ []) :
    ∃ m, median? values = some m ∧
      (MiddleOverflows values ∧ m = infinity false ∨
        ¬ MiddleOverflows values ∧ ∃ low ∈ values, ∃ high ∈ values, low ≤ m ∧ m ≤ high) := by
  have hlen := length_sort values
  have h0 := List.length_pos_iff.2 hne
  have hs : (sort values).Pairwise (· ≤ ·) :=
    sort_pairwise_le fun v hv => isNaN_of_isFinite (hpos v hv).1
  obtain ⟨low, high, hlow, hhigh, hcases⟩ :=
    middle?_eq (s := sort values) (List.length_pos_iff.1 (by omega))
  have hml : low ∈ values := mem_sort.1 (mem_of_rank hlow)
  have hmh : high ∈ values := mem_sort.1 (mem_of_rank hhigh)
  obtain ⟨hfl, hpl⟩ := hpos low hml
  obtain ⟨hfh, hph⟩ := hpos high hmh
  rw [hlen] at hlow hhigh hcases
  rcases hcases with ⟨hodd, rfl, hm⟩ | ⟨heven, hm⟩
  · have hself := le_self (isNaN_of_isFinite hfl)
    refine ⟨low, hm, .inr ⟨?_, low, hml, low, hml, hself, hself⟩⟩
    rintro ⟨heven, -⟩
    omega
  · rw [show (values.length - 1) / 2 = values.length / 2 - 1 by omega] at hlow
    -- the definition speaks of these two values
    have hiff : MiddleOverflows values ↔ (overflowUnits : Int) ≤ low.units + high.units := by
      unfold MiddleOverflows
      rw [hlow, hhigh]
      constructor
      · rintro ⟨-, _, _, hl, hh, h⟩
        cases hl
        cases hh
        exact h
      · intro h
        exact ⟨heven, low, high, rfl, rfl, h⟩
    refine ⟨_, hm, ?_⟩
    rw [hiff]
    rcases Int.lt_or_le (low.units + high.units) overflowUnits with h | h
    · right
      have hle : low ≤ high := by
        obtain ⟨hi, rfl⟩ := List.getElem?_eq_some_iff.1 hlow
        obtain ⟨hj, rfl⟩ := List.getElem?_eq_some_iff.1 hhigh
        exact List.pairwise_iff_getElem.1 hs _ _ hi hj (by omega)
      have hfin : (low + high).isFinite = true := (isFinite_add hfl hfh).2 (by omega)
      exact ⟨by omega, low, hml, high, hmh, mean_between hfl hfh hle hfin⟩
    · left
      exact ⟨h, by rw [add_eq_infinity hfl hfh h, infinity_div_two]⟩

end Sample

/-! ## The baseline of positive candidates -/

namespace Window

variable {w : Window}

/-- The baseline of positive candidates lies between two of them, unless the middle overflows. -/
theorem baseline_of_positive (hpos : ∀ v ∈ w.candidates, v.isFinite = true ∧ 0 < v.units)
    (hne : w.candidates ≠ []) :
    Sample.MiddleOverflows w.retained ∧ w.baseline = infinity false ∨
      ¬ Sample.MiddleOverflows w.retained ∧ ∃ low ∈ w.candidates, ∃ high ∈ w.candidates,
        low ≤ w.baseline ∧ w.baseline ≤ high := by
  have hret : ∀ v ∈ w.retained, v ∈ w.candidates := fun v hv => w.retained_sublist.subset hv
  obtain ⟨m, hm, hcases⟩ := Sample.median?_of_positive (fun v hv => hpos v (hret v hv))
    (retained_ne_nil hne)
  have hb : w.baseline = m := by rw [baseline, hm]; rfl
  rw [hb]
  rcases hcases with hover | ⟨hover, low, hlow, high, hhigh, hle⟩
  · exact .inl hover
  · exact .inr ⟨hover, low, hret low hlow, high, hret high hhigh, hle⟩

theorem baseline_pos (hpos : ∀ v ∈ w.candidates, v.isFinite = true ∧ 0 < v.units)
    (hne : w.candidates ≠ []) : ¬ w.baseline ≤ 0 := by
  rw [le_iff, zero_eq, units_zero]
  rintro ⟨-, -, h⟩
  rcases baseline_of_positive hpos hne with ⟨-, hb⟩ | ⟨-, low, hlow, -, -, hle, -⟩
  · have hinf : 0 < (infinity false).units := by decide +kernel
    rw [hb] at h
    omega
  · have hlow0 := (hpos low hlow).2
    have hlu := (le_iff.1 hle).2.2
    omega

end Window

/-! ## Classification against the extremes -/

/-- Nothing finite is a regression against an infinite baseline. -/
theorem classify_infinity {c t : Double} (hc : c.isFinite = true) (ht : 0 ≤ t) :
    (classify c (infinity false) t).2 = .ok := by
  rw [classify_eq_ok_iff, div_infinity hc]
  exact Double.not_lt_zero (one_add_pos ht).le _

/-- A regression against a larger baseline is one against a smaller. -/
theorem classify_regression_mono {c b b' t : Double} (hc : c.isFinite = true) (hc0 : 0 ≤ c.units)
    (hb : b.isFinite = true) (hb' : b'.isFinite = true) (hb0 : 0 < b.units) (hle : b ≤ b')
    (h : (classify c b' t).2 = .regression) : (classify c b t).2 = .regression := by
  rw [classify_eq_regression_iff] at h ⊢
  exact lt_of_lt_of_le h (div_le_div_left hc hc0 hb hb' hb0 hle)

/-! ## Verdicts -/

/-- For finite positive values under a valid policy: what is a regression against every
candidate is reported as one exactly if the two middle retained candidates do not overflow, and
what is a regression against none is reported as in order. -/
theorem verdict_against_extremes (p : Policy) (s : Series) (name : String) (w : Window)
    (valid : p.flaw? = none) (positive : ∀ v ∈ s.values, v.isFinite = true ∧ 0 < v)
    (enough : p.minHistory.toNat ≤ s.values.length)
    (hw : Window.ofValues? s.values p.windowSize.toNat = some w) (hne : w.candidates ≠ []) :
    ∃ v, s.verdict? name p = some v ∧
      ((∀ c ∈ w.candidates, (classify w.current c p.threshold).2 = .regression) →
        (v.status = .regression ↔ ¬ Sample.MiddleOverflows w.retained) ∧
        (v.status = .ok ↔ Sample.MiddleOverflows w.retained)) ∧
      ((∀ c ∈ w.candidates, (classify w.current c p.threshold).2 = .ok) → v.status = .ok) := by
  obtain ⟨-, hminw, -, hT⟩ := Policy.flaw?_eq_none_iff.1 valid
  have hpos : ∀ v ∈ w.values, v.isFinite = true ∧ 0 < v.units := by
    intro v hv
    obtain ⟨hfin, h⟩ := positive v (Window.mem_of_ofValues? hw hv)
    exact ⟨hfin, (zero_lt_iff.1 h).2⟩
  have hcand : ∀ v ∈ w.candidates, v.isFinite = true ∧ 0 < v.units := fun v hv =>
    hpos v (Window.mem_values_of_mem_candidates hv)
  obtain ⟨hc, hc0⟩ := hpos _ w.current_mem
  have hsize : p.minHistory.toNat ≤ w.size := by rw [Window.size_ofValues? hw]; omega
  refine ⟨_, Series.verdict?_of_pos hw hsize (Window.baseline_pos hcand hne), ?_⟩
  dsimp only
  obtain ⟨hover, hb⟩ | ⟨hover, low, hlow, high, hhigh, hle, hle'⟩ :=
    Window.baseline_of_positive hcand hne
  · -- the ratio to an infinite baseline is zero
    rw [hb, classify_infinity hc hT]
    simp [hover]
  · obtain ⟨hfl, hpl⟩ := hcand low hlow
    obtain ⟨hfh, -⟩ := hcand high hhigh
    have hlu := (le_iff.1 hle).2.2
    have hb : w.baseline.isFinite = true := isFinite_of_le hfh (by omega) hle'
    -- the baseline is no larger than one candidate and no smaller than another
    constructor
    · intro hall
      have h := classify_regression_mono hc hc0.le hb hfh (by omega) hle' (hall high hhigh)
      rw [h]
      simp [hover]
    · intro hall
      cases hst : (classify w.current w.baseline p.threshold).2 with
      | ok => rfl
      | regression =>
        have h := classify_regression_mono hc hc0.le hfl hb hpl hle hst
        rw [hall low hlow] at h
        cases h
      | skip => exact absurd hst (classify_ne_skip _ _ _)

/-- Against candidates from ten to twelve, twenty is a regression and nine is none. -/
theorem verdict_against_extremes_of_three :
    (∃ v, Series.verdict? ⟨[10, 12, 11, 20], none⟩ "fib" ⟨5, .ofDecimal 20 2, 4⟩ = some v ∧
      v.status = .regression) ∧
    ∃ v, Series.verdict? ⟨[10, 12, 11, 9], none⟩ "fib" ⟨5, .ofDecimal 20 2, 4⟩ = some v ∧
      v.status = .ok := by
  obtain ⟨v, hv, hreg, -⟩ := verdict_against_extremes ⟨5, .ofDecimal 20 2, 4⟩
    ⟨[10, 12, 11, 20], none⟩ "fib" ⟨[10, 12, 11, 20], by simp⟩ (by decide +kernel)
    (by decide +kernel) (by decide) (by simp [Window.ofValues?]) (by simp [Window.candidates])
  obtain ⟨v', hv', -, hok⟩ := verdict_against_extremes ⟨5, .ofDecimal 20 2, 4⟩
    ⟨[10, 12, 11, 9], none⟩ "fib" ⟨[10, 12, 11, 9], by simp⟩ (by decide +kernel)
    (by decide +kernel) (by decide) (by simp [Window.ofValues?]) (by simp [Window.candidates])
  exact ⟨⟨v, hv, (hreg (by decide +kernel)).1.2 fun h => absurd h.1 (by decide +kernel)⟩,
    v', hv', hok (by decide +kernel)⟩

/-- Twice `2^1023`, which is out of range, and a newest value half as large again. -/
def overflowing : Window :=
  ⟨[⟨false, 2046 * binade, by decide⟩, ⟨false, 2046 * binade, by decide⟩,
    ⟨false, 2046 * binade + binade / 2, by decide⟩], by simp⟩

theorem baseline_overflowing : overflowing.baseline = infinity false :=
  Window.baseline_of_few (by decide) (by decide +kernel) (by decide +kernel)

/-- The newest value is a regression against both candidates, but their mean overflows, and it
is reported as in order. -/
theorem regression_missed_by_overflow :
    Policy.flaw? ⟨20, .ofDecimal 20 2, 3⟩ = none ∧
    (∀ x ∈ overflowing.values, x.isFinite = true ∧ 0 < x) ∧
    3 ≤ overflowing.values.length ∧ overflowing.candidates ≠ [] ∧
    Window.ofValues? overflowing.values 20 = some overflowing ∧
    (∀ c ∈ overflowing.candidates,
      (classify overflowing.current c (.ofDecimal 20 2)).2 = .regression) ∧
    ∃ v, Series.verdict? ⟨overflowing.values, none⟩ "fib" ⟨20, .ofDecimal 20 2, 3⟩ = some v ∧
      v.status = .ok := by
  have hw : Window.ofValues? overflowing.values 20 = some overflowing := by
    simp [Window.ofValues?, overflowing]
  -- the median of the candidates is infinite, so it is no reason to skip
  have hb : ¬ overflowing.baseline ≤ 0 := by
    rw [baseline_overflowing]
    decide +kernel
  have hok : (classify overflowing.current overflowing.baseline (.ofDecimal 20 2)).2 = .ok := by
    rw [baseline_overflowing]
    exact classify_infinity (by decide +kernel) (by decide +kernel)
  refine ⟨by decide +kernel, by decide +kernel, by decide, by decide, hw, by decide +kernel, _,
    Series.verdict?_of_pos hw (by decide) hb, ?_⟩
  dsimp only
  exact hok

end Slowdown
