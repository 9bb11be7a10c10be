/-
Series measured in another unit, a power of two times as large. As long as the values are neither
tiny nor huge, every value that is computed for a verdict is the exact multiple of what it was: the
estimate retains as many candidates, and status, reason and ratio are the same.
-/
import Slowdown.Proofs.Sample.Scaling
import Slowdown.Proofs.Verdict.Series

namespace Slowdown

open Double

/-! ## Moderate numbers -/

/-- Zero, or of magnitude between `2^(-800)` and `2^800`. -/
def Double.IsModerate (x : Double) : Prop :=
  x.isFinite = true ∧ (x.units = 0 ∨
    unitsPerOne ≤ 2 ^ 800 * x.units.natAbs ∧ x.units.natAbs ≤ 2 ^ 800 * unitsPerOne)

instance (x : Double) : Decidable x.IsModerate := inferInstanceAs (Decidable (_ ∧ (_ ∨ _ ∧ _)))

namespace Double

variable {x : Double}

/-- A significand has 53 bits: where the magnitude is bounded below, so is the last bit. -/
theorem onGrid_of_bounds {e : Nat} (he : e ≤ 1022) (hx : x.isFinite = true)
    (h : x.units = 0 ∨
      unitsPerOne ≤ 2 ^ e * x.units.natAbs ∧ x.units.natAbs ≤ 2 ^ e * unitsPerOne) :
    OnGrid (1022 - e) (1074 + e) x := by
  rcases h with hzero | ⟨hlow, hhigh⟩
  · exact ⟨hx, by rw [hzero]; exact dvd_zero _, by rw [hzero]; exact Nat.zero_le _⟩
  · obtain ⟨one, hone⟩ : ∃ n : Nat, n = 1074 := ⟨_, rfl⟩
    rw [unitsPerOne_eq hone] at hlow hhigh
    refine ⟨hx, ?_, ?_⟩
    · -- 52 bits below the highest one that the bound leaves is the last bit
      have hsplit : 2 ^ one = 2 ^ e * 2 ^ (52 + (1022 - e)) := by
        rw [← pow_add]
        congr 1
        omega
      rw [hsplit, natAbs_units] at hlow
      have hdvd := two_pow_dvd_unitsOfCode (Nat.le_of_mul_le_mul_left hlow (Nat.two_pow_pos e))
      rw [← natAbs_units, ← Int.natCast_dvd_natCast, Int.dvd_natAbs] at hdvd
      exact_mod_cast hdvd
    · rwa [← pow_add, Nat.add_comm, hone] at hhigh

theorem IsModerate.onGrid (h : x.IsModerate) : OnGrid 222 1874 x :=
  onGrid_of_bounds (by decide) h.1 h.2

end Double

/-! ## Another unit -/

/-- Measured in a unit of `2^(-k)` of the former one. -/
def Series.scaled (k : Int) (s : Series) : Series :=
  { s with values := s.values.map (· * twoPow k) }

/-- A window in another unit. -/
def Window.scaled (k : Int) (w : Window) : Window :=
  ⟨w.values.map (· * twoPow k), by simpa using w.nonempty⟩

/-- The reason and the numbers of candidates have no unit. -/
def Estimate.scaled (k : Int) : Estimate → Estimate
  | ready current baseline candidates retained =>
    ready (current * twoPow k) (baseline * twoPow k) candidates retained
  | skipped current baseline reason =>
    skipped (current * twoPow k) (baseline.map (· * twoPow k)) reason

/-- Status, ratio and reason have no unit. -/
def Verdict.scaled (k : Int) (v : Verdict) : Verdict :=
  { v with current := v.current * twoPow k, baseline := v.baseline.map (· * twoPow k) }

namespace Window

theorem ofValues?_scaled (k : Int) (values : List Double) (size : Nat) :
    ofValues? (values.map (· * twoPow k)) size = (ofValues? values size).map (scaled k) := by
  by_cases h : values = []
  · subst h
    rfl
  · have h' : values.map (· * twoPow k) ≠ [] := by simpa using h
    rw [ofValues?, ofValues?, dif_neg h, dif_neg h']
    simp [scaled, List.map_drop]

theorem size_scaled (k : Int) (w : Window) : (w.scaled k).size = w.size := List.length_map _

theorem current_scaled (k : Int) (w : Window) : (w.scaled k).current = w.current * twoPow k :=
  List.getLast_map _

theorem candidates_scaled (k : Int) (w : Window) :
    (w.scaled k).candidates = w.candidates.map (· * twoPow k) :=
  List.map_dropLast.symm

section

variable {low high : Nat} {k : Int} {w : Window} (hk : k.natAbs ≤ 100)
  (room : HasRoom low (high + 4)) (hw : ∀ v ∈ w.values, OnGrid (low + 2) high v)

include hw

theorem onGrid_current : OnGrid low (high + 4) w.current :=
  (hw _ w.current_mem).mono (by omega) (by omega)

theorem onGrid_retained : ∀ v ∈ w.retained, OnGrid (low + 2) high v := fun v hv =>
  hw v (mem_values_of_mem_candidates (w.retained_sublist.subset hv))

include room

theorem onGrid_baseline : OnGrid low (high + 4) w.baseline := by
  rw [baseline]
  cases hm : Sample.median? w.retained with
  | none => exact onGrid_zero
  | some m =>
    have room' : HasRoom (low + 1) (high + 1) := room.mono (by omega) (by omega)
    exact (Sample.onGrid_median? room' (onGrid_retained hw) hm).mono (by omega) (by omega)

include hk

theorem retained_scaled : (w.scaled k).retained = w.retained.map (· * twoPow k) := by
  have hkept := Sample.withoutOutliers_map_twoPow hk room fun v hv =>
    hw v (mem_values_of_mem_candidates hv)
  unfold retained
  dsimp only
  rw [candidates_scaled, hkept, apply_ite (List.map (· * twoPow k))]
  simp only [List.map_eq_nil_iff]

theorem baseline_scaled : (w.scaled k).baseline = w.baseline * twoPow k := by
  have room' : HasRoom (low + 1) (high + 1) := room.mono (by omega) (by omega)
  have hmedian := Sample.median?_map_twoPow hk room' (onGrid_retained hw)
  rw [baseline, baseline, retained_scaled hk room hw, hmedian]
  cases Sample.median? w.retained with
  | none => exact (zero_mul_twoPow hk room).symm
  | some m => rfl

theorem baseline_scaled_le_zero_iff : (w.scaled k).baseline ≤ 0 ↔ w.baseline ≤ 0 := by
  have hle := mul_twoPow_le_iff hk room (onGrid_baseline room hw) onGrid_zero
  rwa [zero_mul_twoPow hk room, ← baseline_scaled hk room hw] at hle

theorem estimate_scaled (p : Policy) : (w.scaled k).estimate p = (w.estimate p).scaled k := by
  have hretained := retained_scaled hk room hw
  simp only [estimate, size_scaled, current_scaled, candidates_scaled, hretained, List.length_map,
    baseline_scaled_le_zero_iff hk room hw]
  rw [baseline_scaled hk room hw]
  split_ifs <;> rfl

theorem verdict_scaled (name : String) (unit : Option String) (p : Policy) :
    ((w.scaled k).estimate p).verdict name unit p =
      ((w.estimate p).verdict name unit p).scaled k := by
  rw [estimate_scaled hk room hw]
  rcases w.estimate_cases p with ⟨-, _, -, he⟩ | ⟨-, -, he⟩ | ⟨-, hb, he⟩
  · rw [he]
    rfl
  · rw [he]
    rfl
  · have hcurrent := onGrid_current hw
    have hbaseline := onGrid_baseline room hw
    have hpos := (zero_lt_iff_of_not_le hb).2 (isNaN_of_isFinite hbaseline.finite)
    have hratio := div_mul_twoPow hk room hcurrent hbaseline (zero_lt_iff.1 hpos).2
    rw [he]
    simp only [Estimate.scaled, Estimate.verdict, classify, Verdict.scaled, Option.map_some, hratio]

end

end Window

/-! ## Verdicts -/

section

variable {low high : Nat} {k : Int} {s : Series} (room : HasRoom low (high + 4))
  (hs : ∀ v ∈ s.values, OnGrid (low + 2) high v)

include room hs

theorem Series.onGrid_verdict? {name : String} {p : Policy} {v : Verdict}
    (h : s.verdict? name p = some v) :
    OnGrid low (high + 4) v.current ∧ ∀ b, v.baseline = some b → OnGrid low (high + 4) b := by
  obtain ⟨w, hw, rfl⟩ := Option.map_eq_some_iff.1 h
  have hvalues := fun v hv => hs v (Window.mem_of_ofValues? hw hv)
  have hcurrent := Window.onGrid_current hvalues
  have hbaseline := Window.onGrid_baseline room hvalues
  rcases w.estimate_cases p with ⟨-, _, -, he⟩ | ⟨-, -, he⟩ | ⟨-, -, he⟩ <;> rw [he]
  · exact ⟨hcurrent, nofun⟩
  · exact ⟨hcurrent, fun b hb => Option.some.inj hb ▸ hbaseline⟩
  · exact ⟨hcurrent, fun b hb => Option.some.inj hb ▸ hbaseline⟩

theorem Series.verdict?_scaled (hk : k.natAbs ≤ 100) (name : String) (p : Policy) :
    (s.scaled k).verdict? name p = (s.verdict? name p).map (Verdict.scaled k) := by
  have hscaled := Window.ofValues?_scaled k s.values p.windowSize.toNat
  rw [verdict?, verdict?, scaled, hscaled]
  cases hw : Window.ofValues? s.values p.windowSize.toNat with
  | none => rfl
  | some w =>
    have hvalues := fun v hv => hs v (Window.mem_of_ofValues? hw hv)
    exact congrArg some (Window.verdict_scaled hk room hvalues name s.unit p)

end

/-- Values that are zero or of magnitude between `2^(-800)` and `2^800`, all multiplied by `2^k` for
a `k` of at most 100 in magnitude, are exactly so many times as large. Then so are, under any
policy, the current value and any baseline; the estimate has the same numbers of candidates, and the
verdict the same status, reason and ratio. -/
theorem verdict_across_units {k : Int} (hk : k.natAbs ≤ 100) {s : Series}
    (moderate : ∀ v ∈ s.values, v.IsModerate) (name : String) (p : Policy) :
    (∀ v ∈ s.values, MultipliesBy k v) ∧
    (∀ w, Window.ofValues? s.values p.windowSize.toNat = some w →
      Window.ofValues? (s.scaled k).values p.windowSize.toNat = some (w.scaled k) ∧
        (w.scaled k).estimate p = (w.estimate p).scaled k) ∧
    (s.scaled k).verdict? name p = (s.verdict? name p).map (Verdict.scaled k) ∧
    ∀ v, s.verdict? name p = some v →
      MultipliesBy k v.current ∧ ∀ b, v.baseline = some b → MultipliesBy k b := by
  -- room for the fences, which are the widest and finest of all intermediate values
  have room : HasRoom 220 (1874 + 4) := ⟨by decide, by decide⟩
  have hgrid : ∀ v ∈ s.values, OnGrid (220 + 2) 1874 v := fun v hv => (moderate v hv).onGrid
  refine ⟨?_, ?_, Series.verdict?_scaled room hgrid hk name p, ?_⟩
  · intro v hv
    exact multipliesBy hk room ((hgrid v hv).mono (by decide) (by decide))
  · intro w hw
    constructor
    · rw [Series.scaled, Window.ofValues?_scaled, hw, Option.map_some]
    · exact Window.estimate_scaled hk room (fun v hv => hgrid v (Window.mem_of_ofValues? hw hv)) p
  · intro v hv
    obtain ⟨hcurrent, hbaseline⟩ := Series.onGrid_verdict? room hgrid hv
    exact ⟨multipliesBy hk room hcurrent, fun b hb => multipliesBy hk room (hbaseline b hb)⟩

/-- The least and the greatest magnitude that are allowed, of which the greatest is an outlier. -/
def spreadWindow : Window := ⟨[0, twoPow (-800), 3, 3, 3, twoPow 800, 5], by decide⟩

theorem baseline_spreadWindow : spreadWindow.baseline = 3 := by
  have hsorted : sort spreadWindow.candidates = spreadWindow.candidates :=
    sort_eq_self (by decide +kernel)
  have hkept : Sample.withoutOutliers spreadWindow.candidates = [0, twoPow (-800), 3, 3, 3] := by
    rw [Sample.withoutOutliers, Sample.fences?, Sample.quartiles?, hsorted]
    decide +kernel
  have hretained : spreadWindow.retained = Sample.withoutOutliers spreadWindow.candidates :=
    Window.retained_eq (by rw [hkept]; exact List.cons_ne_nil _ _)
  rw [Window.baseline, hretained, hkept, Sample.median?, sort_eq_self (by decide +kernel)]
  decide +kernel

theorem verdict_across_units_spread : ∃ v,
    Series.verdict? ⟨spreadWindow.values, some "ns"⟩ "fib" ⟨20, .ofDecimal 20 2, 5⟩ = some v ∧
      v.status = .regression ∧
      Series.verdict? (Series.scaled (-100) ⟨spreadWindow.values, some "ns"⟩) "fib"
        ⟨20, .ofDecimal 20 2, 5⟩ = some (v.scaled (-100)) ∧
      MultipliesBy (-100) v.current ∧ MultipliesBy (-100) (3 : Double) := by
  have hverdict := @Series.verdict?_of_pos ⟨spreadWindow.values, some "ns"⟩ "fib"
    ⟨20, .ofDecimal 20 2, 5⟩ spreadWindow rfl (by decide)
    (by rw [baseline_spreadWindow]; decide +kernel)
  rw [baseline_spreadWindow] at hverdict
  obtain ⟨-, -, hscaled, hexact⟩ := verdict_across_units (k := -100)
    (s := ⟨spreadWindow.values, some "ns"⟩) (by decide) (by decide +kernel) "fib"
    ⟨20, .ofDecimal 20 2, 5⟩
  rw [hverdict, Option.map_some] at hscaled
  obtain ⟨hcurrent, hbaseline⟩ := hexact _ hverdict
  exact ⟨_, hverdict, by decide +kernel, hscaled, hcurrent, hbaseline 3 rfl⟩

end Slowdown
