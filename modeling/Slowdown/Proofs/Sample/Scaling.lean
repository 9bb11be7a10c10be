/-
Samples multiplied by a power of two. Where the multiples are exact, so are those of every sum,
difference, product and mean that the statistics of the sample go through: the median, the quartiles
and the fences are multiplied likewise, and the same values are outliers.
-/
import Slowdown.Proofs.Double.TwoPow
import Slowdown.Proofs.Sample.Ranks

namespace Slowdown

open Double

namespace Sample

variable {low high : Nat}

/-! ## The grid of the statistics -/

theorem onGrid_middle? {s : List Double} {m : Double} (room : HasRoom low (high + 1))
    (hs : ∀ v ∈ s, OnGrid (low + 1) high v) (hm : middle? s = some m) :
    OnGrid low (high + 1) m := by
  have hne : s ≠ [] := by
    rintro rfl
    simp [middle?] at hm
  obtain ⟨a, b, ha, hb, ⟨-, -, hm'⟩ | ⟨-, hm'⟩⟩ := middle?_eq hne
  · obtain rfl := Option.some.inj (hm'.symm.trans hm)
    exact (hs b (mem_of_rank hb)).mono (Nat.le_succ low) (Nat.le_succ high)
  · obtain rfl := Option.some.inj (hm'.symm.trans hm)
    have room' := room.mono (Nat.le_succ low) (Nat.le_refl _)
    exact ((hs a (mem_of_rank ha)).add (hs b (mem_of_rank hb)) room').half room

theorem onGrid_median? {values : List Double} {m : Double} (room : HasRoom low (high + 1))
    (hv : ∀ v ∈ values, OnGrid (low + 1) high v) (hm : median? values = some m) :
    OnGrid low (high + 1) m :=
  onGrid_middle? room (fun v h => hv v (mem_sort.1 h)) hm

theorem onGrid_quartiles? {values : List Double} {first third : Double}
    (room : HasRoom low (high + 1)) (hv : ∀ v ∈ values, OnGrid (low + 1) high v)
    (hq : quartiles? values = some (first, third)) :
    OnGrid low (high + 1) first ∧ OnGrid low (high + 1) third := by
  unfold quartiles? at hq
  split_ifs at hq
  dsimp only at hq
  split at hq
  · rename_i hfirst hthird
    cases hq
    exact ⟨onGrid_middle? room (fun v h => hv v (mem_sort.1 (List.mem_of_mem_take h))) hfirst,
      onGrid_middle? room (fun v h => hv v (mem_sort.1 (List.mem_of_mem_drop h))) hthird⟩
  · cases hq

theorem units_fenceFactor : (fenceFactor.units : ℚ) = 3 / 2 * unitsPerOne := by
  have htwice : 2 * fenceFactor.units = 3 * unitsPerOne := by decide +kernel
  have hrat : (2 : ℚ) * fenceFactor.units = 3 * unitsPerOne := by exact_mod_cast htwice
  linarith

theorem units_fenceFactor_mul {x : Double} (hx : x.isFinite = true) :
    (fenceFactor * x).units = nearestUnits (3 / 2 * x.units) := by
  have hone := unitsPerOne_pos_rat.ne'
  have hwide : (fenceFactor.units * x.units : ℚ) / unitsPerOne = 3 / 2 * x.units := by
    rw [units_fenceFactor]
    field_simp
  rw [units_mul isFinite_fenceFactor hx, units_ofRatio _ unitsPerOne_pos]
  push_cast
  rw [hwide]

theorem exists_wide {x : Double} (hx : OnGrid (low + 1) high x) :
    ∃ m : Int, (3 / 2 * x.units : ℚ) = m ∧ (2 : Int) ^ low ∣ m ∧ m.natAbs ≤ 2 ^ (high + 1) := by
  obtain ⟨m, hm, hdvd, hle⟩ := hx.exists_half
  refine ⟨3 * m, ?_, Dvd.dvd.mul_left hdvd 3, ?_⟩
  · rw [hm]
    push_cast
    ring
  · rw [pow_succ]
    omega

theorem onGrid_wide {x : Double} (room : HasRoom low (high + 1)) (hx : OnGrid (low + 1) high x) :
    OnGrid low (high + 1) (fenceFactor * x) := by
  obtain ⟨m, hm, hdvd, hle⟩ := exists_wide hx
  exact onGrid_of_rounded (by rw [units_fenceFactor_mul hx.finite, hm]) hdvd hle room

/-- Fences are on a grid four times as fine, up to sixteen times as large. -/
theorem onGrid_fences? {values : List Double} {lower upper : Double} (room : HasRoom low (high + 4))
    (hv : ∀ v ∈ values, OnGrid (low + 2) high v) (hf : fences? values = some (lower, upper)) :
    OnGrid low (high + 4) lower ∧ OnGrid low (high + 4) upper := by
  obtain ⟨⟨first, third⟩, hq, hfences⟩ := Option.map_eq_some_iff.1 hf
  cases hfences
  obtain ⟨hfirst, hthird⟩ := onGrid_quartiles? (room.mono (by omega) (by omega)) hv hq
  have hrange := hthird.sub hfirst (room.mono (by omega) (by omega))
  have hwide := onGrid_wide (room.mono (by omega) (by omega)) hrange
  exact ⟨(hfirst.mono (by omega) (by omega)).sub hwide room,
    (hthird.mono (by omega) (by omega)).add hwide room⟩

/-! ## Multiples of the statistics -/

theorem middle?_map {f : Double → Double} {s : List Double}
    (h : ∀ x ∈ s, ∀ y ∈ s, (f x + f y) / 2 = f ((x + y) / 2)) :
    middle? (s.map f) = (middle? s).map f := by
  by_cases hne : s = []
  · subst hne
    rfl
  · obtain ⟨a, b, ha, hb, hcases⟩ := middle?_eq hne
    obtain ⟨a', b', ha', hb', hcases'⟩ := middle?_eq (s := s.map f) (by simpa using hne)
    rw [List.length_map] at ha' hb' hcases'
    rw [List.getElem?_map, ha] at ha'
    rw [List.getElem?_map, hb] at hb'
    obtain rfl : f a = a' := Option.some.inj ha'
    obtain rfl : f b = b' := Option.some.inj hb'
    -- the two samples have one size, so the parities have to agree
    rcases hcases with ⟨hodd, -, hm⟩ | ⟨heven, hm⟩
    · rcases hcases' with ⟨-, -, hm'⟩ | ⟨heven, -⟩
      · rw [hm, hm', Option.map_some]
      · omega
    · rcases hcases' with ⟨hodd, -⟩ | ⟨-, hm'⟩
      · omega
      · rw [hm, hm', Option.map_some, h a (mem_of_rank ha) b (mem_of_rank hb)]

section

variable {k : Int} (hk : k.natAbs ≤ 100)

include hk

theorem wide_mul_twoPow {x : Double} (room : HasRoom low (high + 1))
    (hx : OnGrid (low + 1) high x) :
    fenceFactor * x * twoPow k = fenceFactor * (x * twoPow k) := by
  obtain ⟨m, hm, hdvd, hle⟩ := exists_wide hx
  have hx' := hx.mono (Nat.le_succ low) (Nat.le_succ high)
  have hxf := isFinite_mul_twoPow hk room hx'
  refine mul_twoPow_eq hk room hdvd hle (by rw [units_fenceFactor_mul hx.finite, hm]) ?_ ?_
  · rw [units_fenceFactor_mul hxf, units_mul_twoPow hk room hx', ← mul_assoc, hm]
  · rw [mul_finite isFinite_fenceFactor hxf, mul_finite isFinite_fenceFactor hx.finite,
      negative_mul_twoPow hk hx.finite]
    rfl

variable {values : List Double}

theorem sort_map_twoPow (room : HasRoom low high) (hv : ∀ v ∈ values, OnGrid low high v) :
    sort (values.map (· * twoPow k)) = (sort values).map (· * twoPow k) := by
  refine (List.map_mergeSort fun x hx y hy => ?_).symm
  rw [decide_eq_decide]
  exact (rank_mul_twoPow_le_iff hk room (hv x hx) (hv y hy)).symm

theorem middle?_map_twoPow (room : HasRoom low (high + 1))
    (hv : ∀ v ∈ values, OnGrid (low + 1) high v) :
    middle? (values.map (· * twoPow k)) = (middle? values).map (· * twoPow k) :=
  middle?_map fun x hx y hy => (mean_mul_twoPow hk room (hv x hx) (hv y hy)).symm

theorem median?_map_twoPow (room : HasRoom low (high + 1))
    (hv : ∀ v ∈ values, OnGrid (low + 1) high v) :
    median? (values.map (· * twoPow k)) = (median? values).map (· * twoPow k) := by
  have room' := room.mono (Nat.le_succ low) (Nat.le_succ high)
  rw [median?, median?, sort_map_twoPow hk room' hv]
  exact middle?_map_twoPow hk room fun v h => hv v (mem_sort.1 h)

theorem quartiles?_map_twoPow (room : HasRoom low (high + 1))
    (hv : ∀ v ∈ values, OnGrid (low + 1) high v) :
    quartiles? (values.map (· * twoPow k)) =
      (quartiles? values).map fun (first, third) => (first * twoPow k, third * twoPow k) := by
  have room' := room.mono (Nat.le_succ low) (Nat.le_succ high)
  unfold quartiles?
  rw [List.length_map, sort_map_twoPow hk room' hv]
  dsimp only
  rw [← List.map_take, ← List.map_drop,
    middle?_map_twoPow hk room fun v h => hv v (mem_sort.1 (List.mem_of_mem_take h)),
    middle?_map_twoPow hk room fun v h => hv v (mem_sort.1 (List.mem_of_mem_drop h))]
  split_ifs
  · rfl
  · cases middle? ((sort values).take (values.length / 2)) <;>
      cases middle? ((sort values).drop ((values.length + 1) / 2)) <;> rfl

theorem fences?_map_twoPow (room : HasRoom low (high + 4))
    (hv : ∀ v ∈ values, OnGrid (low + 2) high v) :
    fences? (values.map (· * twoPow k)) =
      (fences? values).map fun (lower, upper) => (lower * twoPow k, upper * twoPow k) := by
  have room' : HasRoom (low + 1) (high + 1) := room.mono (by omega) (by omega)
  rw [fences?, fences?, quartiles?_map_twoPow hk room' hv]
  cases hq : quartiles? values with
  | none => simp only [Option.map_none]
  | some quartiles =>
    obtain ⟨first, third⟩ := quartiles
    obtain ⟨hfirst, hthird⟩ := onGrid_quartiles? room' hv hq
    -- from the quartiles to the fences, each operation leaves room for the next
    have hrange := hthird.sub hfirst (room.mono (by omega) (by omega))
    have hwide := onGrid_wide (room.mono (by omega) (by omega)) hrange
    have hrangek := sub_mul_twoPow hk (room.mono (by omega) (by omega)) hthird hfirst
    have hwidek := wide_mul_twoPow hk (room.mono (by omega) (by omega)) hrange
    have hlower := sub_mul_twoPow hk room (hfirst.mono (by omega) (by omega)) hwide
    have hupper := add_mul_twoPow hk room (hthird.mono (by omega) (by omega)) hwide
    simp only [Option.map_some]
    rw [hlower, hupper, hwidek, hrangek]

theorem withoutOutliers_map_twoPow (room : HasRoom low (high + 4))
    (hv : ∀ v ∈ values, OnGrid (low + 2) high v) :
    withoutOutliers (values.map (· * twoPow k)) = (withoutOutliers values).map (· * twoPow k) := by
  rw [withoutOutliers, withoutOutliers, fences?_map_twoPow hk room hv]
  cases hf : fences? values with
  | none => rfl
  | some fences =>
    obtain ⟨lower, upper⟩ := fences
    obtain ⟨hlower, hupper⟩ := onGrid_fences? room hv hf
    show (values.map (· * twoPow k)).filter
      (fun v => lower * twoPow k ≤ v ∧ v ≤ upper * twoPow k) = _
    rw [List.filter_map]
    refine congrArg (List.map _) (List.filter_congr fun v hmem => ?_)
    have hgrid := (hv v hmem).mono (Nat.le_add_right low 2) (Nat.le_add_right high 4)
    rw [Function.comp_apply, decide_eq_decide, mul_twoPow_le_iff hk room hlower hgrid,
      mul_twoPow_le_iff hk room hgrid hupper]

end

end Sample

end Slowdown
