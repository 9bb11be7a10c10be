/-
Old runs are forgotten: the verdict on a benchmark comes from the last of its measurements, as
many as the policy looks at, in whatever runs they are. Only its unit is remembered for longer.
-/
import Slowdown.Proofs.History.Log
import Slowdown.Proofs.Verdict.Coverage

namespace Slowdown

/-! ## The end of a series -/

section

variable {α : Type}

/-- The end of a longer list is that of its end. -/
theorem drop_length_sub_append {n : Nat} (older : List α) {newer : List α}
    (h : n ≤ newer.length) :
    (older ++ newer).drop ((older ++ newer).length - n) = newer.drop (newer.length - n) := by
  have holder : older.length ≤ (older ++ newer).length - n := by
    rw [List.length_append]
    omega
  rw [List.drop_append, List.drop_eq_nil_of_le holder, List.nil_append, List.length_append]
  congr 1
  omega

theorem drop_length_sub_drop (n : Nat) (as : List α) :
    (as.drop (as.length - n)).drop ((as.drop (as.length - n)).length - n) =
      as.drop (as.length - n) := by
  have hlength : (as.drop (as.length - n)).length - n = 0 := by
    rw [List.length_drop]
    omega
  rw [hlength, List.drop_zero]

theorem forall₂_toList {R : α → α → Prop} {a b : Option α} (h : Option.Rel R a b) :
    List.Forall₂ R a.toList b.toList := by
  cases h with
  | none => exact .nil
  | some hab => exact .cons hab .nil

end

/-- A window is made of the values that stay when the others are dropped, if any do. -/
theorem Window.ofValues?_eq (values : List Double) (size : Nat) :
    ofValues? values size =
      if h : values.drop (values.length - max size 1) = [] then none else some ⟨_, h⟩ := by
  have hempty : values.drop (values.length - max size 1) = [] ↔ values = [] := by
    rw [List.drop_eq_nil_iff, ← List.length_eq_zero_iff]
    omega
  unfold ofValues?
  simp only [hempty]

theorem Window.ofValues?_congr {values values' : List Double} {size : Nat} (hsize : 1 ≤ size)
    (h : values'.drop (values'.length - size) = values.drop (values.length - size)) :
    ofValues? values' size = ofValues? values size := by
  have hmax : max size 1 = size := by omega
  rw [ofValues?_eq, ofValues?_eq]
  simp only [hmax, h]

/-! ## Verdicts but for the unit -/

/-- Two verdicts that say the same of a benchmark, except perhaps its unit. -/
structure Verdict.SameJudgement (v v' : Verdict) : Prop where
  name : v.name = v'.name
  status : v.status = v'.status
  current : v.current = v'.current
  baseline : v.baseline = v'.baseline
  ratio : v.ratio = v'.ratio
  reason : v.reason = v'.reason

theorem Estimate.sameJudgement_verdict (e : Estimate) (name : String) (unit unit' : Option String)
    (p : Policy) : (e.verdict name unit p).SameJudgement (e.verdict name unit' p) := by
  cases e <;> exact ⟨rfl, rfl, rfl, rfl, rfl, rfl⟩

/-- Series that end alike are judged alike. -/
theorem Series.sameJudgement_verdict? {s s' : Series} {p : Policy}
    (hsize : 1 ≤ p.windowSize.toNat)
    (h : s.values.drop (s.values.length - p.windowSize.toNat) =
      s'.values.drop (s'.values.length - p.windowSize.toNat)) (name : String) :
    Option.Rel Verdict.SameJudgement (s.verdict? name p) (s'.verdict? name p) := by
  rw [verdict?, verdict?, Window.ofValues?_congr hsize h]
  cases Window.ofValues? s'.values p.windowSize.toNat with
  | none => exact .none
  | some w => exact .some ((w.estimate p).sameJudgement_verdict name s.unit s'.unit p)

/-! ## Whole histories -/

namespace History

/-- The verdicts under a name are the one on what was measured under it. -/
theorem filter_assess_ofRuns {runs : List Run} {p : Policy} {vs : List Verdict}
    (hvs : (ofRuns runs).assess p = .ok vs) (name : String) :
    (vs.filter fun v => v.name == name) =
      ((Series.ofMeasurements (measured runs name)).verdict? name p).toList := by
  rw [filter_assess hvs, find?_ofRuns]
  split_ifs with hnone
  · rw [Series.verdict?_eq_none_iff.2 (by rw [hnone]; rfl)]
    rfl
  · rfl

/-- The end of a history decides on a benchmark measured often enough in it. -/
theorem sameJudgement_of_newer {p : Policy} (valid : p.flaw? = none) (older : List Measurement)
    {newer : List Measurement} (h : p.windowSize.toNat ≤ newer.length) (name : String) :
    ∃ v v', (Series.ofMeasurements (older ++ newer)).verdict? name p = some v ∧
      (Series.ofMeasurements newer).verdict? name p = some v' ∧ v.SameJudgement v' ∧
      ((∃ m ∈ newer, ∃ u, m.unit = some u ∧ u ≠ "") → v.unit = v'.unit) := by
  obtain ⟨hmin, hwindow, -, -⟩ := Policy.flaw?_eq_none_iff.1 valid
  have hend : (Series.ofMeasurements (older ++ newer)).values.drop
      ((Series.ofMeasurements (older ++ newer)).values.length - p.windowSize.toNat) =
      (Series.ofMeasurements newer).values.drop
        ((Series.ofMeasurements newer).values.length - p.windowSize.toNat) := by
    rw [Series.values_append]
    exact drop_length_sub_append _ (by rwa [Series.length_values])
  have hsame := Series.sameJudgement_verdict? (by omega) hend name
  cases hv : (Series.ofMeasurements (older ++ newer)).verdict? name p with
  | none =>
    -- there is a measurement at least
    have hempty := congrArg List.length (Series.verdict?_eq_none_iff.1 hv)
    rw [Series.length_values, List.length_append, List.length_nil] at hempty
    omega
  | some v =>
    rw [hv] at hsame
    obtain ⟨v', hv', hvv'⟩ : ∃ v', (Series.ofMeasurements newer).verdict? name p = some v' ∧
        v.SameJudgement v' := by
      generalize (Series.ofMeasurements newer).verdict? name p = found at hsame ⊢
      cases hsame with
      | some hvv' => exact ⟨_, rfl, hvv'⟩
    obtain ⟨-, hunit, -⟩ := Series.verdict?_spec valid hv
    obtain ⟨-, hunit', -⟩ := Series.verdict?_spec valid hv'
    refine ⟨v, v', rfl, hv', hvv', fun hgiven => ?_⟩
    rw [hunit, hunit', Series.unit_ofMeasurements_append older hgiven]

/-- Of some measurements the last ones decide. -/
theorem forall₂_last_measurements {p : Policy} (valid : p.flaw? = none) (ms : List Measurement)
    (name : String) :
    List.Forall₂ Verdict.SameJudgement ((Series.ofMeasurements ms).verdict? name p).toList
      ((Series.ofMeasurements (ms.drop (ms.length - min ms.length p.windowSize.toNat))).verdict?
        name p).toList := by
  obtain ⟨hmin, hwindow, -, -⟩ := Policy.flaw?_eq_none_iff.1 valid
  have hlast : ms.length - min ms.length p.windowSize.toNat = ms.length - p.windowSize.toNat := by
    omega
  refine forall₂_toList (Series.sameJudgement_verdict? (by omega) ?_ name)
  rw [hlast, Series.values_drop, ← Series.length_values, drop_length_sub_drop]

/-- Under a valid policy a benchmark measured often enough in the newer runs has the same verdict
with the older ones and without, but for a unit that only the older ones give. However often it
was measured, it is judged by its last measurements alone. -/
theorem old_runs_forgotten {p : Policy} (valid : p.flaw? = none) (older newer : List Run) :
    ∃ vs vs', (ofRuns (older ++ newer)).assess p = .ok vs ∧ (ofRuns newer).assess p = .ok vs' ∧
      ∀ name,
        (p.windowSize.toNat ≤ (measured newer name).length →
          ∃ v v', (vs.filter fun v => v.name == name) = [v] ∧
            (vs'.filter fun v => v.name == name) = [v'] ∧ v.SameJudgement v' ∧
            ((∃ m ∈ measured newer name, ∃ u, m.unit = some u ∧ u ≠ "") → v.unit = v'.unit)) ∧
        List.Forall₂ Verdict.SameJudgement (vs.filter fun v => v.name == name)
          ((Series.ofMeasurements ((measured (older ++ newer) name).drop
            ((measured (older ++ newer) name).length -
              min (measured (older ++ newer) name).length p.windowSize.toNat))).verdict?
            name p).toList := by
  obtain ⟨vs, hvs⟩ := (ofRuns (older ++ newer)).exists_assess valid
  obtain ⟨vs', hvs'⟩ := (ofRuns newer).exists_assess valid
  refine ⟨vs, vs', hvs, hvs', fun name => ⟨fun henough => ?_, ?_⟩⟩
  · -- enough newer values fill the window, which then holds none of the older ones
    obtain ⟨v, v', hv, hv', hjudgement, hunit⟩ :=
      sameJudgement_of_newer valid (measured older name) henough name
    refine ⟨v, v', ?_, ?_, hjudgement, hunit⟩
    · rw [filter_assess_ofRuns hvs, measured_append, hv]
      rfl
    · rw [filter_assess_ofRuns hvs', hv']
      rfl
  · rw [filter_assess_ofRuns hvs]
    exact forall₂_last_measurements valid _ name

/-- A benchmark is measured twice in the newer runs, and in an older one, which alone gives its
unit. -/
theorem old_runs_forgotten_two :
    Policy.flaw? ⟨2, .ofDecimal 20 2, 2⟩ = none ∧
    ∃ vs vs', (ofRuns ([⟨[⟨"fib", 9, some "ms"⟩, ⟨"gcd", 5, none⟩]⟩] ++
          [⟨[⟨"fib", 1, none⟩, ⟨"gcd", 5, none⟩]⟩, ⟨[⟨"fib", 2, none⟩]⟩])).assess
        ⟨2, .ofDecimal 20 2, 2⟩ = .ok vs ∧
      (ofRuns [⟨[⟨"fib", 1, none⟩, ⟨"gcd", 5, none⟩]⟩, ⟨[⟨"fib", 2, none⟩]⟩]).assess
        ⟨2, .ofDecimal 20 2, 2⟩ = .ok vs' ∧
      ∃ v v', (vs.filter fun v => v.name == "fib") = [v] ∧
        (vs'.filter fun v => v.name == "fib") = [v'] ∧ v.SameJudgement v' := by
  have valid : Policy.flaw? ⟨2, .ofDecimal 20 2, 2⟩ = none := by decide +kernel
  obtain ⟨vs, vs', hvs, hvs', h⟩ := old_runs_forgotten valid
    [⟨[⟨"fib", 9, some "ms"⟩, ⟨"gcd", 5, none⟩]⟩]
    [⟨[⟨"fib", 1, none⟩, ⟨"gcd", 5, none⟩]⟩, ⟨[⟨"fib", 2, none⟩]⟩]
  obtain ⟨v, v', hv, hv', hjudgement, -⟩ := (h "fib").1 (by decide)
  exact ⟨valid, vs, vs', hvs, hvs', v, v', hv, hv', hjudgement⟩

end History

end Slowdown
