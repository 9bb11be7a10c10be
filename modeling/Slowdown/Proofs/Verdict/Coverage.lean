/-
The verdicts on a history: which benchmarks get one, in which order, on what each depends, and
the four forms it can have.
-/
import Slowdown.Proofs.Verdict.Series
import Slowdown.Proofs.NameMap

namespace Slowdown

open Double

/-! ## Forms of a verdict -/

namespace Verdict

/-- The four ways in which a verdict can come about. -/
inductive Form where
  | insufficientHistory
  | nonPositiveBaseline
  | ok
  | regression
  deriving DecidableEq

/-- What a verdict on a series says in each form. -/
def HasForm (v : Verdict) (s : Series) (p : Policy) : Form → Prop
  | .insufficientHistory =>
    v.status = .skip ∧
      (∃ points : Size, points.toNat = s.values.length ∧
        v.reason = some (.insufficientHistory points p.minHistory)) ∧
      v.baseline = none ∧ v.ratio = none
  | .nonPositiveBaseline =>
    v.status = .skip ∧ v.reason = some .nonPositiveBaseline ∧
      (∃ b, v.baseline = some b ∧ b ≤ 0) ∧ v.ratio = none
  | .ok =>
    v.status = .ok ∧ v.reason = none ∧
      ∃ b, v.baseline = some b ∧ ¬ b ≤ 0 ∧ v.ratio = some (v.current / b) ∧
        ¬ 1 + p.threshold < v.current / b
  | .regression =>
    v.status = .regression ∧ v.reason = none ∧
      ∃ b, v.baseline = some b ∧ ¬ b ≤ 0 ∧ v.ratio = some (v.current / b) ∧
        1 + p.threshold < v.current / b

/-- Status and reason tell the forms apart. -/
theorem HasForm.unique {v : Verdict} {s : Series} {p : Policy} {f g : Form}
    (hf : v.HasForm s p f) (hg : v.HasForm s p g) : f = g := by
  cases f <;> cases g <;> simp_all [HasForm]

/-- The verdict says that there were too few values. -/
def LacksHistory (v : Verdict) : Prop :=
  ∃ points required, v.reason = some (.insufficientHistory points required)

/-- Which of its parts a verdict has. -/
structure Filled (v : Verdict) : Prop where
  skipped : v.status = .skip → (∃ reason, v.reason = some reason) ∧ v.ratio = none
  judged : v.status ≠ .skip → v.reason = none ∧ ∃ b q, v.baseline = some b ∧ v.ratio = some q
  lacking : v.baseline = none ↔ v.LacksHistory

theorem HasForm.filled {v : Verdict} {s : Series} {p : Policy} {f : Form} (h : v.HasForm s p f) :
    v.Filled := by
  cases f with
  | insufficientHistory =>
    obtain ⟨hstatus, ⟨_, -, hreason⟩, hbaseline, hratio⟩ := h
    exact ⟨fun _ => ⟨⟨_, hreason⟩, hratio⟩, fun hne => absurd hstatus hne,
      iff_of_true hbaseline ⟨_, _, hreason⟩⟩
  | nonPositiveBaseline =>
    obtain ⟨hstatus, hreason, ⟨b, hbaseline, -⟩, hratio⟩ := h
    refine ⟨fun _ => ⟨⟨_, hreason⟩, hratio⟩, fun hne => absurd hstatus hne, ?_⟩
    simp [LacksHistory, hreason, hbaseline]
  | ok | regression =>
    obtain ⟨hstatus, hreason, b, hbaseline, -, hratio, -⟩ := h
    refine ⟨fun hskip => ?_, fun _ => ⟨hreason, _, _, hbaseline, hratio⟩, ?_⟩
    · rw [hstatus] at hskip
      cases hskip
    · simp [LacksHistory, hreason, hbaseline]

end Verdict

/-! ## The verdict on a series -/

/-- The verdict on a series under a valid policy. -/
theorem Series.verdict?_spec {s : Series} {name : String} {p : Policy} {v : Verdict}
    (valid : p.flaw? = none) (h : s.verdict? name p = some v) :
    s.values.getLast? = some v.current ∧ v.unit = s.unit ∧
      ∃ form, v.HasForm s p form ∧
        (form = .insufficientHistory ↔ s.values.length < p.minHistory.toNat) := by
  obtain ⟨w, hw, rfl⟩ := Option.map_eq_some_iff.1 h
  obtain ⟨hsmall, hwhole⟩ := Window.size_lt_iff valid hw
  have hlast := Window.current_ofValues? hw
  rcases Window.estimate_cases w p with ⟨hlt, points, hpoints, he⟩ | ⟨hge, hb, he⟩ | ⟨hge, hb, he⟩
  · -- too short a window holds the whole series, so its size is that of the series
    rw [he]
    have hall : points.toNat = s.values.length := hpoints.trans (hwhole (hsmall.1 hlt))
    exact ⟨hlast, rfl, .insufficientHistory, ⟨rfl, ⟨points, hall, rfl⟩, rfl, rfl⟩,
      by simp [← hsmall, hlt]⟩
  · rw [he]
    exact ⟨hlast, rfl, .nonPositiveBaseline, ⟨rfl, rfl, ⟨_, rfl, hb⟩, rfl⟩,
      by simp [← hsmall, hge]⟩
  · rw [he]
    refine ⟨hlast, rfl, ?_⟩
    by_cases hr : 1 + p.threshold < w.current / w.baseline
    · exact ⟨.regression, ⟨classify_eq_regression_iff.2 hr, rfl, _, rfl, hb, rfl, hr⟩,
        by simp [← hsmall, hge]⟩
    · exact ⟨.ok, ⟨classify_eq_ok_iff.2 hr, rfl, _, rfl, hb, rfl, hr⟩, by simp [← hsmall, hge]⟩

/-! ## The verdicts on a history -/

theorem History.assess_eq_ok_iff {h : History} {p : Policy} {vs : List Verdict} :
    h.assess p = .ok vs ↔ p.flaw? = none ∧
      vs = h.toList.filterMap fun (name, series) => series.verdict? name p := by
  unfold History.assess
  cases p.flaw? <;> simp [eq_comm]

theorem History.assess_eq_error_iff {h : History} {p : Policy} {flaw : Policy.Flaw} :
    h.assess p = .error flaw ↔ p.flaw? = some flaw := by
  unfold History.assess
  cases p.flaw? <;> simp

theorem History.exists_assess (h : History) {p : Policy} (valid : p.flaw? = none) :
    ∃ vs, h.assess p = .ok vs :=
  ⟨_, History.assess_eq_ok_iff.2 ⟨valid, rfl⟩⟩

/-- The verdicts under a name are the one on its series. -/
theorem History.filter_assess {h : History} {p : Policy} {vs : List Verdict}
    (hvs : h.assess p = .ok vs) (name : String) :
    vs.filter (fun v => v.name == name) =
      ((h.find? name).bind fun s => s.verdict? name p).toList := by
  obtain ⟨-, rfl⟩ := History.assess_eq_ok_iff.1 hvs
  have named : ∀ row : String × Series,
      (row.2.verdict? row.1 p).filter (fun v => v.name == name) =
        if (row.1 == name) = true then row.2.verdict? row.1 p else none := by
    intro row
    cases hv : row.2.verdict? row.1 p with
    | none => simp
    | some v => simp [Option.filter, Series.name_verdict? hv]
  -- choosing verdicts by name is choosing rows by name, and there is at most one of these
  rw [History.toList, List.filter_filterMap]
  simp only [named]
  rw [← List.filterMap_filter, NameMap.filter_rows, History.find?]
  cases h.series.find? name with
  | none => rfl
  | some s =>
    dsimp only [Option.map_some, Option.toList_some, Option.bind_some]
    rw [List.filterMap_cons, List.filterMap_nil]
    cases s.verdict? name p <;> rfl

theorem History.mem_assess {h : History} {p : Policy} {vs : List Verdict} {v : Verdict}
    (hvs : h.assess p = .ok vs) (hv : v ∈ vs) :
    ∃ s, h.find? v.name = some s ∧ s.verdict? v.name p = some v := by
  have hmem : v ∈ vs.filter fun u => u.name == v.name := List.mem_filter.2 ⟨hv, by simp⟩
  rw [History.filter_assess hvs, Option.mem_toList] at hmem
  exact Option.bind_eq_some_iff.1 hmem

theorem History.assess_ascending {h : History} {p : Policy} {vs : List Verdict}
    (hvs : h.assess p = .ok vs) :
    vs.Pairwise fun a b => utf8Bytes a.name < utf8Bytes b.name := by
  obtain ⟨-, rfl⟩ := History.assess_eq_ok_iff.1 hvs
  refine h.series.ascending.filterMap _ fun a b hab v hv u hu => ?_
  rw [Series.name_verdict? hv, Series.name_verdict? hu]
  exact utf8Bytes_lt_iff.2 hab

theorem History.filled_of_assess {h : History} {p : Policy} {vs : List Verdict} {v : Verdict}
    (hvs : h.assess p = .ok vs) (hv : v ∈ vs) : v.Filled := by
  obtain ⟨s, -, hverdict⟩ := History.mem_assess hvs hv
  obtain ⟨-, -, form, hform, -⟩ := Series.verdict?_spec (History.assess_eq_ok_iff.1 hvs).1 hverdict
  exact hform.filled

/-- What the verdicts on a history have to be under a valid policy. -/
structure History.Covered (h : History) (p : Policy) (vs : List Verdict) : Prop where
  ascending : vs.Pairwise fun a b => utf8Bytes a.name < utf8Bytes b.name
  /-- One for each series, but none for an empty one. -/
  one_each : ∀ name s, h.find? name = some s →
    (vs.filter fun v => v.name == name).length = if s.values = [] then 0 else 1
  /-- About the newest value of a series, in exactly one form. -/
  formed : ∀ v ∈ vs, ∃ s, h.find? v.name = some s ∧ s.values.getLast? = some v.current ∧
    v.unit = s.unit ∧ (∃! form, v.HasForm s p form) ∧
    (v.HasForm s p .insufficientHistory ↔ s.values.length < p.minHistory.toNat)

theorem History.covered_of_assess {h : History} {p : Policy} {vs : List Verdict}
    (hvs : h.assess p = .ok vs) : h.Covered p vs where
  ascending := History.assess_ascending hvs
  one_each name s hs := by
    rw [History.filter_assess hvs, hs, Option.bind_some]
    split_ifs with hempty
    · rw [Series.verdict?_eq_none_iff.2 hempty]; rfl
    · obtain ⟨v, hv⟩ := Option.ne_none_iff_exists'.1 fun hn =>
        hempty (Series.verdict?_eq_none_iff.1 hn)
      rw [hv]; rfl
  formed v hv := by
    obtain ⟨s, hs, hsv⟩ := History.mem_assess hvs hv
    obtain ⟨hcurrent, hunit, form, hform, hiff⟩ :=
      Series.verdict?_spec (History.assess_eq_ok_iff.1 hvs).1 hsv
    refine ⟨s, hs, hcurrent, hunit, ⟨form, hform, fun g hg => hg.unique hform⟩, ?_⟩
    rw [← hiff]
    exact ⟨fun hg => hform.unique hg, fun hf => hf ▸ hform⟩

/-- An assessment fails exactly under an invalid policy. Otherwise its verdicts cover the
history, and the verdict under a name depends on the series under that name only. -/
theorem History.assess_covered (h : History) (p : Policy) :
    (∀ flaw, h.assess p = .error flaw ↔ p.flaw? = some flaw) ∧
    (p.flaw? = none ↔ 1 ≤ p.minHistory.toNat ∧ p.minHistory.toNat ≤ p.windowSize.toNat ∧
      p.threshold.isFinite = true ∧ 0 ≤ p.threshold) ∧
    (p.flaw? = none → ∃ vs, h.assess p = .ok vs ∧ h.Covered p vs ∧
      ∀ (h' : History) (name : String), h'.find? name = h.find? name →
        ∃ vs', h'.assess p = .ok vs' ∧
          (vs'.filter fun v => v.name == name) = vs.filter fun v => v.name == name) := by
  refine ⟨fun _ => History.assess_eq_error_iff, Policy.flaw?_eq_none_iff, fun valid => ?_⟩
  obtain ⟨vs, hvs⟩ := h.exists_assess valid
  refine ⟨vs, hvs, History.covered_of_assess hvs, fun h' name hsame => ?_⟩
  obtain ⟨vs', hvs'⟩ := h'.exists_assess valid
  exact ⟨vs', hvs', by rw [History.filter_assess hvs', History.filter_assess hvs, hsame]⟩

/-- Of an empty series, one with a regression and a short one, the last two have a verdict. -/
theorem History.assess_covered_mixed :
    ∃ vs, (History.ofPairs [("fib", [1, 1, 3]), ("acc", []), ("gcd", [nan])]).assess
        ⟨5, .ofDecimal 20 2, 3⟩ = .ok vs ∧
      (vs.filter fun v => v.name == "acc").length = 0 ∧
      (vs.filter fun v => v.name == "fib").length = 1 ∧
      (vs.filter fun v => v.name == "gcd").length = 1 := by
  obtain ⟨-, -, h⟩ := History.assess_covered
    (History.ofPairs [("fib", [1, 1, 3]), ("acc", []), ("gcd", [nan])]) ⟨5, .ofDecimal 20 2, 3⟩
  obtain ⟨vs, hvs, hcovered, -⟩ := h (by decide +kernel)
  refine ⟨vs, hvs, hcovered.one_each "acc" ⟨[], none⟩ ?_,
    hcovered.one_each "fib" ⟨[1, 1, 3], none⟩ ?_, hcovered.one_each "gcd" ⟨[nan], none⟩ ?_⟩ <;>
  · rw [History.find?, History.ofPairs, NameMap.find?_ofList]
    simp

end Slowdown
