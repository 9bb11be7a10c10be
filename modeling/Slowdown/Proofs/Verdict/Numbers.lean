/-
The numbers of a report, from the text of a history file on: the values read are finite, and so
no baseline and no ratio is NaN, though a sum of two values may overflow on the way.
-/
import Slowdown.Report
import Slowdown.Proofs.Archive.Grammar
import Slowdown.Proofs.Baseline.Ready
import Slowdown.Proofs.History.Log
import Slowdown.Proofs.Verdict.Coverage

namespace Slowdown

/-! ## Values of an archive -/

namespace Archive

open Json (Readable)

/-- What is read inside a list is read from one of its items. -/
theorem WritesList.exists_item {α : Type} {Writes : Json → α → Prop} {room : Nat} {v : Json}
    {xs : List α} (h : WritesList Writes v xs) (within : Readable room v) {x : α} (hx : x ∈ xs) :
    ∃ item, Readable (room - 1) item ∧ Writes item x := by
  obtain ⟨h⟩ := h
  have inner := (Json.readable_array.1 within).2
  clear within
  induction h with
  | nil => cases hx
  | cons hitem _ ih =>
    rcases List.mem_cons.1 hx with rfl | hx
    · exact ⟨_, inner _ List.mem_cons_self, hitem⟩
    · exact ih hx fun v hv => inner v (List.mem_cons_of_mem _ hv)

theorem WritesMeasurement.isFinite {room : Nat} {v : Json} {m : Measurement}
    (h : WritesMeasurement v m) (within : Readable room v) : m.value.isFinite = true := by
  cases h with
  | members _ hvalue _ =>
    obtain ⟨-, inner⟩ := Json.readable_object.1 within
    have inRange := Json.readable_number.1 (inner _ (Json.mem_of_member? hvalue))
    exact Json.Number.isFinite_toDouble inRange
  | pair =>
    obtain ⟨-, inner⟩ := Json.readable_array.1 within
    exact Json.Number.isFinite_toDouble (Json.readable_number.1 (inner _ (by simp)))
  | triple _ =>
    obtain ⟨-, inner⟩ := Json.readable_array.1 within
    exact Json.Number.isFinite_toDouble (Json.readable_number.1 (inner _ (by simp)))

theorem WritesRun.isFinite {room : Nat} {v : Json} {r : Run} (h : WritesRun v r)
    (within : Readable room v) : ∀ m ∈ r.measurements, m.value.isFinite = true := by
  intro m hm
  cases h with
  | bare _ => cases hm
  | members hbenches h =>
    obtain ⟨-, inner⟩ := Json.readable_object.1 within
    obtain ⟨item, hitem, hwrites⟩ := h.exists_item (inner _ (Json.mem_of_member? hbenches)) hm
    exact hwrites.isFinite hitem
  | empty => cases hm
  | single h =>
    obtain ⟨-, inner⟩ := Json.readable_array.1 within
    obtain ⟨item, hitem, hwrites⟩ := h.exists_item (inner _ List.mem_cons_self) hm
    exact hwrites.isFinite hitem

/-- Every value that is had from a text is finite. -/
theorem isFinite_of_suiteRuns {text : String} {a : Archive} {suite : String} {runs : List Run}
    (hparse : parse text = .ok a) (hruns : a.suiteRuns suite = .ok (some runs)) :
    ∀ r ∈ runs, ∀ m ∈ r.measurements, m.value.isFinite = true := by
  intro r hr
  obtain ⟨suites, hdocument, rfl⟩ := parse_eq_ok_iff.1 hparse
  cases hv : Json.member? suites suite with
  | none =>
    rw [suiteRuns_of_absent hv] at hruns
    cases hruns
  | some v =>
    have hwrites := ((tells_ofList suites).written suite v hv runs).1 hruns
    obtain ⟨-, inner⟩ := Json.readable_object.1 (readable_of_document hdocument)
    obtain ⟨item, hitem, hrun⟩ := hwrites.exists_item (inner _ (Json.mem_of_member? hv)) hr
    exact hrun.isFinite hitem

end Archive

/-- The values of a series are measured ones. -/
theorem History.exists_measurement {runs : List Run} {name : String} {s : Series}
    (h : (History.ofRuns runs).find? name = some s) {x : Double} (hx : x ∈ s.values) :
    ∃ r ∈ runs, ∃ m ∈ r.measurements, m.value = x := by
  rw [History.find?_ofRuns] at h
  split_ifs at h
  cases h
  obtain ⟨m, hm, rfl⟩ := List.mem_map.1 hx
  obtain ⟨r, hr, hmr⟩ := List.mem_flatMap.1 (List.mem_of_mem_filter hm)
  exact ⟨r, hr, m, hmr, rfl⟩

open Double

/-! ## Verdicts -/

/-- What the numbers of a verdict on finite values have to be. -/
structure Verdict.Sound (v : Verdict) (p : Policy) : Prop where
  current : v.current.isFinite = true
  baseline : ∀ b, v.baseline = some b → b.isNaN = false
  ratio : ∀ q, v.ratio = some q → q.isNaN = false
  judged : v.status ≠ .skip → ∃ b q, v.baseline = some b ∧ 0 < b ∧ v.ratio = some q ∧
    (v.status = .regression ↔ 1 + p.threshold < q)
  skipped : v.status = .skip → v.reason.isSome = true ∧ v.ratio = none

theorem Series.sound_verdict? {s : Series} {name : String} {p : Policy} {v : Verdict}
    (hfinite : ∀ x ∈ s.values, x.isFinite = true) (h : s.verdict? name p = some v) :
    v.Sound p := by
  obtain ⟨w, hw, rfl⟩ := Option.map_eq_some_iff.1 h
  have hvalues : ∀ x ∈ w.values, x.isFinite = true := fun x hx =>
    hfinite x (Window.mem_of_ofValues? hw hx)
  have hcurrent := hvalues _ w.current_mem
  have hbaseline := Window.isNaN_baseline_of_isFinite fun x hx =>
    hvalues x (Window.mem_values_of_mem_candidates hx)
  rcases w.estimate_cases p with ⟨-, _, -, he⟩ | ⟨-, -, he⟩ | ⟨-, hb, he⟩
  · rw [he]
    exact ⟨hcurrent, nofun, nofun, fun hne => absurd rfl hne, fun _ => ⟨rfl, rfl⟩⟩
  · rw [he]
    refine ⟨hcurrent, fun b hb => ?_, nofun, fun hne => absurd rfl hne, fun _ => ⟨rfl, rfl⟩⟩
    obtain rfl := Option.some.inj hb
    exact hbaseline
  · -- judged: the baseline is above zero, so the ratio is not that of two zeros or infinities
    have hpos := (Window.pos_baseline_iff hb).2 hbaseline
    have hratio := isNaN_div_of_pos hcurrent hpos
    rw [he]
    refine ⟨hcurrent, fun b hb => ?_, fun q hq => ?_, fun _ => ?_, fun hskip => ?_⟩
    · obtain rfl := Option.some.inj hb
      exact hbaseline
    · obtain rfl := Option.some.inj hq
      exact hratio
    · exact ⟨_, _, rfl, hpos, rfl, classify_eq_regression_iff⟩
    · exact absurd hskip (classify_ne_skip _ _ _)

/-- The verdicts of a report that a text leads to are sound. -/
theorem sound_of_text {text suite : String} {p : Policy} {a : Archive} {runs : List Run}
    {vs : List Verdict} (hparse : Archive.parse text = .ok a)
    (hruns : a.suiteRuns suite = .ok (some runs))
    (hassess : (History.ofRuns runs).assess p = .ok vs) :
    ∀ v ∈ (Report.ofVerdicts vs p).verdicts, v.Sound p := by
  intro v hv
  have hmem : v ∈ vs := List.mem_mergeSort.1 hv
  obtain ⟨s, hs, hverdict⟩ := History.mem_assess hassess hmem
  refine Series.sound_verdict? (fun x hx => ?_) hverdict
  obtain ⟨r, hr, m, hm, rfl⟩ := History.exists_measurement hs hx
  exact Archive.isFinite_of_suiteRuns hparse hruns r hr m hm

/-- A document of two runs, and what it writes. -/
def twoRunsText : String :=
  "\x7b\"entries\":\x7b\"fast\":[[[[\"fib\",1]]],[[[\"fib\",3]]]]\x7d\x7d"

/-- The suites of that text, with lists for objects throughout. -/
def twoRunsSuites : List (String × Json) :=
  [("fast", .array [.array [.array [.array [.string "fib", .number (.ofNat 1)]]],
    .array [.array [.array [.string "fib", .number (.ofNat 3)]]]])]

/-- The runs of its suite. -/
def twoRuns : List Run := [⟨[⟨"fib", 1, none⟩]⟩, ⟨[⟨"fib", 3, none⟩]⟩]

theorem sound_of_text_two :
    ∃ a vs, Archive.parse twoRunsText = .ok a ∧ a.suiteRuns "fast" = .ok (some twoRuns) ∧
      (History.ofRuns twoRuns).assess ⟨5, .ofDecimal 20 2, 2⟩ = .ok vs ∧ vs.length = 1 ∧
      ∀ v ∈ (Report.ofVerdicts vs ⟨5, .ofDecimal 20 2, 2⟩).verdicts,
        v.Sound ⟨5, .ofDecimal 20 2, 2⟩ := by
  have hdocument : Archive.document (Json.tokens (Archive.unwrap twoRunsText.toList)) =
      .ok (twoRunsSuites, []) := by cbv
  have hparse := Archive.parse_eq_ok_iff.2 ⟨_, hdocument, rfl⟩
  have one : (1 : Double) = (Json.Number.ofNumeral (.ofNat 1)).toDouble := by decide +kernel
  have three : (3 : Double) = (Json.Number.ofNumeral (.ofNat 3)).toDouble := by decide +kernel
  have hruns : Archive.suiteRuns ⟨.ofList twoRunsSuites⟩ "fast" = .ok (some twoRuns) := by
    rw [(Archive.tells_ofList twoRunsSuites).written "fast" _ rfl, twoRuns, one, three]
    exact ⟨.cons (.single ⟨.cons .pair .nil⟩) (.cons (.single ⟨.cons .pair .nil⟩) .nil)⟩
  have valid : Policy.flaw? ⟨5, .ofDecimal 20 2, 2⟩ = none := by decide +kernel
  obtain ⟨vs, hvs⟩ := (History.ofRuns twoRuns).exists_assess valid
  have hlength : ((History.ofRuns twoRuns).assess ⟨5, .ofDecimal 20 2, 2⟩).toOption.map
      List.length = some 1 := by decide +kernel
  rw [hvs] at hlength
  exact ⟨_, vs, hparse, hruns, hvs, Option.some.inj hlength, sound_of_text hparse hruns hvs⟩

end Slowdown
