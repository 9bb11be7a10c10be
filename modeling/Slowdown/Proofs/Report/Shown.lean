/-
What a report shows of its verdicts: their own numbers, and where there is none a reason or a
placeholder. The default for a number that is absent is never shown.
-/
import Slowdown.Proofs.Report.Table
import Slowdown.Proofs.Report.Views
import Slowdown.Proofs.Verdict.Coverage

namespace Slowdown

namespace Report

open Decimal (fixed)
open Double (nan)

/-! ## Console -/

/-- The line of a verdict around its detail. -/
def consoleLineOf (v : Verdict) (detail : String) : String :=
  "  " ++ padded 4 v.status.text ++ "  " ++ v.name ++ ": " ++ detail

/-- The detail of a benchmark that was judged. -/
def numbersText (current baseline ratio : String) : String :=
  "current=" ++ current ++ " baseline=" ++ baseline ++ " ratio=" ++ ratio ++ "x"

/-- What the console line of a verdict has to say. -/
structure ConsoleShows (v : Verdict) (line : String) : Prop where
  reason : (∃ reason : SkipReason, line = consoleLineOf v reason.text) ↔ v.status = .skip
  numbers : (∃ current baseline ratio,
    line = consoleLineOf v (numbersText current baseline ratio)) ↔ v.status ≠ .skip
  ownReason : v.status = .skip →
    ∃ reason, v.reason = some reason ∧ line = consoleLineOf v reason.text
  ownNumbers : v.status ≠ .skip → ∃ b q, v.baseline = some b ∧ v.ratio = some q ∧
    line = consoleLineOf v (numbersText (fixed 4 v.current) (fixed 4 b) (fixed 2 q))

theorem consoleLineOf_inj {v : Verdict} {detail detail' : String} :
    consoleLineOf v detail = consoleLineOf v detail' ↔ detail = detail' := by
  refine ⟨fun h => ?_, congrArg _⟩
  have htexts := congrArg String.toList h
  simp only [consoleLineOf, String.toList_append, List.append_right_inj] at htexts
  exact String.toList_inj.1 htexts

/-- They differ in the first letter. -/
theorem text_ne_numbersText (reason : SkipReason) (current baseline ratio : String) :
    reason.text ≠ numbersText current baseline ratio := by
  intro h
  have hnumbers : (numbersText current baseline ratio).toList.head? = some 'c' := by
    simp [numbersText]
  rw [← h] at hnumbers
  cases reason with
  | insufficientHistory points required => simp [SkipReason.text, toString] at hnumbers
  | nonPositiveBaseline => simp [SkipReason.text] at hnumbers

theorem consoleShows_consoleLine {v : Verdict} (filled : v.Filled) :
    ConsoleShows v (consoleLine v) := by
  -- a line shows a reason or numbers, and the text of a reason is none of numbers
  by_cases hskip : v.status = .skip
  · obtain ⟨⟨reason, hreason⟩, -⟩ := filled.skipped hskip
    have hline : consoleLine v = consoleLineOf v reason.text := by
      rw [consoleLine, hreason]
      rfl
    refine ⟨iff_of_true ⟨reason, hline⟩ hskip, iff_of_false ?_ (not_not.2 hskip),
      fun _ => ⟨reason, hreason, hline⟩, fun hne => absurd hskip hne⟩
    rintro ⟨current, baseline, ratio, hnumbers⟩
    exact text_ne_numbersText _ _ _ _ (consoleLineOf_inj.1 (hline.symm.trans hnumbers))
  · obtain ⟨hreason, b, q, hbaseline, hratio⟩ := filled.judged hskip
    have hline : consoleLine v =
        consoleLineOf v (numbersText (fixed 4 v.current) (fixed 4 b) (fixed 2 q)) := by
      rw [consoleLine, hreason, hbaseline, hratio]
      rfl
    refine ⟨iff_of_false ?_ hskip, iff_of_true ⟨_, _, _, hline⟩ hskip,
      fun h => absurd h hskip, fun _ => ⟨b, q, hbaseline, hratio, hline⟩⟩
    rintro ⟨reason, htext⟩
    exact text_ne_numbersText _ _ _ _ (consoleLineOf_inj.1 (htext.symm.trans hline))

/-! ## Conclusion -/

/-- The line on a regression with this baseline and this ratio. -/
def regressionLineOf (p : Policy) (v : Verdict) (baseline ratio : Double) : String :=
  let unit := (v.unit.map (" " ++ ·)).getD ""
  "  " ++ v.name ++ ": " ++ fixed 4 v.current ++ unit ++ " vs baseline " ++ fixed 4 baseline
    ++ unit ++ " (" ++ fixed 2 ratio ++ "x, >" ++ fixed 2 p.ratioLimit ++ "x threshold)"

theorem regressionLine_eq {p : Policy} {v : Verdict} {b q : Double}
    (hbaseline : v.baseline = some b) (hratio : v.ratio = some q) :
    regressionLine p v = regressionLineOf p v b q := by
  -- the equation of this definition takes long to derive
  delta regressionLine regressionLineOf
  rw [hbaseline, hratio]
  rfl

/-- The lines after the first one say of each regression what its own numbers are. -/
theorem tail_conclusionLines (r : Report) (filled : ∀ v ∈ r.verdicts, v.Filled) :
    List.Forall₂ (fun v line => ∃ b q, v.baseline = some b ∧ v.ratio = some q ∧
        line = regressionLineOf r.policy v b q) r.regressions r.conclusionLines.tail := by
  by_cases hpass : r.passed = true
  · have hnone : r.regressions = [] := List.length_eq_zero_iff.1 ((passed_iff r).1 hpass)
    rw [conclusionLines, if_pos hpass, hnone]
    exact .nil
  · rw [conclusionLines, if_neg hpass, List.tail_cons, List.forall₂_map_right_iff,
      List.forall₂_same]
    intro v hv
    obtain ⟨hmem, hregression⟩ := List.mem_filter.1 hv
    have hne : v.status ≠ .skip := by
      rw [of_decide_eq_true hregression]
      decide
    obtain ⟨-, b, q, hbaseline, hratio⟩ := (filled v hmem).judged hne
    exact ⟨b, q, hbaseline, hratio, regressionLine_eq hbaseline hratio⟩

/-! ## Table -/

theorem fixed_ne_placeholder (places : Nat) (x : Double) : fixed places x ≠ placeholder := by
  have digits : ∀ d : Digit, d.char ≠ '—' := fun d => by fin_cases d <;> decide
  have hne : ∀ c ∈ (fixed places x).toList, c ≠ '—' :=
    Text.forall_mem_fixed digits (by simp) (by simp) places x
  intro h
  rw [h] at hne
  exact hne '—' (by decide) rfl

/-- A row of the table around the texts of its cells. -/
def rowOf (name current baseline ratio status : String) : String :=
  "| " ++ name ++ " | " ++ current ++ " | " ++ baseline ++ " | " ++ ratio ++ " | " ++ status ++ " |"

/-- What the row of a verdict has to say. -/
structure RowShows (v : Verdict) (line : String) : Prop where
  cells : line =
    rowOf v.displayName (fixed 2 v.current) (baselineCell v) (ratioCell v) (statusCell v)
  baseline : baselineCell v = placeholder ↔ v.status = .skip ∧ v.LacksHistory
  ownBaseline : baselineCell v ≠ placeholder →
    ∃ b, v.baseline = some b ∧ baselineCell v = fixed 2 b
  ratio : ratioCell v = placeholder ↔ v.status = .skip
  ownRatio : ratioCell v ≠ placeholder → ∃ q, v.ratio = some q ∧ ratioCell v = fixed 2 q ++ "x"
  status : (∃ detail, statusCell v = v.status.text ++ " (" ++ detail ++ ")") ↔ v.status = .skip
  ownReason : v.status = .skip → ∃ reason, v.reason = some reason ∧
    statusCell v = v.status.text ++ " (" ++ reason.text ++ ")"

theorem baselineCell_eq_placeholder_iff {v : Verdict} :
    baselineCell v = placeholder ↔ v.baseline = none := by
  unfold baselineCell
  cases v.baseline with
  | none => exact iff_of_true rfl rfl
  | some b => exact iff_of_false (fixed_ne_placeholder 2 b) nofun

theorem ratioCell_eq_placeholder_iff {v : Verdict} :
    ratioCell v = placeholder ↔ v.ratio = none := by
  unfold ratioCell
  cases v.ratio with
  | none => exact iff_of_true rfl rfl
  | some q =>
    refine iff_of_false (fun h => ?_) nofun
    have hmem : 'x' ∈ (fixed 2 q ++ "x").toList := by simp
    rw [show fixed 2 q ++ "x" = placeholder from h] at hmem
    exact absurd hmem (by decide)

/-- A status alone is shorter than one with a reason. -/
theorem text_ne_withDetail (s : Status) (detail : String) :
    s.text ≠ s.text ++ " (" ++ detail ++ ")" := by
  intro h
  have hlength := congrArg String.length h
  simp only [String.length_append] at hlength
  have hparentheses : " (".length = 2 := rfl
  omega

theorem rowShows_row {v : Verdict} (filled : v.Filled) : RowShows v (row v) where
  cells := by
    delta row
    rfl
  baseline := by
    rw [baselineCell_eq_placeholder_iff, filled.lacking]
    refine ⟨fun hlacks => ⟨?_, hlacks⟩, And.right⟩
    obtain ⟨points, required, hreason⟩ := hlacks
    -- a judged verdict has no reason
    by_contra hne
    rw [(filled.judged hne).1] at hreason
    cases hreason
  ownBaseline h := by
    obtain ⟨b, hb⟩ := Option.ne_none_iff_exists'.1 (mt baselineCell_eq_placeholder_iff.2 h)
    exact ⟨b, hb, by rw [baselineCell, hb]; rfl⟩
  ratio := by
    rw [ratioCell_eq_placeholder_iff]
    refine ⟨fun hnone => ?_, fun hskip => (filled.skipped hskip).2⟩
    by_contra hne
    obtain ⟨-, b, q, -, hratio⟩ := filled.judged hne
    rw [hnone] at hratio
    cases hratio
  ownRatio h := by
    obtain ⟨q, hq⟩ := Option.ne_none_iff_exists'.1 (mt ratioCell_eq_placeholder_iff.2 h)
    exact ⟨q, hq, by rw [ratioCell, hq]; rfl⟩
  status := by
    refine ⟨fun ⟨detail, hdetail⟩ => ?_, fun hskip => ?_⟩
    · by_contra hne
      rw [statusCell, (filled.judged hne).1] at hdetail
      exact text_ne_withDetail _ _ hdetail
    · obtain ⟨⟨reason, hreason⟩, -⟩ := filled.skipped hskip
      exact ⟨reason.text, by rw [statusCell, hreason]⟩
  ownReason hskip := by
    obtain ⟨⟨reason, hreason⟩, -⟩ := filled.skipped hskip
    exact ⟨reason, hreason, by rw [statusCell, hreason]⟩

/-! ## Header -/

/-- The header of the table, with what stands after the names of its number columns. -/
def headerOf (suffix : String) : String :=
  "| Benchmark | Current" ++ suffix ++ " | Baseline" ++ suffix ++ " | Ratio | Status |"

theorem headerRow_eq_headerOf (r : Report) : r.headerRow = headerOf r.unitSuffix := by
  delta headerRow
  rfl

theorem toList_headerOf (suffix : String) :
    (headerOf suffix).toList = "| Benchmark | Current".toList ++ (suffix.toList ++
      (" | Baseline".toList ++ (suffix.toList ++ " | Ratio | Status |".toList))) := by
  delta headerOf
  simp only [String.toList_append, List.append_assoc]

theorem headerOf_inj {suffix suffix' : String} :
    headerOf suffix = headerOf suffix' ↔ suffix = suffix' := by
  refine ⟨fun h => ?_, congrArg _⟩
  have htexts := congrArg String.toList h
  rw [toList_headerOf, toList_headerOf, List.append_right_inj] at htexts
  -- the suffix stands twice, so it is as long as the other one
  have hlengths := congrArg List.length htexts
  simp only [List.length_append] at hlengths
  exact String.toList_inj.1 (List.append_inj htexts (by omega)).1

theorem unitSuffix_eq_iff {r : Report} {u : String} :
    r.unitSuffix = " (" ++ u ++ ")" ↔ r.commonUnit? = some u := by
  unfold unitSuffix
  cases r.commonUnit? with
  | none => simp
  | some u' =>
    have hinj : " (" ++ u' ++ ")" = " (" ++ u ++ ")" ↔ u' = u := by
      refine ⟨fun h => ?_, fun h => by rw [h]⟩
      have htexts := congrArg String.toList h
      simp only [String.toList_append, List.append_right_inj, List.append_left_inj] at htexts
      exact String.toList_inj.1 htexts
    rw [Option.map_some, Option.getD_some, hinj, Option.some_inj]

theorem unitSuffix_eq_empty_iff {r : Report} : r.unitSuffix = "" ↔ r.commonUnit? = none := by
  unfold unitSuffix
  cases r.commonUnit? <;> simp

/-! ## Reports -/

/-- What a report shows of its verdicts. -/
structure Shows (r : Report) : Prop where
  console : List.Forall₂ ConsoleShows r.verdicts r.consoleLines
  /-- After the first line the regressions, each with its own baseline and ratio. -/
  conclusion : List.Forall₂ (fun v line => ∃ b q, v.baseline = some b ∧ v.ratio = some q ∧
    line = regressionLineOf r.policy v b q) r.regressions r.conclusionLines.tail
  rows : List.Forall₂ RowShows r.verdicts ((r.markdownLines.drop 6).take r.verdicts.length)
  unit : ∀ u, r.markdownLines[4]? = some (headerOf (" (" ++ u ++ ")")) ↔
    r.verdicts ≠ [] ∧ ∀ v ∈ r.verdicts, v.unit = some u
  noUnit : r.markdownLines[4]? = some (headerOf "") ↔
    ¬∃ u, r.verdicts ≠ [] ∧ ∀ v ∈ r.verdicts, v.unit = some u

theorem shows_of_filled {r : Report} (filled : ∀ v ∈ r.verdicts, v.Filled) : r.Shows where
  console := by
    rw [consoleLines, List.forall₂_map_right_iff, List.forall₂_same]
    exact fun v hv => consoleShows_consoleLine (filled v hv)
  conclusion := tail_conclusionLines r filled
  rows := by
    have hrows : (r.markdownLines.drop 6).take r.verdicts.length = r.verdicts.map row := by
      simp [markdownLines]
    rw [hrows, List.forall₂_map_right_iff, List.forall₂_same]
    exact fun v hv => rowShows_row (filled v hv)
  unit u := by
    have hheader : r.markdownLines[4]? = some r.headerRow := rfl
    rw [hheader, Option.some_inj, headerRow_eq_headerOf, headerOf_inj, unitSuffix_eq_iff,
      commonUnit?_eq_some_iff]
  noUnit := by
    have hheader : r.markdownLines[4]? = some r.headerRow := rfl
    rw [hheader, Option.some_inj, headerRow_eq_headerOf, headerOf_inj, unitSuffix_eq_empty_iff]
    simp only [← commonUnit?_eq_some_iff]
    cases r.commonUnit? <;> simp

/-- The report on a history under a valid policy shows no number that a verdict does not have. -/
theorem shows_of_assess {p : Policy} (valid : p.flaw? = none) (h : History) :
    ∃ vs, h.assess p = .ok vs ∧ (ofVerdicts vs p).verdicts.Perm vs ∧ (ofVerdicts vs p).Shows := by
  obtain ⟨vs, hvs⟩ := h.exists_assess valid
  have hperm := perm_ofVerdicts vs p
  exact ⟨vs, hvs, hperm,
    shows_of_filled fun v hv => History.filled_of_assess hvs (hperm.mem_iff.1 hv)⟩

/-- A regression and a series that is too short. -/
theorem shows_of_assess_mixed :
    Policy.flaw? ⟨5, .ofDecimal 20 2, 2⟩ = none ∧
    ∃ vs, (History.ofPairs [("gcd", [nan]), ("fib", [1, 3])]).assess
        ⟨5, .ofDecimal 20 2, 2⟩ = .ok vs ∧ vs.map (·.status) = [.regression, .skip] ∧
      (ofVerdicts vs ⟨5, .ofDecimal 20 2, 2⟩).Shows := by
  have valid : Policy.flaw? ⟨5, .ofDecimal 20 2, 2⟩ = none := by decide +kernel
  obtain ⟨vs, hvs, -, hshows⟩ :=
    shows_of_assess valid (.ofPairs [("gcd", [nan]), ("fib", [1, 3])])
  have hstatuses : ((History.ofPairs [("gcd", [nan]), ("fib", [1, 3])]).assess
      ⟨5, .ofDecimal 20 2, 2⟩).toOption.map (fun vs => vs.map (·.status)) =
        some [.regression, .skip] := by decide +kernel
  rw [hvs] at hstatuses
  exact ⟨valid, vs, hvs, Option.some.inj hstatuses, hshows⟩

end Report

end Slowdown
