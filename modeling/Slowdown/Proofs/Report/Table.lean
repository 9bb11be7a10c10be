/-
The table of a section: it has a line for each verdict, and each of its lines five cells, exactly
if no name shown and no common unit holds a line break or a bar that ends a cell. Names and units
are not escaped.
-/
import Slowdown.Proofs.Text.Cells
import Slowdown.Report.Markdown

namespace Slowdown

open Text

/-- A text that ends neither a line nor a cell. -/
def IsCellText (s : String) : Prop := '\n' ∉ s.toList ∧ bars s.toList = 0

theorem isCellText_of_plain {s : String} (h : IsPlainText s.toList) : IsCellText s :=
  ⟨fun hbreak => (h _ hbreak).2.2 rfl, bars_of_plain h⟩

namespace Report

/-! ## Texts of numbers -/

theorem plain_reason (reason : SkipReason) : IsPlainText reason.text.toList := by
  cases reason with
  | insufficientHistory points required =>
    have hpoints := plain_toString points
    have hrequired := plain_toString required
    exact plain_append (plain_append (plain_append (plain_append (by decide) hpoints) (by decide))
      hrequired) (by decide)
  | nonPositiveBaseline => decide

theorem plain_status (s : Status) : IsPlainText s.text.toList := by
  cases s <;> decide

theorem plain_statusCell (v : Verdict) : IsPlainText (statusCell v).toList := by
  unfold statusCell
  cases v.reason with
  | none => exact plain_status v.status
  | some reason =>
    exact plain_append (plain_append (plain_append (plain_status _) (by decide))
      (plain_reason reason)) (by decide)

theorem plain_baselineCell (v : Verdict) : IsPlainText (baselineCell v).toList := by
  unfold baselineCell
  cases v.baseline with
  | none => decide
  | some x => exact plain_fixed 2 x

theorem plain_ratioCell (v : Verdict) : IsPlainText (ratioCell v).toList := by
  unfold ratioCell
  cases v.ratio with
  | none => decide
  | some x => exact plain_append (plain_fixed 2 x) (by decide)

theorem plain_decisionLine (r : Report) : IsPlainText r.decisionLine.toList := by
  unfold decisionLine
  split_ifs
  · decide
  · exact plain_append (plain_append (by decide) (plain_toString _)) (by decide)

theorem plain_policyLine (p : Policy) : IsPlainText (policyLine p).toList := by
  have hfirst : IsPlainText (s!"Window: {p.windowSize} runs, threshold: ").toList :=
    plain_append (plain_append (by decide) (plain_toString _)) (by decide)
  have hlast : IsPlainText (s!"%, min history: {p.minHistory}").toList :=
    plain_append (by decide) (plain_toString _)
  delta policyLine
  exact plain_append (plain_append hfirst (plain_fixed 0 p.thresholdPercent)) hlast

/-! ## Lines of the table -/

/-- The texts in the cells of a row. -/
def rowTexts (v : Verdict) : List (List Char) :=
  [v.displayName.toList, (Decimal.fixed 2 v.current).toList, (baselineCell v).toList,
    (ratioCell v).toList, (statusCell v).toList]

/-- What stands after the name of a column of numbers. -/
def unitSuffix (r : Report) : String := (r.commonUnit?.map fun u => " (" ++ u ++ ")").getD ""

/-- The texts in the cells of the header. -/
def headerTexts (r : Report) : List (List Char) :=
  ["Benchmark".toList, ("Current" ++ r.unitSuffix).toList, ("Baseline" ++ r.unitSuffix).toList,
    "Ratio".toList, "Status".toList]

theorem row_eq (v : Verdict) : (row v).toList = tableLine (rowTexts v) := by
  simp [row, tableLine, rowTexts]

theorem headerRow_eq (r : Report) : r.headerRow.toList = tableLine r.headerTexts := by
  have hrow : r.headerRow = "| Benchmark | Current" ++ r.unitSuffix ++ " | Baseline"
      ++ r.unitSuffix ++ " | Ratio | Status |" := by
    -- the equation of this definition takes long to derive
    delta headerRow
    rfl
  rw [hrow, headerTexts]
  simp [tableLine]

theorem cellCount_row (v : Verdict) :
    cellCount (row v).toList = 5 + bars v.displayName.toList := by
  rw [row_eq, cellCount_eq, bars_tableLine]
  simp [rowTexts, bars_of_plain (plain_fixed 2 v.current), bars_of_plain (plain_baselineCell v),
    bars_of_plain (plain_ratioCell v), bars_of_plain (plain_statusCell v)]

theorem break_mem_row (v : Verdict) :
    '\n' ∈ (row v).toList ↔ '\n' ∈ v.displayName.toList := by
  have plain : ∀ {s : String}, IsPlainText s.toList → '\n' ∉ s.toList :=
    fun h => (isCellText_of_plain h).1
  rw [row_eq, mem_tableLine]
  simp [rowTexts, plain (plain_fixed 2 v.current), plain (plain_baselineCell v),
    plain (plain_ratioCell v), plain (plain_statusCell v)]

/-- A unit stands in the header twice. -/
theorem cellCount_headerRow (r : Report) :
    cellCount r.headerRow.toList = 5 + 2 * bars r.unitSuffix.toList := by
  have hcurrent : ∀ text, bars ("Current".toList ++ text) = bars text := fun _ => rfl
  have hbaseline : ∀ text, bars ("Baseline".toList ++ text) = bars text := fun _ => rfl
  have hbenchmark : bars "Benchmark".toList = 0 := by decide
  have hratio : bars "Ratio".toList = 0 := by decide
  have hstatus : bars "Status".toList = 0 := by decide
  rw [headerRow_eq, cellCount_eq, bars_tableLine]
  simp only [headerTexts, String.toList_append, List.map_cons, List.map_nil, List.sum_cons,
    List.sum_nil, List.length_cons, List.length_nil, hcurrent, hbaseline, hbenchmark, hratio,
    hstatus]
  omega

theorem bars_unitSuffix (r : Report) :
    bars r.unitSuffix.toList = 0 ↔ ∀ u ∈ r.commonUnit?, bars u.toList = 0 := by
  unfold unitSuffix
  cases r.commonUnit? with
  | none => simp [bars]
  | some u =>
    have hopen : (" (" ++ u ++ ")").toList = ' ' :: '(' :: (u.toList ++ [')']) := by simp
    have hbars := bars_append (c := ')') (by decide) u.toList []
    have hsuffix : bars (" (" ++ u ++ ")").toList = bars u.toList := by
      rw [hopen, bars_cons (by decide), bars_cons (by decide), hbars]
      rfl
    simp only [Option.map_some, Option.getD_some, Option.mem_def, Option.some.injEq, forall_eq',
      hsuffix]

theorem break_mem_headerRow (r : Report) :
    '\n' ∈ r.headerRow.toList ↔ ∃ u ∈ r.commonUnit?, '\n' ∈ u.toList := by
  rw [headerRow_eq, mem_tableLine]
  unfold headerTexts unitSuffix
  cases r.commonUnit? <;> simp

/-! ## Lines of the section -/

/-- The lines of the section, without the empty rest after the last line break. -/
def sectionLines (r : Report) : List (List Char) := (r.markdown.toList.splitOn '\n').dropLast

theorem sectionLines_eq (r : Report) :
    r.sectionLines = (r.markdownLines.map String.toList).flatMap (·.splitOn '\n') := by
  have htext : r.markdown.toList = (r.markdownLines.map String.toList).flatMap (· ++ ['\n']) := by
    rw [markdown, String.toList_join, List.flatMap_map, List.flatMap_map]
    simp
  rw [sectionLines, htext, splitOn_flatMap, List.dropLast_concat]

theorem length_markdownLines (r : Report) : r.markdownLines.length = 8 + r.verdicts.length := by
  simp [markdownLines]
  omega

/-- A line break can only come from the name in a row or the unit in the header. -/
theorem break_mem_markdownLines (r : Report) :
    (∀ line ∈ r.markdownLines.map String.toList, '\n' ∉ line) ↔
      '\n' ∉ r.headerRow.toList ∧ ∀ v ∈ r.verdicts, '\n' ∉ (row v).toList := by
  have hdecision : '\n' ∉ r.decisionLine.toList :=
    (isCellText_of_plain (plain_decisionLine r)).1
  have hpolicy : '\n' ∉ (policyLine r.policy).toList :=
    (isCellText_of_plain (plain_policyLine r.policy)).1
  simp [markdownLines, hdecision, hpolicy, or_imp, forall_and]

/-- The table of a section: as many lines in the section as there should be, and five cells in the
header and in the line of each verdict. -/
structure IsTable (r : Report) : Prop where
  lines : r.sectionLines.length = 8 + r.verdicts.length
  header : ∀ line ∈ (r.sectionLines.drop 4).take 1, cellCount line = 5
  rows : ∀ line ∈ (r.sectionLines.drop 6).take r.verdicts.length, cellCount line = 5

theorem lines_iff (r : Report) :
    r.sectionLines.length = 8 + r.verdicts.length ↔
      '\n' ∉ r.headerRow.toList ∧ ∀ v ∈ r.verdicts, '\n' ∉ (row v).toList := by
  have hlength : (r.markdownLines.map String.toList).length = 8 + r.verdicts.length := by
    rw [List.length_map, length_markdownLines]
  rw [sectionLines_eq, ← hlength, length_flatMap_splitOn, break_mem_markdownLines]

/-- Without line breaks in it the header and the rows stand at their places. -/
theorem places (r : Report) (h : r.sectionLines.length = 8 + r.verdicts.length) :
    (r.sectionLines.drop 4).take 1 = [r.headerRow.toList] ∧
      (r.sectionLines.drop 6).take r.verdicts.length =
        r.verdicts.map fun v => (row v).toList := by
  have hlines : r.sectionLines = r.markdownLines.map String.toList := by
    rw [sectionLines_eq,
      flatMap_splitOn ((break_mem_markdownLines r).2 ((lines_iff r).1 h))]
  rw [hlines, markdownLines]
  refine ⟨rfl, ?_⟩
  simp

theorem isTable_iff (r : Report) :
    r.IsTable ↔ (∀ v ∈ r.verdicts, IsCellText v.displayName) ∧
      ∀ u ∈ r.commonUnit?, IsCellText u := by
  constructor
  · rintro ⟨lines, header, rows⟩
    obtain ⟨hheader, hrows⟩ := places r lines
    obtain ⟨hbreak, hbreaks⟩ := (lines_iff r).1 lines
    rw [hheader] at header
    rw [hrows] at rows
    refine ⟨fun v hv => ⟨(break_mem_row v).not.1 (hbreaks v hv), ?_⟩, fun u hu => ⟨?_, ?_⟩⟩
    · -- each bar of the name would be one more cell
      have hcells := rows _ (List.mem_map_of_mem hv)
      rw [cellCount_row] at hcells
      omega
    · exact fun hmem => hbreak ((break_mem_headerRow r).2 ⟨u, hu, hmem⟩)
    · have hcells := header _ (List.mem_singleton_self _)
      rw [cellCount_headerRow] at hcells
      exact (bars_unitSuffix r).1 (by omega) u hu
  · rintro ⟨hnames, hunit⟩
    -- without line breaks the lines are those of the section
    have lines : r.sectionLines.length = 8 + r.verdicts.length := by
      refine (lines_iff r).2 ⟨fun hmem => ?_, fun v hv => ?_⟩
      · obtain ⟨u, hu, hbreak⟩ := (break_mem_headerRow r).1 hmem
        exact (hunit u hu).1 hbreak
      · exact (break_mem_row v).not.2 (hnames v hv).1
    obtain ⟨hheader, hrows⟩ := places r lines
    have hsuffix : bars r.unitSuffix.toList = 0 :=
      (bars_unitSuffix r).2 fun u hu => (hunit u hu).2
    refine ⟨lines, ?_, ?_⟩
    · rw [hheader, List.forall_mem_singleton, cellCount_headerRow, hsuffix]
    · rw [hrows, List.forall_mem_map]
      intro v hv
      rw [cellCount_row, (hnames v hv).2]

/-- The cells of a row are the five texts with blanks around them, the status last. -/
def IsRowOf (v : Verdict) (line : List Char) : Prop :=
  cells line = [] :: (((rowTexts v).map fun text => ' ' :: (text ++ [' '])) ++ [[]])

theorem isRowOf_row {v : Verdict} (h : IsCellText v.displayName) : IsRowOf v (row v).toList := by
  have htexts : ∀ text ∈ rowTexts v, bars text = 0 := by
    simp only [rowTexts, List.forall_mem_cons]
    exact ⟨h.2, bars_of_plain (plain_fixed 2 v.current), bars_of_plain (plain_baselineCell v),
      bars_of_plain (plain_ratioCell v), bars_of_plain (plain_statusCell v), nofun⟩
  rw [IsRowOf, row_eq, cells_tableLine htexts]

/-- The section has a table exactly if the names shown and the common unit are texts of cells, and
then each verdict has a row. -/
theorem table_iff_cellTexts (r : Report) :
    (r.IsTable ↔ (∀ v ∈ r.verdicts, IsCellText v.displayName) ∧
      ∀ u ∈ r.commonUnit?, IsCellText u) ∧
    (r.IsTable →
      List.Forall₂ IsRowOf r.verdicts ((r.sectionLines.drop 6).take r.verdicts.length)) := by
  refine ⟨isTable_iff r, fun table => ?_⟩
  rw [(places r table.lines).2, List.forall₂_map_right_iff, List.forall₂_same]
  exact fun v hv => isRowOf_row (((isTable_iff r).1 table).1 v hv)

/-- Two benchmarks, one of them without enough history. -/
def plainReport : Report where
  verdicts := [⟨"suite.fib", .ok, 3, some 3, some 1, none, some "ms"⟩,
    ⟨"suite.gcd", .skip, 5, none, none, some (.insufficientHistory 2 3), some "ms"⟩]
  policy := .standard

theorem table_iff_cellTexts_plain :
    plainReport.IsTable ∧
      List.Forall₂ IsRowOf plainReport.verdicts ((plainReport.sectionLines.drop 6).take 2) := by
  obtain ⟨iff, rows⟩ := table_iff_cellTexts plainReport
  have table : plainReport.IsTable := by
    refine iff.2 ⟨fun v hv => ?_, fun u hu => ?_⟩
    · fin_cases hv <;> exact isCellText_of_plain (by decide)
    · obtain rfl : "ms" = u := Option.some.inj hu
      exact isCellText_of_plain (by decide)
  exact ⟨table, rows table⟩

/-- A bar in a name or in the unit is not escaped, and a line break divides a row. -/
theorem no_table_of_bar_or_break :
    ¬ (ofVerdicts [⟨"a|b", .ok, 1, some 1, some 1, none, none⟩] .standard).IsTable ∧
    ¬ (ofVerdicts [⟨"a\nb", .ok, 1, some 1, some 1, none, none⟩] .standard).IsTable ∧
    ¬ (ofVerdicts [⟨"a", .ok, 1, some 1, some 1, none, some "m|s"⟩] .standard).IsTable := by
  refine ⟨fun table => ?_, fun table => ?_, fun table => ?_⟩
  · have name := ((isTable_iff _).1 table).1 _ (List.mem_mergeSort.2 (List.mem_singleton_self _))
    exact absurd name.2 (by decide)
  · have name := ((isTable_iff _).1 table).1 _ (List.mem_mergeSort.2 (List.mem_singleton_self _))
    exact absurd (by decide) name.1
  · have unit := ((isTable_iff _).1 table).2 "m|s" (by simp [ofVerdicts, commonUnit?])
    exact absurd unit.2 (by decide)

end Report

end Slowdown
