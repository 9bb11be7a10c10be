/-
The views of a report: its order, its count and decision, the lines, the section and the document
all say the same of the same verdicts, and under distinct names the order in which the verdicts
came is forgotten.
-/
import Slowdown.Report.Document
import Slowdown.Report.Markdown
import Slowdown.Proofs.Text.ByteOrder
import Mathlib.Data.List.Forall2
import Mathlib.Data.List.Nodup

namespace Slowdown

namespace Report

variable (vs : List Verdict) (p : Policy)

/-! ## Order -/

theorem perm_ofVerdicts : (ofVerdicts vs p).verdicts.Perm vs := List.mergeSort_perm _ _

theorem name_le_trans (a b c : Verdict) (hab : decide (a.name ≤ b.name) = true)
    (hbc : decide (b.name ≤ c.name) = true) : decide (a.name ≤ c.name) = true := by
  rw [decide_eq_true_iff] at hab hbc ⊢
  exact hab.trans hbc

theorem name_le_total (a b : Verdict) :
    (decide (a.name ≤ b.name) || decide (b.name ≤ a.name)) = true := by
  rw [Bool.or_eq_true, decide_eq_true_iff, decide_eq_true_iff]
  exact le_total _ _

theorem ascending_ofVerdicts :
    (ofVerdicts vs p).verdicts.Pairwise fun a b => decide (a.name ≤ b.name) = true :=
  List.pairwise_mergeSort name_le_trans name_le_total vs

/-- The verdicts of one name are sorted as they stand, so they are found in that order. -/
theorem filter_ofVerdicts (name : String) :
    ((ofVerdicts vs p).verdicts.filter fun v => v.name == name) =
      vs.filter fun v => v.name == name := by
  have hequal : (vs.filter fun v => v.name == name).Pairwise
      fun a b => decide (a.name ≤ b.name) = true := by
    refine List.pairwise_of_forall_mem_list fun a ha b hb => ?_
    have hname : a.name = b.name :=
      (beq_iff_eq.1 (List.mem_filter.1 ha).2).trans (beq_iff_eq.1 (List.mem_filter.1 hb).2).symm
    exact decide_eq_true hname.le
  have hsorted : (vs.filter fun v => v.name == name).Sublist (ofVerdicts vs p).verdicts :=
    List.sublist_mergeSort name_le_trans name_le_total hequal List.filter_sublist
  -- a sublist of the report's verdicts of that name, and as long as they are
  have hsub := hsorted.filter fun v => v.name == name
  rw [List.filter_filter] at hsub
  simp only [Bool.and_self] at hsub
  have hlength := ((perm_ofVerdicts vs p).filter fun v => v.name == name).length_eq
  exact (hsub.eq_of_length hlength.symm).symm

/-- Of verdicts with distinct names there is one report. -/
theorem ofVerdicts_eq_of_perm {vs vs' : List Verdict} (distinct : (vs.map (·.name)).Nodup)
    (h : vs'.Perm vs) : ofVerdicts vs' p = ofVerdicts vs p := by
  have hperm : (ofVerdicts vs' p).verdicts.Perm (ofVerdicts vs p).verdicts :=
    (perm_ofVerdicts vs' p).trans (h.trans (perm_ofVerdicts vs p).symm)
  have hverdicts : (ofVerdicts vs' p).verdicts = (ofVerdicts vs p).verdicts := by
    -- no two verdicts share a name, so the names alone decide the order
    refine hperm.eq_of_pairwise (fun a b ha hb hab hba => ?_) (ascending_ofVerdicts vs' p)
      (ascending_ofVerdicts vs p)
    have hname : a.name = b.name :=
      le_antisymm (decide_eq_true_iff.1 hab) (decide_eq_true_iff.1 hba)
    have ha' : a ∈ vs := ((perm_ofVerdicts vs' p).trans h).mem_iff.1 ha
    have hb' : b ∈ vs := (perm_ofVerdicts vs p).mem_iff.1 hb
    exact List.inj_on_of_nodup_map distinct ha' hb' hname
  exact congrArg (Report.mk · p) hverdicts

/-! ## Count and decision -/

variable (r : Report)

theorem regressionCount_eq : r.regressionCount = r.verdicts.countP Verdict.isRegression :=
  List.countP_eq_length_filter.symm

theorem passed_iff : r.passed = true ↔ r.regressionCount = 0 := decide_eq_true_iff

theorem outcome_eq_pass_iff : r.outcome = .pass ↔ r.regressionCount = 0 := by
  rw [← passed_iff, outcome]
  cases r.passed <;> simp

theorem exitCode_eq_zero_iff : r.outcome.exitCode = 0 ↔ r.regressionCount = 0 := by
  rw [← outcome_eq_pass_iff]
  cases r.outcome <;> simp [Outcome.exitCode]

/-! ## Views -/

theorem consoleLines_forall₂ :
    List.Forall₂ (fun v line => ∃ detail,
        line = "  " ++ padded 4 v.status.text ++ "  " ++ v.name ++ ": " ++ detail)
      r.verdicts r.consoleLines := by
  rw [consoleLines, List.forall₂_map_right_iff, List.forall₂_same]
  intro v _
  exact ⟨_, rfl⟩

theorem conclusionLines_of_pass (h : r.regressionCount = 0) :
    r.conclusionLines = ["All benchmarks within acceptable range."] := by
  rw [conclusionLines, if_pos ((passed_iff r).2 h), passLine]

theorem conclusionLines_of_fail (h : r.regressionCount ≠ 0) :
    ∃ lines, r.conclusionLines =
        ("REGRESSION DETECTED in " ++ toString r.regressionCount ++ " benchmark(s):") :: lines ∧
      List.Forall₂ (fun v line => ∃ detail, line = "  " ++ v.name ++ ": " ++ detail)
        (r.verdicts.filter fun v => v.status = .regression) lines := by
  refine ⟨r.regressions.map (regressionLine r.policy), ?_, ?_⟩
  · rw [conclusionLines, if_neg (mt (passed_iff r).1 h)]
    rfl
  · rw [List.forall₂_map_right_iff]
    refine List.forall₂_same.2 fun v _ => ?_
    -- the equation of this definition takes long to derive
    delta regressionLine
    simp only [String.append_assoc]
    exact ⟨_, rfl⟩

theorem decisionLine_eq :
    r.decisionLine = if r.regressionCount = 0 then "All benchmarks within acceptable range."
      else "**" ++ toString r.regressionCount ++ " regression(s) detected.**" := by
  rw [decisionLine]
  simp only [passed_iff]
  rfl

theorem exists_markdown :
    ∃ rest, r.markdown =
      "## Benchmark Regression Check\n\n" ++ r.decisionLine ++ "\n\n" ++ rest := by
  simp only [markdown, markdownLines, List.cons_append, List.map_cons, String.join_cons,
    String.append_assoc]
  exact ⟨_, rfl⟩

/-- The unit in the header is the one that all verdicts have, in whatever order. -/
theorem commonUnit?_eq_some_iff {u : String} :
    r.commonUnit? = some u ↔ r.verdicts ≠ [] ∧ ∀ v ∈ r.verdicts, v.unit = some u := by
  unfold commonUnit?
  cases r.verdicts with
  | nil => simp
  | cons first rest =>
    simp only [List.all_eq_true, beq_iff_eq, Option.ite_none_right_eq_some, ne_eq, reduceCtorEq,
      not_false_eq_true, List.mem_cons, forall_eq_or_imp, true_and]
    constructor
    · rintro ⟨hrest, hfirst⟩
      exact ⟨hfirst, fun v hv => (hrest v hv).trans hfirst⟩
    · rintro ⟨hfirst, hrest⟩
      exact ⟨fun v hv => (hrest v hv).trans hfirst.symm, hfirst⟩

/-- How the views of a report go with the verdicts it was made of. -/
structure Agrees (r : Report) (vs : List Verdict) : Prop where
  perm : r.verdicts.Perm vs
  ascending : r.verdicts.Pairwise fun a b => utf8Bytes a.name ≤ utf8Bytes b.name
  /-- Verdicts of equal name are in the order in which they came. -/
  stable : ∀ name, (r.verdicts.filter fun v => v.name == name) = vs.filter fun v => v.name == name
  count : r.regressionCount = vs.countP fun v => v.status = .regression
  outcome : r.outcome = .pass ↔ r.regressionCount = 0
  exitCode : r.outcome.exitCode = 0 ↔ r.regressionCount = 0
  /-- One line for each verdict, in the order of the report. -/
  console : List.Forall₂ (fun v line => ∃ detail,
      line = "  " ++ padded 4 v.status.text ++ "  " ++ v.name ++ ": " ++ detail)
    r.verdicts r.consoleLines
  pass : r.regressionCount = 0 → r.conclusionLines = ["All benchmarks within acceptable range."]
  /-- The count, then one line for each regression, in the order of the report. -/
  fail : r.regressionCount ≠ 0 → ∃ lines, r.conclusionLines =
      ("REGRESSION DETECTED in " ++ toString r.regressionCount ++ " benchmark(s):") :: lines ∧
    List.Forall₂ (fun v line => ∃ detail, line = "  " ++ v.name ++ ": " ++ detail)
      (r.verdicts.filter fun v => v.status = .regression) lines
  markdown : ∃ rest, r.markdown = "## Benchmark Regression Check\n\n" ++
    (if r.regressionCount = 0 then "All benchmarks within acceptable range."
      else "**" ++ toString r.regressionCount ++ " regression(s) detected.**") ++ "\n\n" ++ rest
  unit : ∀ u, r.commonUnit? = some u ↔ vs ≠ [] ∧ ∀ v ∈ vs, v.unit = some u
  document : ∀ suite, ∃ members, r.document suite = .object members ∧
    Json.member? members "regression_count" = some (.ofNat r.regressionCount) ∧
    Json.member? members "passed" = some (.bool (r.regressionCount = 0))

theorem agrees_ofVerdicts : (ofVerdicts vs p).Agrees vs where
  perm := perm_ofVerdicts vs p
  ascending := (ascending_ofVerdicts vs p).imp fun h => utf8Bytes_le_iff.2 (decide_eq_true_iff.1 h)
  stable := filter_ofVerdicts vs p
  count := (regressionCount_eq _).trans ((perm_ofVerdicts vs p).countP_eq _)
  outcome := outcome_eq_pass_iff _
  exitCode := exitCode_eq_zero_iff _
  console := consoleLines_forall₂ _
  pass := conclusionLines_of_pass _
  fail := conclusionLines_of_fail _
  markdown := by
    rw [← decisionLine_eq]
    exact exists_markdown _
  unit u := by
    -- that all units agree does not depend on the order
    have hperm := perm_ofVerdicts vs p
    rw [commonUnit?_eq_some_iff]
    simp only [hperm.mem_iff, ne_eq, ← List.length_eq_zero_iff, hperm.length_eq]
  document _ := ⟨_, rfl, rfl, rfl⟩

/-- The views of every report agree, and of verdicts with distinct names, in whatever order they
come, there is one report, and so one of each view. -/
theorem views_agree :
    (ofVerdicts vs p).Agrees vs ∧
    ((vs.map (·.name)).Nodup → ∀ vs' : List Verdict, vs'.Perm vs →
      ofVerdicts vs' p = ofVerdicts vs p) :=
  ⟨agrees_ofVerdicts vs p, fun distinct _ => ofVerdicts_eq_of_perm p distinct⟩

/-- A benchmark within range and one that is not. -/
def twoVerdicts : List Verdict :=
  [⟨"gcd", .ok, 1, some 1, some 1, none, some "ms"⟩,
    ⟨"fib", .regression, 3, some 1, some 3, none, none⟩]

theorem views_agree_swapped :
    (ofVerdicts twoVerdicts ⟨5, .ofDecimal 20 2, 3⟩).regressionCount = 1 ∧
    ofVerdicts twoVerdicts.reverse ⟨5, .ofDecimal 20 2, 3⟩ =
      ofVerdicts twoVerdicts ⟨5, .ofDecimal 20 2, 3⟩ := by
  obtain ⟨agrees, h⟩ := views_agree twoVerdicts ⟨5, .ofDecimal 20 2, 3⟩
  exact ⟨agrees.count, h (by decide) _ (List.reverse_perm _)⟩

end Report

end Slowdown
