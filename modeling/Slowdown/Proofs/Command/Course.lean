/-
The course of a check: what has been found out when its policy and its history file have been
read. It depends on what can be read from these two files, and neither on the format nor on the
summary, which decide only what is printed and where the section goes.
-/
import Slowdown.Command.Check
import Slowdown.Proofs.FileSystem
import Slowdown.Proofs.Verdict.Coverage

namespace Slowdown

namespace Command

/-! ## What a check comes to -/

/-- The policy cannot be loaded or has a flaw, the history file cannot be read or is malformed, or
the suite in it is. -/
def Fails (files : Files) (call : Invocation) : Prop :=
  (∃ f, policyOf files call = .error f) ∨
  (∃ f, Archive.ofFile call.dataFile (files.read call.dataFile) = .error f) ∨
  ∃ archive f, Archive.ofFile call.dataFile (files.read call.dataFile) = .ok archive ∧
    archive.suiteRuns call.suite = .error f

/-- The archive has no such suite. -/
def MissesSuite (files : Files) (call : Invocation) : Prop :=
  ∃ p archive, policyOf files call = .ok p ∧
    Archive.ofFile call.dataFile (files.read call.dataFile) = .ok archive ∧
    archive.suiteRuns call.suite = .ok none

/-- The report that a check comes to, if it does not fail and the archive has the suite. -/
def report? (files : Files) (call : Invocation) : Option Report := do
  let p ← (policyOf files call).toOption
  let archive ← (Archive.ofFile call.dataFile (files.read call.dataFile)).toOption
  let runs ← (archive.suiteRuns call.suite).toOption.join
  let verdicts ← ((History.ofRuns runs).assess p).toOption
  return .ofVerdicts verdicts p

/-- How far a check comes before it prints a result. -/
inductive Course where
  | noPolicy (f : Failure)
  | noRuns (f : Failure)
  | unknownSuite (p : Policy) (names : List String)
  | judged (p : Policy) (runs : List Run) (r : Report)

/-- The report on the runs of a suite. -/
def reportOn (p : Policy) (runs : List Run) : Report :=
  .ofVerdicts ((History.ofRuns runs).toList.filterMap fun (name, s) => s.verdict? name p) p

/-- How the check of an invocation goes, told apart by the first thing that ends it. -/
def course (files : Files) (call : Invocation) : Course :=
  match policyOf files call with
  | .error f => .noPolicy f
  | .ok p =>
    match Archive.ofFile call.dataFile (files.read call.dataFile) with
    | .error f => .noRuns (failureOfArchive f)
    | .ok archive =>
      match archive.suiteRuns call.suite with
      | .error f => .noRuns (failureOfArchive f)
      | .ok none => .unknownSuite p archive.suiteNames
      | .ok (some runs) => .judged p runs (reportOn p runs)

theorem flaw?_of_ofFile {path : String} {contents : Except FileFault ByteArray} {p : Policy}
    (h : Policy.ofFile path contents = .ok p) : p.flaw? = none := by
  unfold Policy.ofFile at h
  split at h
  · cases h
  · unfold Policy.parse at h
    split at h
    · cases h
    · split at h
      · cases h
      · rename_i hflaw
        cases h
        exact hflaw

/-- A policy that has been loaded has no flaw. -/
theorem flaw?_of_policyOf {files : Files} {call : Invocation} {p : Policy}
    (h : policyOf files call = .ok p) : p.flaw? = none := by
  unfold policyOf at h
  split at h
  · split at h
    · rename_i hfile
      cases h
      exact flaw?_of_ofFile hfile
    · cases h
  · split at h
    · cases h
    · rename_i hflaw
      cases h
      exact hflaw

theorem assess_of_policyOf {files : Files} {call : Invocation} {p : Policy}
    (h : policyOf files call = .ok p) (runs : List Run) :
    (History.ofRuns runs).assess p =
      .ok ((History.ofRuns runs).toList.filterMap fun (name, s) => s.verdict? name p) :=
  History.assess_eq_ok_iff.2 ⟨flaw?_of_policyOf h, rfl⟩

theorem fails_iff (files : Files) (call : Invocation) :
    Fails files call ↔
      (∃ f, course files call = .noPolicy f) ∨ ∃ f, course files call = .noRuns f := by
  unfold Fails course
  cases policyOf files call with
  | error f => simp
  | ok p =>
    cases Archive.ofFile call.dataFile (files.read call.dataFile) with
    | error f => simp
    | ok archive =>
      cases hruns : archive.suiteRuns call.suite with
      | error f => simp [hruns]
      | ok runs => cases runs <;> simp [hruns]

theorem missesSuite_iff (files : Files) (call : Invocation) :
    MissesSuite files call ↔ ∃ p names, course files call = .unknownSuite p names := by
  unfold MissesSuite course
  cases policyOf files call with
  | error f => simp
  | ok p =>
    cases Archive.ofFile call.dataFile (files.read call.dataFile) with
    | error f => simp
    | ok archive =>
      cases hruns : archive.suiteRuns call.suite with
      | error f => simp [hruns]
      | ok runs => cases runs <;> simp [hruns]

theorem report?_eq (files : Files) (call : Invocation) :
    report? files call =
      match course files call with
      | .judged _ _ r => some r
      | _ => none := by
  unfold report? course
  cases hp : policyOf files call with
  | error f => rfl
  | ok p =>
    cases Archive.ofFile call.dataFile (files.read call.dataFile) with
    | error f => rfl
    | ok archive =>
      cases hruns : archive.suiteRuns call.suite with
      | error f => simp [hruns, Except.toOption]
      | ok runs =>
        cases runs with
        | none => simp [hruns, Except.toOption]
        -- a policy that was read has no flaw, so the history is assessed
        | some runs => simp [hruns, Except.toOption, assess_of_policyOf hp, reportOn]

theorem not_fails_of_missesSuite {files : Files} {call : Invocation} (h : MissesSuite files call) :
    ¬ Fails files call := by
  rw [fails_iff]
  obtain ⟨p, names, hcourse⟩ := (missesSuite_iff files call).1 h
  simp [hcourse]

theorem report?_eq_none_iff (files : Files) (call : Invocation) :
    report? files call = none ↔ Fails files call ∨ MissesSuite files call := by
  rw [report?_eq, fails_iff, missesSuite_iff]
  cases course files call <;> simp

/-! ## What a check prints -/

/-- What is said while the history file is loaded. -/
def loadingLines (call : Invocation) : List Line :=
  progress call.format ["Loading benchmark data from " ++ call.dataFile]

/-- What is said when the history is there. -/
def checkingLines (call : Invocation) (p : Policy) (runs : List Run) : List Line :=
  progress call.format [
    s!"Found {runs.length} historical entries for '" ++ call.suite ++ "'",
    s!"Checking {(History.ofRuns runs).size} benchmarks (window={p.windowSize}, threshold="
      ++ Decimal.fixed 0 p.thresholdPercent ++ s!"%, min_history={p.minHistory}):",
    ""]

/-- A check goes by its course. -/
theorem check_eq (files : Files) (setting : Option String) (call : Invocation) :
    check files setting call =
      match course files call with
      | .noPolicy f => failed [] f
      | .noRuns f => failed (loadingLines call) f
      | .unknownSuite p names => withoutHistory call p names (loadingLines call)
      | .judged p runs r =>
        concluded files setting call r
          (loadingLines call ++ checkingLines call p runs
            ++ traceLines call.debug (eventsOfHistory (History.ofRuns runs) p)
            ++ reportLines call r) := by
  unfold check course
  cases hp : policyOf files call with
  | error f => rfl
  | ok p =>
    dsimp only
    cases Archive.ofFile call.dataFile (files.read call.dataFile) with
    | error f => rfl
    | ok archive =>
      dsimp only
      cases archive.suiteRuns call.suite with
      | error f => rfl
      | ok runs =>
        cases runs with
        | none => rfl
        -- nothing but the policy could make the assessment fail
        | some runs =>
          simp only [withHistory, assess_of_policyOf hp]
          rfl

/-! ## What a check depends on -/

/-- The paths that a check reads. -/
def pathsRead (call : Invocation) : List String := call.dataFile :: call.config.toList

theorem toOption_ofFile (path : String) {contents contents' : Except FileFault ByteArray}
    (h : contents.toOption = contents'.toOption) :
    (Archive.ofFile path contents).toOption = (Archive.ofFile path contents').toOption := by
  cases contents <;> cases contents' <;> cases h <;> rfl

theorem toOption_policyOfFile (path : String) {contents contents' : Except FileFault ByteArray}
    (h : contents.toOption = contents'.toOption) :
    (Policy.ofFile path contents).toOption = (Policy.ofFile path contents').toOption := by
  cases contents <;> cases contents' <;> cases h <;> rfl

theorem toOption_policyOf {files files' : Files} {call : Invocation}
    (same : ∀ path ∈ call.config, (files'.read path).toOption = (files.read path).toOption) :
    (policyOf files' call).toOption = (policyOf files call).toOption := by
  unfold policyOf
  cases hconfig : call.config with
  | none => rfl
  | some path =>
    have hfile := toOption_policyOfFile path (same path (by simp [hconfig]))
    dsimp only
    revert hfile
    cases Policy.ofFile path (files'.read path) <;> cases Policy.ofFile path (files.read path) <;>
      intro hfile <;> cases hfile <;> rfl

/-- What a check comes to depends on what can be read at its paths, but not on why a file cannot
be read. -/
theorem course_depends (files files' : Files) {call : Invocation}
    (same : ∀ path ∈ pathsRead call, (files'.read path).toOption = (files.read path).toOption) :
    report? files' call = report? files call ∧ (Fails files' call ↔ Fails files call) ∧
      (MissesSuite files' call ↔ MissesSuite files call) := by
  have hfile := toOption_ofFile call.dataFile (same call.dataFile List.mem_cons_self)
  have hpolicy : (policyOf files' call).toOption = (policyOf files call).toOption :=
    toOption_policyOf fun path hpath =>
      same path (List.mem_cons_of_mem _ (Option.mem_toList.2 hpath))
  refine ⟨?_, ?_, ?_⟩
  · unfold report?
    rw [hpolicy, hfile]
  · unfold Fails
    simp only [← toOption_eq_none_iff, ← toOption_eq_some_iff (x := Archive.ofFile _ _), hpolicy,
      hfile]
  · unfold MissesSuite
    simp only [← toOption_eq_some_iff, hpolicy, hfile]

end Command

end Slowdown
