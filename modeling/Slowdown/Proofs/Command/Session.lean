/-
Runs of the program one after the other, in any lawful file system: what their statuses mean, and
how the summary grows by the sections of those runs that come to a report, while every other file
stays as it was.
-/
import Slowdown.Proofs.Command.Course
import Slowdown.Proofs.Report.Views
import Slowdown.Proofs.Tree

namespace Slowdown

theorem Report.exitCode_eq (r : Report) :
    r.outcome.exitCode = if ∃ v ∈ r.verdicts, v.status = .regression then 1 else 0 := by
  have hcount : r.regressionCount = 0 ↔ ¬ ∃ v ∈ r.verdicts, v.status = .regression := by
    simp [Report.regressionCount_eq, List.countP_eq_zero, Verdict.isRegression]
  have hzero := r.exitCode_eq_zero_iff
  rw [hcount] at hzero
  split_ifs with h
  · cases hr : r.outcome with
    | pass => exact absurd h (hzero.1 (by rw [hr]; rfl))
    | fail => rfl
  · exact hzero.2 h

namespace Command

/-! ## One check -/

section

variable (files : Files) (setting : Option String) (call : Invocation)

/-- What gives a run the status one: that it fails, that its section cannot be added to the
summary, or that its report has a regression. -/
def EndsWithOne : Prop :=
  Fails files call ∨
  (∃ r path, report? files call = some r ∧ summaryPath? setting = some path ∧
    files.appendFault? path r.markdown ≠ none) ∨
  ∃ r, report? files call = some r ∧ ∃ v ∈ r.verdicts, v.status = .regression

/-- The section that a run adds to the summary: that of its report, if a summary is set and can
be added to. -/
def addition? : Option (String × String) :=
  (report? files call).bind fun r =>
    ((summaryPath? setting).filter fun path => files.appendFault? path r.markdown = none).map
      fun path => (path, r.markdown)

theorem addition?_eq_some_iff {path text : String} :
    addition? files setting call = some (path, text) ↔
      summaryPath? setting = some path ∧ files.appendFault? path text = none ∧
        ∃ r, report? files call = some r ∧ text = r.markdown := by
  simp only [addition?, Option.bind_eq_some_iff, Option.filter_eq_some_iff, decide_eq_true_eq,
    Option.map_eq_some_iff, Prod.mk.injEq]
  constructor
  · rintro ⟨r, hr, _, ⟨hpath, hopen⟩, rfl, rfl⟩
    exact ⟨hpath, hopen, r, hr, rfl⟩
  · rintro ⟨hpath, hopen, r, hr, rfl⟩
    exact ⟨r, hr, path, ⟨hpath, hopen⟩, rfl, rfl⟩

theorem addition?_eq_none (h : report? files call = none) :
    addition? files setting call = none := by
  simp [addition?, h]

/-- Where a check comes to a report, its status is that of the report unless the section cannot
be added. -/
theorem concluded_spec (r : Report) (before : List Line) :
    let result := concluded files setting call r before
    (result.status = 1 ↔ (∃ path, summaryPath? setting = some path ∧
        files.appendFault? path r.markdown ≠ none) ∨ ∃ v ∈ r.verdicts, v.status = .regression) ∧
      result.status ≤ 1 ∧
      result.appended = ((summaryPath? setting).filter fun path =>
        files.appendFault? path r.markdown = none).map fun path => (path, r.markdown) := by
  have hexit := r.exitCode_eq
  unfold concluded
  cases hpath : summaryPath? setting with
  | none =>
    simp only [hexit]
    split_ifs with h <;> simp [h]
  | some path =>
    -- the summary is tried before the conclusion, so its fault decides
    cases hfault : files.appendFault? path r.markdown with
    | some fault => simp [failed, hfault, Option.filter]
    | none =>
      simp only [hexit]
      split_ifs with h <;> simp [h, hfault, Option.filter]

theorem check_spec :
    let result := check files setting call
    (result.status = 1 ↔ EndsWithOne files setting call) ∧ result.status ≤ 1 ∧
      result.appended = addition? files setting call := by
  have hfails := fails_iff files call
  have hreport := report?_eq files call
  unfold EndsWithOne addition?
  rw [check_eq]
  cases hcourse : course files call with
  | noPolicy f => simp_all [failed]
  | noRuns f => simp_all [failed]
  | unknownSuite p names => simp_all [withoutHistory]
  -- only here is anything added, and only here can a regression be found
  | judged p runs r =>
    have hno : ¬ Fails files call := by simp [hfails, hcourse]
    have hr : report? files call = some r := by rw [hreport, hcourse]
    obtain ⟨hone, hle, happended⟩ := concluded_spec files setting call r
      (loadingLines call ++ checkingLines call p runs
        ++ traceLines call.debug (eventsOfHistory (History.ofRuns runs) p)
        ++ reportLines call r)
    refine ⟨?_, hle, ?_⟩
    · rw [hone]
      simp [hno, hr]
    · rw [happended, hr, Option.bind_some]

end

/-! ## One run among files -/

section

variable {σ : Type} [FileSystem σ]

theorem appendFault?_eq_none_iff {s : σ} {path text : String} :
    (filesOf s).appendFault? path text = none ↔ (FileSystem.append s path text).isOk = true := by
  simp only [filesOf]
  cases FileSystem.append s path text <;> simp [Except.isOk, Except.toBool]

/-- A run is its check, and the files with what the check adds. -/
theorem runIn_eq (s : σ) (setting : Option String) {arguments : List String} {call : Invocation}
    (h : Invocation.ofArguments arguments = .ok call) :
    runIn s setting arguments =
      (check (filesOf s) setting call,
        match (check (filesOf s) setting call).appended with
        | none => s
        | some (path, text) => (FileSystem.append s path text).toOption.getD s) := by
  have hrun : run (filesOf s) setting arguments = check (filesOf s) setting call := by rw [run, h]
  unfold runIn
  rw [hrun]
  dsimp only
  cases (check (filesOf s) setting call).appended with
  | none => rfl
  | some added =>
    dsimp only
    cases FileSystem.append s added.1 added.2 <;> rfl

/-- A run changes the files by its section only. -/
theorem runIn_spec (s : σ) (setting : Option String) {arguments : List String} {call : Invocation}
    (h : Invocation.ofArguments arguments = .ok call) :
    (runIn s setting arguments).1 = check (filesOf s) setting call ∧
    (addition? (filesOf s) setting call = none → (runIn s setting arguments).2 = s) ∧
    ∀ path text, addition? (filesOf s) setting call = some (path, text) →
      summaryPath? setting = some path ∧
      FileSystem.append s path text = .ok (runIn s setting arguments).2 := by
  obtain ⟨-, -, happended⟩ := check_spec (filesOf s) setting call
  rw [runIn_eq s setting h, happended]
  cases hsection : addition? (filesOf s) setting call with
  | none => simp
  | some added =>
    obtain ⟨path, text⟩ := added
    obtain ⟨hpath, hopen, -⟩ := (addition?_eq_some_iff ..).1 hsection
    -- the summary could be added to when it was tried, and it is the same state now
    obtain ⟨s', happend⟩ := isOk_eq_true_iff.1 (appendFault?_eq_none_iff.1 hopen)
    refine ⟨rfl, nofun, ?_⟩
    rintro _ _ ⟨⟩
    refine ⟨hpath, ?_⟩
    change FileSystem.append s path text = .ok ((FileSystem.append s path text).toOption.getD s)
    rw [happend]
    rfl

end

/-! ## Sessions -/

/-- A run of the program: the summary setting, arguments that ask for a check, and what the system
denies it. -/
structure Launch where
  setting : Option String
  arguments : List String
  call : Invocation
  accepted : Invocation.ofArguments arguments = .ok call
  denial : Denial

section

variable {σ : Type} [FileSystem σ]

/-- The files as a run sees them. -/
def Launch.files (l : Launch) (s : σ) : Files := filesOf (⟨s, l.denial⟩ : Denied σ)

theorem Launch.files_of_none {l : Launch} (h : l.denial = .none) (s : σ) :
    l.files s = filesOf s := by
  unfold Launch.files filesOf
  rw [h]
  refine congrArg _ (funext₂ fun path text => ?_)
  simp only [FileSystem.append, Denial.none]
  cases FileSystem.append s path text <;> rfl

/-- One run: what it does, and the files after it. -/
def Launch.perform (l : Launch) (s : σ) : Result × σ :=
  let (result, s') := runIn (⟨s, l.denial⟩ : Denied σ) l.setting l.arguments
  (result, s'.state)

/-- Runs one after the other: what each does, and the files after all of them. -/
def session (s : σ) : List Launch → List Result × σ
  | [] => ([], s)
  | l :: rest =>
    let (result, s') := l.perform s
    let (results, s'') := session s' rest
    (result :: results, s'')

/-- The sections that runs add. -/
def sections (s : σ) (launches : List Launch) : List String :=
  launches.filterMap fun l => (addition? (l.files s) l.setting l.call).map (·.2)

/-- What a run of a session has to do, said of the files with which the session began. -/
structure Fits (s : σ) (l : Launch) (result : Result) : Prop where
  status : result.status = 1 ↔ EndsWithOne (l.files s) l.setting l.call
  otherwise : result.status ≠ 1 → result.status = 0
  missing : MissesSuite (l.files s) l.call → result.status = 0 ∧ result.appended = none
  failing : Fails (l.files s) l.call → result.appended = none
  appended : result.appended = addition? (l.files s) l.setting l.call

theorem Launch.perform_spec (l : Launch) (s : σ) :
    (l.perform s).1 = check (l.files s) l.setting l.call ∧
    (addition? (l.files s) l.setting l.call = none → (l.perform s).2 = s) ∧
    ∀ path text, addition? (l.files s) l.setting l.call = some (path, text) →
      summaryPath? l.setting = some path ∧
      FileSystem.append s path text = .ok (l.perform s).2 := by
  obtain ⟨hresult, hnone, hsome⟩ := runIn_spec (⟨s, l.denial⟩ : Denied σ) l.setting l.accepted
  refine ⟨hresult, fun h => congrArg Denied.state (hnone h), fun path text h => ?_⟩
  obtain ⟨hpath, happend⟩ := hsome path text h
  exact ⟨hpath, Denied.append_state happend⟩

end

/-! ## Growth -/

section

open LawfulFileSystem

variable {σ : Type} [FileSystem σ] [LawfulFileSystem σ]

/-- Files in which some texts have been added to the summary and nothing else has changed. -/
structure Grown (s : σ) (summary : String) (texts : List String) (s' : σ) : Prop where
  others : ∀ f, ¬ Leads s summary f → contents s' f = contents s f
  leads : ∀ path f, Leads s' path f ↔ Leads s path f
  appends : ∀ path text,
    (FileSystem.append s' path text).isOk = (FileSystem.append s path text).isOk
  reads : ∀ path, FileSystem.Apart s summary path →
    (FileSystem.read s' path).toOption = (FileSystem.read s path).toOption
  summary : ∀ f, Leads s summary f →
    contents s' f =
      if texts = [] then contents s f
      else some ((contents s f).getD .empty ++ (String.join texts).toUTF8)

variable {s₀ s : σ} {summary : String} {texts : List String} {l : Launch}

theorem Grown.refl (s : σ) (summary : String) : Grown s summary [] s :=
  ⟨fun _ _ => rfl, fun _ _ => Iff.rfl, fun _ _ => rfl, fun _ _ => rfl, fun _ _ => rfl⟩

/-- A further text in the summary. -/
theorem Grown.added (grown : Grown s₀ summary texts s) {text : String} {s' : σ}
    (happend : FileSystem.append s summary text = .ok s') :
    Grown s₀ summary (texts ++ [text]) s' := by
  obtain ⟨f, hleads, hgrown, hothers⟩ := append_eq_ok happend
  rw [grown.leads] at hleads
  refine ⟨fun other hother => ?_, fun path other => ?_, fun path more => ?_, fun path apart => ?_,
    fun other hother => ?_⟩
  · -- other files: the append touches the file that the summary path leads to alone
    have hne : other ≠ f := fun h => hother (h ▸ hleads)
    rw [hothers other hne, grown.others other hother]
  · rw [leads_append happend, grown.leads]
  · rw [append_append happend, grown.appends]
  · -- reading: a path apart from the summary leads to none of the changed files
    rw [← grown.reads path apart]
    refine read_append happend fun other hother => hothers other ?_
    rintro rfl
    exact apart other hleads ((grown.leads path other).1 hother)
  · -- the summary: its content, and the new text behind the earlier ones
    obtain rfl := leads_unique hother hleads
    have hne : texts ++ [text] ≠ [] := by simp
    rw [hgrown, grown.summary other hother, if_neg hne, String.join_append, String.join_cons,
      String.join_nil, String.append_empty]
    split_ifs with hempty
    · rw [hempty, String.join_nil, String.empty_append]
    · rw [Option.getD_some, String.toUTF8_eq_toByteArray, String.toUTF8_eq_toByteArray,
        String.toUTF8_eq_toByteArray, String.toByteArray_append, ByteArray.append_assoc]

/-- What is read from the summary is what it held at first and the texts behind it. -/
theorem Grown.read_summary (grown : Grown s₀ summary texts s) (hne : texts ≠ [])
    {bytes : ByteArray} (hread : FileSystem.read s summary = .ok bytes) :
    ∃ f, Leads s₀ summary f ∧
      bytes = (contents s₀ f).getD .empty ++ (String.join texts).toUTF8 := by
  obtain ⟨f, hleads, hbytes⟩ := read_eq_ok hread
  rw [grown.leads] at hleads
  rw [grown.summary f hleads, if_neg hne] at hbytes
  exact ⟨f, hleads, (Option.some.inj hbytes).symm⟩

/-- What a run finds is what it would have found at first. -/
theorem Grown.finds (grown : Grown s₀ summary texts s)
    (apart : ∀ path ∈ pathsRead l.call, FileSystem.Apart s₀ summary path) :
    addition? (l.files s) l.setting l.call = addition? (l.files s₀) l.setting l.call ∧
      (EndsWithOne (l.files s) l.setting l.call ↔ EndsWithOne (l.files s₀) l.setting l.call) ∧
      (Fails (l.files s) l.call ↔ Fails (l.files s₀) l.call) ∧
      (MissesSuite (l.files s) l.call ↔ MissesSuite (l.files s₀) l.call) := by
  have hopen : ∀ path text, (l.files s).appendFault? path text = none ↔
      (l.files s₀).appendFault? path text = none := fun path text => by
    rw [Launch.files, Launch.files, appendFault?_eq_none_iff, appendFault?_eq_none_iff,
      Denied.isOk_append_eq (grown.appends path text)]
  obtain ⟨hreport, hfails, hmissing⟩ := course_depends (l.files s₀) (l.files s) fun path hpath =>
    Denied.toOption_read_eq (grown.reads path (apart path hpath)) l.denial
  unfold addition? EndsWithOne
  simp only [hreport, hfails, hmissing, hopen, ne_eq, and_self]

/-- One run of a session. -/
theorem Grown.step (grown : Grown s₀ summary texts s)
    (hsetting : l.setting = some summary ∨ l.setting = some "" ∨ l.setting = none)
    (apart : ∀ path ∈ pathsRead l.call, FileSystem.Apart s₀ summary path) :
    Fits s₀ l (l.perform s).1 ∧
      Grown s₀ summary (texts ++ sections s₀ [l]) (l.perform s).2 := by
  obtain ⟨hresult, hnone, hsome⟩ := l.perform_spec s
  obtain ⟨hstatus, hle, happended⟩ := check_spec (l.files s) l.setting l.call
  obtain ⟨haddition, hone, hfails, hmissing⟩ := grown.finds apart
  rw [haddition] at happended hnone hsome
  constructor
  · rw [hresult]
    refine ⟨hstatus.trans hone, fun h => by omega, fun h => ?_, fun h => ?_, happended⟩
    · have hreport := (report?_eq_none_iff (l.files s₀) l.call).2 (.inr h)
      have hzero : ¬ EndsWithOne (l.files s₀) l.setting l.call := by
        simp [EndsWithOne, hreport, not_fails_of_missesSuite h]
      refine ⟨?_, by rw [happended, addition?_eq_none _ _ _ hreport]⟩
      rw [← hone, ← hstatus] at hzero
      omega
    · rw [happended, addition?_eq_none _ _ _ ((report?_eq_none_iff ..).2 (.inl h))]
  · cases hsection : addition? (l.files s₀) l.setting l.call with
    | none =>
      rw [hnone hsection]
      simpa [sections, hsection] using grown
    | some added =>
      obtain ⟨path, text⟩ := added
      obtain ⟨hpath, happend⟩ := hsome path text hsection
      -- a section goes to the summary of the session, as a run has no other
      have hsummary : path = summary := by
        rcases hsetting with h | h | h <;> rw [h] at hpath <;> simp [summaryPath?] at hpath
        exact hpath.1.symm
      rw [hsummary] at happend
      simpa [sections, hsection] using grown.added happend

/-- All runs of a session. -/
theorem Grown.session (grown : Grown s₀ summary texts s) {launches : List Launch}
    (settings : ∀ l ∈ launches,
      l.setting = some summary ∨ l.setting = some "" ∨ l.setting = none)
    (apart : ∀ l ∈ launches, ∀ path ∈ pathsRead l.call, FileSystem.Apart s₀ summary path) :
    List.Forall₂ (Fits s₀) launches (session s launches).1 ∧
      Grown s₀ summary (texts ++ sections s₀ launches) (session s launches).2 := by
  induction launches generalizing s texts with
  | nil => exact ⟨.nil, by rwa [sections, List.filterMap_nil, List.append_nil]⟩
  | cons l rest ih =>
    obtain ⟨hfits, hgrown⟩ :=
      grown.step (settings l List.mem_cons_self) (apart l List.mem_cons_self)
    obtain ⟨hrest, hlast⟩ := ih hgrown (fun l hl => settings l (List.mem_cons_of_mem _ hl))
      fun l hl => apart l (List.mem_cons_of_mem _ hl)
    rw [List.append_assoc, sections, sections, ← List.filterMap_append] at hlast
    exact ⟨.cons hfits hrest, hlast⟩

end

/-- A history file of one suite, in which a benchmark has become three times slower. -/
def slowedText : String :=
  "window.BENCHMARK_DATA = \x7b\"entries\":\x7b\"fast\":[" ++
    "\x7b\"benches\":[\x7b\"name\":\"fib\",\"value\":1\x7d]\x7d," ++
    "\x7b\"benches\":[\x7b\"name\":\"fib\",\"value\":3\x7d]\x7d]\x7d\x7d"

/-- A policy file that is content with two values. -/
def patienceText : String := "window_size = 5\nmin_history = 2\n"

/-- Settings that two runs are enough for. -/
def patience : Policy := ⟨5, Policy.standard.threshold, 2⟩

/-- A working directory with the history file and the policy file, and elsewhere a summary that has
a text already. -/
def repository : Tree where
  nodes place := List.lookup place [
    (["repo"], .directory), (["repo", "dev"], .directory), (["repo", "dev", "bench"], .directory),
    (["repo", "dev", "bench", "data.js"], .file slowedText.toUTF8 false),
    (["repo", "bench.toml"], .file patienceText.toUTF8 false),
    (["tmp"], .directory), (["tmp", "summary.md"], .file "# Summary\n".toUTF8 true)]
  working := ["repo"]

/-- The check of a suite of the history file, with a policy file. -/
def repositoryCall (policy suite : String) : Invocation :=
  ⟨"dev/bench/data.js", suite, some policy, .standard, .text, false⟩

/-- A check of the suite. -/
def plainLaunch : Launch :=
  ⟨some "/tmp/summary.md", ["--config", "bench.toml", "dev/bench/data.js", "fast"],
    repositoryCall "bench.toml" "fast", by cbv, .none⟩

/-- A check of another suite. -/
def unknownLaunch : Launch :=
  ⟨some "/tmp/summary.md", ["--config", "bench.toml", "dev/bench/data.js", "slow"],
    repositoryCall "bench.toml" "slow", by cbv, .none⟩

/-- A check with a policy file that does not exist. -/
def lostLaunch : Launch :=
  ⟨none, ["--config", "lost.toml", "dev/bench/data.js", "fast"],
    repositoryCall "lost.toml" "fast", by cbv, .none⟩

/-- A check of the suite while the disk is full. -/
def fullLaunch : Launch :=
  { plainLaunch with
    denial := ⟨fun _ => none, fun _ => some (.refused "No space left on device" 28)⟩ }

/-- A regression, an unknown suite, a policy file that does not exist, and a full disk. -/
def fourLaunches : List Launch := [plainLaunch, unknownLaunch, lostLaunch, fullLaunch]

/-- The report on the suite. -/
def slowedReport : Report :=
  ⟨[⟨"fib", .regression, 3, some 1, some 3, none, none⟩], patience⟩

theorem leads_repository :
    repository.Leads "dev/bench/data.js" ["repo", "dev", "bench", "data.js"] ∧
    repository.Leads "bench.toml" ["repo", "bench.toml"] ∧
    repository.Leads "lost.toml" ["repo", "lost.toml"] ∧
    repository.Leads "/tmp/summary.md" ["tmp", "summary.md"] := by
  have hdata : repository.node? ["repo", "dev", "bench", "data.js"] =
      some (.file slowedText.toUTF8 false) := rfl
  have hpolicy : repository.node? ["repo", "bench.toml"] =
      some (.file patienceText.toUTF8 false) := rfl
  have hlost : repository.node? ["repo", "lost.toml"] = none := rfl
  have hsummary : repository.node? ["tmp", "summary.md"] =
      some (.file "# Summary\n".toUTF8 true) := rfl
  refine ⟨⟨toOption_eq_some_iff.1 ?_, by simp [hdata]⟩,
    ⟨toOption_eq_some_iff.1 ?_, by simp [hpolicy]⟩, ⟨toOption_eq_some_iff.1 ?_, by simp [hlost]⟩,
    ⟨toOption_eq_some_iff.1 ?_, by simp [hsummary]⟩⟩ <;>
    decide +kernel

theorem read_repository :
    repository.read "dev/bench/data.js" = .ok slowedText.toUTF8 ∧
    repository.read "bench.toml" = .ok patienceText.toUTF8 ∧
    repository.read "lost.toml" = .error .missing := by
  obtain ⟨hdata, hpolicy, hlost, -⟩ := leads_repository
  refine ⟨Tree.read_eq_ok_iff.2 ⟨_, hdata, rfl⟩, Tree.read_eq_ok_iff.2 ⟨_, hpolicy, rfl⟩, ?_⟩
  rw [Tree.read, hlost.1]
  rfl

/-- A suite of two runs, the newer one three times slower. -/
def slowedArchive : Archive :=
  ⟨.ofList [("fast", .array [
    .object [("benches",
      .array [.object [("name", .string "fib"), ("value", .number (.ofNat 1))]])],
    .object [("benches",
      .array [.object [("name", .string "fib"), ("value", .number (.ofNat 3))]])]])]⟩

/-- The runs of that suite. -/
def slowedRuns : List Run := [⟨[⟨"fib", 1, none⟩]⟩, ⟨[⟨"fib", 3, none⟩]⟩]

theorem parse_slowedText : Archive.parse slowedText = .ok slowedArchive := by cbv

theorem parse_patienceText : Policy.parse patienceText = .ok patience := by
  have hrows : Toml.parse patienceText =
      some [("window_size", .integer 5), ("min_history", .integer 2)] := by cbv
  have hpolicy : (Toml.parse patienceText).bind Policy.ofRows? = some patience := by
    rw [hrows]
    decide +kernel
  have hvalid : patience.flaw? = none := by decide +kernel
  rw [Policy.parse, hpolicy]
  simp only [hvalid]

/-- What the checks come to, unless a file is denied them that they read. -/
theorem course_repository {files : Files} (hfiles : files.read = repository.read) :
    course files (repositoryCall "bench.toml" "fast") =
      .judged patience slowedRuns slowedReport ∧
    course files (repositoryCall "bench.toml" "slow") =
      .unknownSuite patience ["fast"] ∧
    ∃ f, course files (repositoryCall "lost.toml" "fast") = .noPolicy f := by
  obtain ⟨hdata, htoml, hlost⟩ := read_repository
  have hpolicy (suite : String) :
      policyOf files (repositoryCall "bench.toml" suite) = .ok patience := by
    have hfile : Policy.ofFile "bench.toml" (files.read "bench.toml") = .ok patience := by
      rw [hfiles, htoml, Policy.ofFile, Except.bind, decodeText_toUTF8]
      exact parse_patienceText
    simp only [policyOf, repositoryCall, hfile]
  have hfile : Archive.ofFile "dev/bench/data.js" (files.read "dev/bench/data.js") =
      .ok slowedArchive := by
    rw [hfiles, hdata, Archive.ofFile, Except.bind, decodeText_toUTF8]
    simp only [parse_slowedText]
  have hruns : slowedArchive.suiteRuns "fast" = .ok (some slowedRuns) :=
    toOption_eq_some_iff.1 (by decide +kernel)
  have hreport : reportOn patience slowedRuns = slowedReport := by decide +kernel
  -- a check that is judged, one of another suite, and one without its policy
  refine ⟨?_, ?_, ?_⟩
  · simp only [course, hpolicy]
    simp only [repositoryCall, hfile, hruns, hreport]
  · have hnone : slowedArchive.suiteRuns "slow" = .ok none :=
      toOption_eq_some_iff.1 (by decide +kernel)
    have hnames : slowedArchive.suiteNames = ["fast"] := by decide +kernel
    simp only [course, hpolicy]
    simp only [repositoryCall, hfile, hnone, hnames]
  · simp only [course, policyOf, repositoryCall, hfiles, hlost]
    exact ⟨_, rfl⟩

theorem report_repository {files : Files} (hfiles : files.read = repository.read) :
    report? files (repositoryCall "bench.toml" "fast") = some slowedReport := by
  rw [report?_eq, (course_repository hfiles).1]

/-- Of the two checks that come to a report only the first can add its section. -/
theorem sections_fourLaunches : sections repository fourLaunches = [slowedReport.markdown] := by
  obtain ⟨-, -, -, hsummary⟩ := leads_repository
  have hnode : repository.node? ["tmp", "summary.md"] =
      some (.file "# Summary\n".toUTF8 true) := rfl
  have hwritable : repository.Open ["tmp", "summary.md"] := by simp [Tree.Open, hnode]
  have hopen : (filesOf repository).appendFault? "/tmp/summary.md" slowedReport.markdown = none :=
    appendFault?_eq_none_iff.2 (Tree.isOk_append_iff.2 ⟨_, hsummary, hwritable⟩)
  have hplain : addition? (plainLaunch.files repository) plainLaunch.setting plainLaunch.call =
      some ("/tmp/summary.md", slowedReport.markdown) := by
    rw [Launch.files_of_none rfl]
    exact (addition?_eq_some_iff ..).2 ⟨rfl, hopen, _, report_repository rfl, rfl⟩
  have hunknown :
      addition? (unknownLaunch.files repository) unknownLaunch.setting unknownLaunch.call = none :=
    addition?_eq_none _ _ _ ((report?_eq_none_iff ..).2
      (.inr ((missesSuite_iff ..).2 ⟨_, _, (course_repository rfl).2.1⟩)))
  have hlost : addition? (lostLaunch.files repository) lostLaunch.setting lostLaunch.call = none :=
    addition?_eq_none _ _ _ ((report?_eq_none_iff ..).2
      (.inl ((fails_iff ..).2 (.inl (course_repository rfl).2.2))))
  -- nothing is added although there is a report: the disk is full
  have hfull :
      addition? (fullLaunch.files repository) fullLaunch.setting fullLaunch.call = none := by
    have hreport : report? (fullLaunch.files repository) fullLaunch.call = some slowedReport :=
      report_repository rfl
    rw [addition?, hreport]
    rfl
  simp only [sections, fourLaunches, List.filterMap_cons, List.filterMap_nil, hplain, hunknown,
    hlost, hfull, Option.map_some, Option.map_none]

end Command

end Slowdown
