/-
The two formats of a check: they agree in what is found out, in the status and in the files, and
print the same progress; the one puts the lines of the report on the output, the other a single
JSON document.
-/
import Slowdown.Proofs.Command.Session
import Slowdown.Proofs.Report.Reading

namespace Slowdown

namespace Command

/-! ## Texts on a channel -/

/-- Texts with a line break after each. -/
def linesText (texts : List String) : String := String.join (texts.map (· ++ "\n"))

theorem textOn_append (channel : Channel) (lines more : List Line) :
    textOn channel (lines ++ more) = textOn channel lines ++ textOn channel more := by
  simp [textOn, String.join_append]

@[simp] theorem textOn_nil (channel : Channel) : textOn channel [] = "" := rfl

/-- Lines on one channel leave their texts there, and nothing on the other. -/
theorem textOn_map (channel other : Channel) (texts : List String) :
    textOn channel (texts.map (Line.mk other)) =
      if other = channel then linesText texts else "" := by
  have hfilter : (texts.map (Line.mk other)).filter (·.channel = channel) =
      if other = channel then texts.map (Line.mk other) else [] := by
    split_ifs with h <;> simp [List.filter_map, Function.comp_def, h]
  rw [textOn, hfilter]
  split_ifs
  · rw [List.map_map]
    rfl
  · rfl

theorem textOn_cons (channel other : Channel) (text : String) (lines : List Line) :
    textOn channel (⟨other, text⟩ :: lines) =
      (if other = channel then text ++ "\n" else "") ++ textOn channel lines := by
  unfold textOn
  rw [List.filter_cons]
  split_ifs <;> simp_all [String.join_cons]

/-- What a run leaves on the output. -/
def Result.output (r : Result) : String := textOn .output r.lines

/-- What a run leaves among the errors. -/
def Result.error (r : Result) : String := textOn .error r.lines

/-! ## One check in two formats -/

/-- What the console lines of a report leave, if there is a report. -/
def consoleText (r : Option Report) : String := linesText ((r.map Report.consoleLines).getD [])

/-- How a check in the text format and one in the JSON format go together. -/
structure SameCheck (files : Files) (setting : Option String) (call : Invocation)
    (text json : Result) : Prop where
  status : text.status = json.status
  appended : text.appended = json.appended
  /-- The output of the JSON format is empty or a single document, of which the check only has
  none if it fails before it has a result. -/
  document : json.output = "" ∧ Fails files call ∨
    ∃ v : Json, json.output = v.indentedText ++ "\n" ∧
      Json.tokens v.indentedText.toList = v.spelling ∧ ¬ Fails files call
  /-- Progress before and after the lines of the report, and the message of a failure. -/
  progress : ∃ before after failure,
    text.output = before ++ consoleText (report? files call) ++ after ∧
    text.error = failure ∧
    json.error = before ++ after ++ failure ∧
    (after ≠ "" → summaryPath? setting = none ∨ text.appended ≠ none)

section

variable {files : Files} {setting : Option String} {call : Invocation}

/-- The progress of the text format goes to the output, that of the JSON format elsewhere. -/
theorem textOn_progress (channel : Channel) (format : Format) (texts : List String) :
    textOn channel (Command.progress format texts) =
      if (match format with | .text => Channel.output | .json => .error) = channel
      then linesText texts else "" :=
  textOn_map _ _ _

theorem sameCheck_failed (lines : List String) (f : Failure) (hreport : report? files call = none)
    (hfails : Fails files call) :
    SameCheck files setting call (failed (Command.progress .text lines) f)
      (failed (Command.progress .json lines) f) where
  status := rfl
  appended := rfl
  document := .inl ⟨by simp [Result.output, failed, textOn_append, textOn_progress, textOn_cons],
    hfails⟩
  progress := by
    refine ⟨linesText lines, "", f.text ++ "\n", ?_, ?_, ?_, fun h => absurd rfl h⟩ <;>
      simp [Result.output, Result.error, failed, textOn_append, textOn_progress, textOn_cons,
        hreport, consoleText, linesText]

/-- A suite without history is progress to the end; the document says that there is none. -/
theorem sameCheck_withoutHistory (lines : List String) (p : Policy) (names : List String)
    (hreport : report? files call = none) (hgoes : ¬ Fails files call) :
    SameCheck files setting call
      (withoutHistory { call with format := .text } p names (Command.progress .text lines))
      (withoutHistory { call with format := .json } p names (Command.progress .json lines)) where
  status := rfl
  appended := rfl
  document := by
    refine .inr ⟨Report.missingSuite call.suite p, ?_, Report.tokens_documentOf _ _ _, hgoes⟩
    simp [Result.output, withoutHistory, textOn_append, textOn_progress, textOn_cons]
  progress := by
    refine ⟨linesText lines ++ linesText [
      "Suite '" ++ call.suite ++ "' not found. Available: " ++ Text.quotedList names,
      "No history yet - skipping regression check."], "", "", ?_, ?_, ?_, fun h => absurd rfl h⟩ <;>
      simp [Result.output, Result.error, withoutHistory, textOn_append, textOn_progress,
        textOn_cons, hreport, consoleText, linesText]

/-- With a report the formats differ in its lines, whether the section can be added or not. -/
theorem sameCheck_concluded (lines : List String) (r : Report) (hdebug : call.debug = false)
    (hreport : report? files call = some r) (hgoes : ¬ Fails files call) :
    SameCheck files setting call
      (concluded files setting { call with format := .text } r
        (Command.progress .text lines ++ r.consoleLines.map (Line.mk .output)))
      (concluded files setting { call with format := .json } r
        (Command.progress .json lines ++ [⟨.output, (r.document call.suite).indentedText⟩])) := by
  have hdocument := r.tokens_documentOf call.suite true
  have hconsole : consoleText (report? files call) = linesText r.consoleLines := by
    rw [hreport]
    rfl
  unfold concluded
  cases hpath : summaryPath? setting with
  | none =>
    refine ⟨rfl, rfl, .inr ⟨r.document call.suite, ?_, hdocument, hgoes⟩,
      linesText lines, linesText ("" :: r.conclusionLines), "", ?_, ?_, ?_, fun _ => .inl hpath⟩ <;>
      simp [Result.output, Result.error, textOn_append, textOn_progress, textOn_cons, textOn_map,
        hconsole, String.append_assoc]
  | some path =>
    -- with a fault both formats end before the conclusion
    cases hfault : files.appendFault? path r.markdown with
    | some fault =>
      simp only [hfault]
      refine ⟨rfl, rfl, .inr ⟨r.document call.suite, ?_, hdocument, hgoes⟩,
        linesText lines, "", (failureOfSummary path fault).text ++ "\n", ?_, ?_, ?_,
        fun h => absurd rfl h⟩ <;>
        simp [Result.output, Result.error, failed, textOn_append, textOn_progress, textOn_cons,
          textOn_map, hconsole]
    | none =>
      simp only [hfault]
      refine ⟨rfl, rfl, .inr ⟨r.document call.suite, ?_, hdocument, hgoes⟩,
        linesText lines, linesText ("" :: r.conclusionLines), "", ?_, ?_, ?_,
        fun _ => .inr (by simp)⟩ <;>
        simp [Result.output, Result.error, traceLines, hdebug, textOn_append, textOn_progress,
          textOn_cons, textOn_map, hconsole, String.append_assoc]

end

theorem sameCheck (files : Files) (setting : Option String) (call : Invocation)
    (hdebug : call.debug = false) :
    SameCheck files setting call (check files setting { call with format := .text })
      (check files setting { call with format := .json }) := by
  have htext : course files { call with format := .text } = course files call := rfl
  have hjson : course files { call with format := .json } = course files call := rfl
  have hfails := fails_iff files call
  have hreport := report?_eq files call
  rw [check_eq, check_eq, htext, hjson]
  cases hc : course files call <;> rw [hc] at hfails hreport <;> dsimp only
  case noPolicy f => exact sameCheck_failed [] f hreport (hfails.2 (.inl ⟨f, rfl⟩))
  case noRuns f => exact sameCheck_failed _ f hreport (hfails.2 (.inr ⟨f, rfl⟩))
  case unknownSuite p names =>
    exact sameCheck_withoutHistory _ p names hreport (by rw [hfails]; simp)
  -- lines of both formats begin alike, and go to different channels
  case judged p runs r =>
    have h := @sameCheck_concluded files setting call
      (["Loading benchmark data from " ++ call.dataFile] ++ [
        s!"Found {runs.length} historical entries for '" ++ call.suite ++ "'",
        s!"Checking {(History.ofRuns runs).size} benchmarks (window={p.windowSize}, threshold="
          ++ Decimal.fixed 0 p.thresholdPercent ++ s!"%, min_history={p.minHistory}):",
        ""]) r hdebug hreport (by rw [hfails]; simp)
    simpa [Command.progress, loadingLines, checkingLines, traceLines, hdebug, reportLines] using h

/-- Among any files, whatever they are and whatever the system refuses, the formats are the same
check, and leave the same files. -/
theorem formats_agree {σ : Type} [FileSystem σ] (s : σ) (setting : Option String)
    {call : Invocation} {asText asJson : List String}
    (htext : Invocation.ofArguments asText = .ok { call with format := .text })
    (hjson : Invocation.ofArguments asJson = .ok { call with format := .json })
    (hdebug : call.debug = false) :
    SameCheck (filesOf s) setting call (runIn s setting asText).1 (runIn s setting asJson).1 ∧
      (runIn s setting asText).2 = (runIn s setting asJson).2 := by
  have same := sameCheck (filesOf s) setting call hdebug
  rw [runIn_eq s setting htext, runIn_eq s setting hjson]
  exact ⟨same, by dsimp only; rw [same.appended]⟩

/-- The lines of a regression in the one format and its document in the other. -/
theorem formats_agree_slowed :
    SameCheck (filesOf repository) (some "/tmp/summary.md") (repositoryCall "bench.toml" "fast")
        (runIn repository (some "/tmp/summary.md")
          ["--config", "bench.toml", "dev/bench/data.js", "fast"]).1
        (runIn repository (some "/tmp/summary.md")
          ["--format", "json", "--config", "bench.toml", "dev/bench/data.js", "fast"]).1 ∧
      report? (filesOf repository) (repositoryCall "bench.toml" "fast") = some slowedReport ∧
      consoleText (some slowedReport) =
        "  REGRESSION  fib: current=3.0000 baseline=1.0000 ratio=3.00x\n" ∧
      (runIn repository (some "/tmp/summary.md")
          ["--config", "bench.toml", "dev/bench/data.js", "fast"]).2 =
        (runIn repository (some "/tmp/summary.md")
          ["--format", "json", "--config", "bench.toml", "dev/bench/data.js", "fast"]).2 := by
  obtain ⟨same, hfiles⟩ := @formats_agree Tree _ repository (some "/tmp/summary.md")
    (repositoryCall "bench.toml" "fast")
    ["--config", "bench.toml", "dev/bench/data.js", "fast"]
    ["--format", "json", "--config", "bench.toml", "dev/bench/data.js", "fast"]
    (by cbv) (by cbv) rfl
  exact ⟨same, report_repository rfl, by decide +kernel, hfiles⟩

end Command

end Slowdown
