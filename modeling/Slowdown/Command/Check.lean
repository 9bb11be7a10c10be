/-
The check as a program: from the files, the summary setting and the arguments to the exit
status, the lines printed, and the text added to the summary.
-/
import Slowdown.Archive.File
import Slowdown.Command.Invocation
import Slowdown.Command.Trace
import Slowdown.Directory
import Slowdown.Policy.Reader
import Slowdown.Report.Document
import Slowdown.Report.Markdown

namespace Slowdown

namespace Command

/-! ## Results -/

/-- Where a line is printed: on the standard output, or among the errors. -/
inductive Channel where
  | output
  | error
  deriving DecidableEq

/-- A line printed on a channel. -/
structure Line where
  channel : Channel
  text : String

/-- The text that lines leave on a channel. -/
def textOn (channel : Channel) (lines : List Line) : String :=
  String.join ((lines.filter (·.channel = channel)).map (·.text ++ "\n"))

/-- What a run of the program does. -/
structure Result where
  status : Nat
  lines : List Line
  /-- The summary file and the text added to it. -/
  appended : Option (String × String)

/-- What a run can see of the files: the contents of each, and why a text cannot be added to it. -/
structure Files where
  read : String → Except FileFault ByteArray
  appendFault? : String → String → Option FileFault

/-! ## Failures -/

/-- A failure that ends a run: a message, and what led to it, the nearest first. -/
structure Failure where
  message : String
  causes : List String

/-- A text in which each line after the first begins with some blanks. -/
def hanging (blanks : Nat) (s : String) : String :=
  ("\n" ++ String.ofList (List.replicate blanks ' ')).intercalate (s.splitOn "\n")

/-- A single cause is only indented; several are numbered from zero. -/
def causesText (causes : List String) : String :=
  match causes with
  | [cause] => "\n    " ++ hanging 4 cause
  | _ =>
    String.join (causes.zipIdx.map fun (cause, i) =>
      "\n" ++ String.ofList (List.replicate (5 - (toString i).length) ' ') ++ toString i ++ ": "
        ++ hanging 7 cause)

/-- A failure as it is printed. A message without causes has no section for them. -/
def Failure.text (f : Failure) : String :=
  "Error: " ++ f.message ++ if f.causes = [] then "" else "\n\nCaused by:" ++ causesText f.causes

/-- The failure of a run whose history could not be had. -/
def failureOfArchive (f : Archive.Failure) : Failure := ⟨f.message, [f.cause]⟩

/-- The failure of a run whose settings could not be had. The last cause of a malformed text is in
this library's own words, as `Policy.Fault.message` is. -/
def failureOfPolicy (path : String) (f : Policy.Fault) : Failure :=
  ⟨"Failed to load config " ++ path,
    f.message ::
      match f with
      | .unreadable _ fault => [fault.text]
      | .malformed => ["not a table of settings"]
      | .flawed _ => []⟩

/-- The failure of a run whose summary could not be added to. -/
def failureOfSummary (path : String) (fault : FileFault) : Failure :=
  ⟨"Failed to append summary to " ++ path ++ ": " ++ fault.text, [fault.text]⟩

/-! ## Steps -/

/-- The summary file that a setting names; an empty setting names none. -/
def summaryPath? (setting : Option String) : Option String := setting.filter (· ≠ "")

/-- Lines that tell how far a run has come. They give way to the document where that is the
output. -/
def progress (format : Format) (texts : List String) : List Line :=
  texts.map (Line.mk (match format with | .text => .output | .json => .error))

/-- The lines of a trace, if one was asked for. They never mix with the document. -/
def traceLines (debug : Bool) (events : List Event) : List Line :=
  if debug then events.map fun e => ⟨.error, e.text⟩ else []

/-- A run that ends in a failure after some lines. -/
def failed (lines : List Line) (f : Failure) : Result :=
  ⟨1, lines ++ [⟨.error, f.text⟩], none⟩

/-- The policy that an invocation asks for. -/
def policyOf (files : Files) (call : Invocation) : Except Failure Policy :=
  match call.config with
  | some path =>
    match Policy.ofFile path (files.read path) with
    | .ok p => .ok p
    | .error fault => .error (failureOfPolicy path fault)
  | none =>
    match call.preset.policy.flaw? with
    | some flaw => .error ⟨flaw.message, []⟩
    | none => .ok call.preset.policy

/-- A suite without history passes. -/
def withoutHistory (call : Invocation) (p : Policy) (names : List String) (before : List Line) :
    Result :=
  let said := progress call.format [
    "Suite '" ++ call.suite ++ "' not found. Available: " ++ Text.quotedList names,
    "No history yet - skipping regression check."]
  let document : List Line :=
    match call.format with
    | .text => []
    | .json => [⟨.output, (Report.missingSuite call.suite p).indentedText⟩]
  ⟨0, before ++ said ++ document, none⟩

/-- The lines that hold the result itself. -/
def reportLines (call : Invocation) (r : Report) : List Line :=
  match call.format with
  | .text => r.consoleLines.map (Line.mk .output)
  | .json => [⟨.output, (r.document call.suite).indentedText⟩]

/-- The end of a run with a report: the summary, then the conclusion. -/
def concluded (files : Files) (setting : Option String) (call : Invocation) (r : Report)
    (before : List Line) : Result :=
  let conclusion := progress call.format ("" :: r.conclusionLines)
  match summaryPath? setting with
  | none => ⟨r.outcome.exitCode, before ++ conclusion, none⟩
  | some path =>
    match files.appendFault? path r.markdown with
    | some fault => failed before (failureOfSummary path fault)
    | none =>
      ⟨r.outcome.exitCode, before ++ traceLines call.debug [.appended path] ++ conclusion,
        some (path, r.markdown)⟩

/-- A run with the history of a suite. -/
def withHistory (files : Files) (setting : Option String) (call : Invocation) (p : Policy)
    (runs : List Run) (before : List Line) : Result :=
  let history := History.ofRuns runs
  let said := before ++ progress call.format [
    s!"Found {runs.length} historical entries for '" ++ call.suite ++ "'",
    s!"Checking {history.size} benchmarks (window={p.windowSize}, threshold="
      ++ Decimal.fixed 0 p.thresholdPercent ++ s!"%, min_history={p.minHistory}):",
    ""]
  match history.assess p with
  | .error flaw => failed said ⟨flaw.message, []⟩
  | .ok verdicts =>
    let r := Report.ofVerdicts verdicts p
    concluded files setting call r
      (said ++ traceLines call.debug (eventsOfHistory history p) ++ reportLines call r)

/-- A run that an invocation asks for. The policy is loaded before anything is said. -/
def check (files : Files) (setting : Option String) (call : Invocation) : Result :=
  match policyOf files call with
  | .error f => failed [] f
  | .ok p =>
    let said := progress call.format ["Loading benchmark data from " ++ call.dataFile]
    match Archive.ofFile call.dataFile (files.read call.dataFile) with
    | .error f => failed said (failureOfArchive f)
    | .ok archive =>
      match archive.suiteRuns call.suite with
      | .error f => failed said (failureOfArchive f)
      | .ok none => withoutHistory call p archive.suiteNames said
      | .ok (some runs) => withHistory files setting call p runs said

/-! ## The program -/

/-- The name and the version of the program. -/
def versionText : String := "perfwatch 0.1.0"

/-- What is printed for help. The words and their layout are this library's own, where an argument
parser would draw them up from its table of arguments. -/
def usageText : String :=
  "\n".intercalate [
    "Detect benchmark regressions against an IQR-filtered median baseline",
    "",
    "Usage: perfwatch [OPTIONS] <DATA_FILE> <SUITE>",
    "",
    "Options:",
    "      --config <FILE>      TOML file with the settings",
    "      --preset <PRESET>    default, strict or permissive",
    "      --format <FORMAT>    text or json",
    "      --debug              Trace what is found out about each benchmark",
    "  -h, --help               Print help",
    "  -V, --version            Print version",
    "",
    "Exit status: 0 no regression (or no history yet), 1 regression detected, 2 usage error.",
    "If GITHUB_STEP_SUMMARY is set, a Markdown summary is appended to that file."]

/-- What is said of a command line that starts no check. The words are this library's own, where an
argument parser would name the argument and the values that it takes. -/
def Refusal.message : Refusal → String
  | missingArgument => "a required argument is missing"
  | unknownArgument => "unexpected argument"
  | invalidValue => "invalid value"
  | conflict => "an argument cannot be used with another one, or not twice"
  | unexpectedValue => "unexpected value"
  | help => usageText
  | version => versionText

/-- Help and version are answered on the output; other refusals are usage errors. -/
def refused : Refusal → Result
  | .help => ⟨0, [⟨.output, usageText⟩], none⟩
  | .version => ⟨0, [⟨.output, versionText⟩], none⟩
  | r => ⟨2, [⟨.error, "error: " ++ r.message ++ "\n\nFor more information, try '--help'."⟩], none⟩

/-- A run of the program with given arguments. -/
def run (files : Files) (setting : Option String) (arguments : List String) : Result :=
  match Invocation.ofArguments arguments with
  | .error r => refused r
  | .ok call => check files setting call

/-! ## Runs in a file system -/

section

variable {σ : Type} [FileSystem σ]

/-- What can be seen of a state of the files. -/
def filesOf (s : σ) : Files where
  read := FileSystem.read s
  appendFault? path text :=
    match FileSystem.append s path text with
    | .ok _ => none
    | .error fault => some fault

/-- A run among files: its result, and the state of the files after it. -/
def runIn (s : σ) (setting : Option String) (arguments : List String) : Result × σ :=
  let result := run (filesOf s) setting arguments
  match result.appended with
  | none => (result, s)
  | some (path, text) =>
    match FileSystem.append s path text with
    | .ok s' => (result, s')
    | .error _ => (result, s)

end

end Command

end Slowdown
