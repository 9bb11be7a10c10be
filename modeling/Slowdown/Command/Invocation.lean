/-
The command line: two positional arguments and a few options. Arguments are taken from left to
right. The value of an option or a positional argument is looked at only when the next one is
taken or the line ends, so an unknown argument directly after it is found first.
-/
import Slowdown.Policy

namespace Slowdown

namespace Command

/-- A policy that can be asked for by name. -/
inductive Preset where
  | standard
  | strict
  | permissive
  deriving DecidableEq

/-- The policy of a preset. -/
def Preset.policy : Preset → Policy
  | standard => .standard
  | strict => .strict
  | permissive => .permissive

/-- The preset of a name. -/
def Preset.ofText? : String → Option Preset
  | "default" => some standard
  | "strict" => some strict
  | "permissive" => some permissive
  | _ => none

/-- The name of a preset on the command line. -/
def Preset.text : Preset → String
  | standard => "default"
  | strict => "strict"
  | permissive => "permissive"

/-- Whether the result is printed for people or as a JSON document. -/
inductive Format where
  | text
  | json
  deriving DecidableEq

/-- The format of a name. -/
def Format.ofText? : String → Option Format
  | "text" => some text
  | "json" => some json
  | _ => none

/-- The name of a format on the command line. -/
def Format.name : Format → String
  | text => "text"
  | json => "json"

/-- What a command line asks for. -/
structure Invocation where
  dataFile : String
  suite : String
  config : Option String
  preset : Preset
  format : Format
  debug : Bool

/-- Why a command line starts no check. -/
inductive Refusal where
  | missingArgument
  | unknownArgument
  | invalidValue
  | conflict
  | unexpectedValue
  | help
  | version
  deriving DecidableEq

/-! ## Arguments -/

/-- The options that take a value. -/
inductive ValueOption where
  | config
  | preset
  | format
  deriving DecidableEq

/-- What has been taken but not looked at yet. -/
inductive Pending where
  | nothing
  | value (option : ValueOption) (text : Option String)
  | dataFile (text : String)
  | suite (text : String)

/-- The part of a command line taken so far. -/
structure Taken where
  dataFile : Option String
  suite : Option String
  config : Option String
  preset : Option Preset
  format : Option Format
  debug : Bool
  pending : Pending
  /-- How many positional arguments there were. -/
  positionals : Nat
  /-- Whether only positional arguments follow. -/
  optionsEnded : Bool

namespace Taken

/-- The state before the first argument. -/
def nothing : Taken := ⟨none, none, none, none, none, false, .nothing, 0, false⟩

/-- Gives an option its value. An option may be given once. -/
def setOption (t : Taken) (option : ValueOption) (text : String) : Except Refusal Taken :=
  match option with
  | .config =>
    if t.config.isSome then .error .conflict
    else if text = "" then .error .invalidValue
    else .ok { t with config := some text }
  | .preset =>
    if t.preset.isSome then .error .conflict
    else
      match Preset.ofText? text with
      | none => .error .invalidValue
      | some preset => .ok { t with preset := some preset }
  | .format =>
    if t.format.isSome then .error .conflict
    else
      match Format.ofText? text with
      | none => .error .invalidValue
      | some format => .ok { t with format := some format }

/-- Looks at what is pending. -/
def settled (t : Taken) : Except Refusal Taken :=
  let done := { t with pending := .nothing }
  match t.pending with
  | .nothing => .ok t
  | .value _ none => .error .invalidValue
  | .value option (some text) => done.setOption option text
  | .dataFile text =>
    if text = "" then .error .invalidValue else .ok { done with dataFile := some text }
  | .suite text => .ok { done with suite := some text }

/-- Takes an option. Its value may stand behind an equals sign or be the next argument. -/
def takeOption (t : Taken) (option : ValueOption) (value : Option String) :
    Except Refusal Taken := do
  let t ← t.settled
  match value with
  | some text => t.setOption option text
  | none => .ok { t with pending := .value option none }

/-- Takes a flag that has no value. -/
def takeFlag (t : Taken) (value : Option String) (set : Taken → Except Refusal Taken) :
    Except Refusal Taken :=
  match value with
  | some _ => .error .unexpectedValue
  | none => do set (← t.settled)

/-- Takes an option by its long name. -/
def takeLong (t : Taken) (name : String) (value : Option String) : Except Refusal Taken :=
  match name with
  | "config" => t.takeOption .config value
  | "preset" => t.takeOption .preset value
  | "format" => t.takeOption .format value
  | "debug" =>
    t.takeFlag value fun t => if t.debug then .error .conflict else .ok { t with debug := true }
  | "help" => t.takeFlag value fun _ => .error .help
  | "version" => t.takeFlag value fun _ => .error .version
  | _ => .error .unknownArgument

/-- Takes an option by its letter; none of those that have one takes a value. -/
def takeShort (t : Taken) (letter : Char) : Except Refusal Taken :=
  match letter with
  | 'h' => do
    let _ ← t.settled
    .error .help
  | 'V' => do
    let _ ← t.settled
    .error .version
  | _ => .error .unknownArgument

/-- Takes a positional argument: the first is the file, the second the suite. -/
def takePositional (t : Taken) (text : String) : Except Refusal Taken :=
  match t.positionals with
  | 0 => do return { ← t.settled with pending := .dataFile text, positionals := 1 }
  | 1 => do return { ← t.settled with pending := .suite text, positionals := 2 }
  | _ => .error .unknownArgument

/-- The name and the value of a long option, which an equals sign divides. -/
def splitLong (cs : List Char) : String × Option String :=
  match cs.dropWhile (· ≠ '=') with
  | [] => (String.ofList cs, none)
  | _ :: value => (String.ofList (cs.takeWhile (· ≠ '=')), some (String.ofList value))

/-- Takes an argument from the line. -/
def take (t : Taken) (argument : String) : Except Refusal Taken :=
  if t.optionsEnded then t.takePositional argument
  else
    match argument.toList with
    | ['-', '-'] => .ok { t with optionsEnded := true }
    | '-' :: '-' :: rest =>
      let (name, value) := splitLong rest
      t.takeLong name value
    | '-' :: letter :: _ => t.takeShort letter
    | _ =>
      match t.pending with
      | .value option none => .ok { t with pending := .value option (some argument) }
      | _ => t.takePositional argument

/-- The whole line. A conflict is found before a missing argument. -/
def invocation (t : Taken) : Except Refusal Invocation := do
  let t ← t.settled
  if t.config.isSome ∧ t.preset.isSome then .error .conflict
  else
    match t.dataFile, t.suite with
    | some dataFile, some suite =>
      .ok ⟨dataFile, suite, t.config, t.preset.getD .standard, t.format.getD .text, t.debug⟩
    | _, _ => .error .missingArgument

end Taken

/-- Reads the arguments of a command line. -/
def Invocation.ofArguments (arguments : List String) : Except Refusal Invocation := do
  (← arguments.foldlM Taken.take .nothing).invocation

end Command

end Slowdown
