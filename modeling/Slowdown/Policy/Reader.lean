/-
Reading a policy from a TOML document. Missing settings keep their standard values, and unknown
ones are ignored.
-/
import Slowdown.FileSystem
import Slowdown.Policy
import Slowdown.Toml.Reader

namespace Slowdown

namespace Policy

/-- Why a policy cannot be read. -/
inductive Fault where
  | unreadable (path : String) (fault : FileFault)
  /-- The text is no TOML, or a setting has a value of another kind. -/
  | malformed
  | flawed (flaw : Flaw)

/-- What is said of a fault. The words for a malformed text are this library's own, where a TOML
reader would tell the line and what it expected there: `Toml.parse` only tells that it failed. -/
def Fault.message : Fault → String
  | unreadable path fault => "Failed to read config file " ++ path ++ ": " ++ fault.text
  | malformed => "Invalid config TOML: not a table of settings"
  | flawed flaw => flaw.message

/-- A setting that counts has to be an integer of the range. -/
def sizeOf? : Toml → Option Size
  | .integer n => Size.ofInt? n
  | _ => none

/-- A setting that is a fraction may be written as an integer. -/
def fractionOf? : Toml → Option Double
  | .integer n => some (.ofInt n)
  | .float x => some x
  | _ => none

/-- The value of a setting, or the standard one. -/
def setting? {α : Type} (convert : Toml → Option α) (standard : α) (rows : Toml.Rows)
    (key : String) : Option α :=
  match Toml.find? rows key with
  | none => some standard
  | some v => convert v

/-- The policy of a table. Keys that are no settings are not looked at. -/
def ofRows? (rows : Toml.Rows) : Option Policy := do
  return {
    windowSize := ← setting? sizeOf? standard.windowSize rows "window_size"
    threshold := ← setting? fractionOf? standard.threshold rows "threshold"
    minHistory := ← setting? sizeOf? standard.minHistory rows "min_history" }

/-- The policy in a text, if it has no flaw. -/
def parse (text : String) : Except Fault Policy :=
  match (Toml.parse text).bind ofRows? with
  | none => .error .malformed
  | some p =>
    match p.flaw? with
    | some flaw => .error (.flawed flaw)
    | none => .ok p

/-- The policy in a file, whose contents are given. -/
def ofFile (path : String) (contents : Except FileFault ByteArray) : Except Fault Policy :=
  match contents.bind decodeText with
  | .error fault => .error (.unreadable path fault)
  | .ok text => parse text

end Policy

end Slowdown
