/-
The program: it looks at the files that the arguments name, runs the check on what it saw,
prints the lines and adds to the summary.
-/
import Slowdown.Command.Check

namespace Slowdown

namespace Main

open Command

/-- The fault with a number of the system, which may be given as a negative one. -/
def numbered (description : String) (number : UInt32) : FileFault :=
  match min number.toNat (0x100000000 - number.toNat) with
  | 2 => .missing
  | 13 => .denied
  | 20 => .notDirectory
  | 21 => .isDirectory
  | 36 => .nameTooLong
  | n => .refused description n

/-- What the system said about a file that it would not open. -/
def fileFault : IO.Error → FileFault
  | .noFileOrDirectory _ number description => numbered description number
  | .permissionDenied _ number description => numbered description number
  | .inappropriateType _ number description => numbered description number
  | .invalidArgument _ number description => numbered description number
  | .resourceExhausted _ number description => numbered description number
  | .otherError number description => numbered description number
  | e => .refused (toString e) 0

/-- The bytes of a file, or why there are none. -/
def read (path : String) : IO (Except FileFault ByteArray) :=
  try return .ok (← IO.FS.readBinFile path) catch e => return .error (fileFault e)

/-- Adds a text to the end of a file, which is made if it is missing; gives the fault if there was
one. -/
def append (path text : String) : IO (Option FileFault) :=
  try
    let file ← IO.FS.Handle.mk path .append
    file.write text.toUTF8
    return none
  catch e => return some (fileFault e)

/-- The paths that a run may read. -/
def pathsOf (arguments : List String) : List String :=
  match Invocation.ofArguments arguments with
  | .error _ => []
  | .ok call => call.dataFile :: call.config.toList

/-- What was seen of some files; a fault of the summary is known once it has been tried. -/
def seen (contents : List (String × Except FileFault ByteArray)) (summary : Option FileFault) :
    Files where
  read path := ((contents.find? (·.1 == path)).map (·.2)).getD (.error .missing)
  appendFault? _ _ := summary

/-- Prints each line on its channel. -/
def print (lines : List Line) : IO Unit := do
  for line in lines do
    match line.channel with
    | .output => IO.println line.text
    | .error => IO.eprintln line.text

/-- Runs the check on what the files hold now. The text for the summary is known only then, so a
fault in adding it makes a second run that reports it. -/
def program (arguments : List String) : IO UInt32 := do
  let setting ← IO.getEnv "GITHUB_STEP_SUMMARY"
  let contents ← (pathsOf arguments).mapM fun path => return (path, ← read path)
  let result := run (seen contents none) setting arguments
  let fault ← match result.appended with
    | none => pure none
    | some (path, text) => append path text
  let result := match fault with
    | none => result
    | some _ => run (seen contents fault) setting arguments
  print result.lines
  return UInt32.ofNat result.status

end Main

end Slowdown

/-- The entry point; the number given back is the exit status. -/
def main (arguments : List String) : IO UInt32 := Slowdown.Main.program arguments
