/-
History files: the archive in a file, and the runs of a suite in it, with the wording of what can
go wrong.
-/
import Slowdown.Archive.Reader
import Slowdown.FileSystem

namespace Slowdown

namespace Archive

/-- Why the runs of a suite cannot be had from a file. -/
inductive Failure where
  | unreadable (path : String) (fault : FileFault)
  | malformed (fault : Fault)
  | badSuite (suite : String) (mismatch : Mismatch)

/-- What is said of a fault in a text. The words for a text that is not JSON are this library's own,
and a line and a column, which a JSON reader would add, are named for no fault: `Json.ofText` does
not keep where it stopped. -/
def Fault.detail : Fault → String
  | json .malformed => "malformed text"
  | json .cutOff => "unexpected end of text"
  | mismatch m => m.text

/-- The message of a failure; it names the file or the suite. -/
def Failure.message : Failure → String
  | unreadable path fault => "Failed to read benchmark data from " ++ path ++ ": " ++ fault.text
  | malformed fault => "Invalid benchmark data JSON: " ++ fault.detail
  | badSuite suite mismatch => "Invalid entries for suite '" ++ suite ++ "': " ++ mismatch.text

/-- What the message of a failure is drawn from. -/
def Failure.cause : Failure → String
  | unreadable _ fault => fault.text
  | malformed fault => fault.detail
  | badSuite _ mismatch => mismatch.text

/-- The archive in a file, whose contents are given. -/
def ofFile (path : String) (contents : Except FileFault ByteArray) : Except Failure Archive :=
  match contents.bind decodeText with
  | .error fault => .error (.unreadable path fault)
  | .ok text =>
    match parse text with
    | .error fault => .error (.malformed fault)
    | .ok a => .ok a

/-- The runs of a suite, if the archive has the suite, or the failure that names it. -/
def suiteRuns (a : Archive) (suite : String) : Except Failure (Option (List Run)) :=
  (a.suite? suite).mapError (.badSuite suite)

end Archive

end Slowdown
