/-
File systems: by its path a file can be read, or have a text added to its end. The program is
written for all of them.
-/

namespace Slowdown

/-- Why a file cannot be used. -/
inductive FileFault where
  /-- The system refuses, with its description and number of the reason. -/
  | refused (description : String) (number : Nat)
  | notText
  | zeroInPath
  deriving DecidableEq

namespace FileFault

/-- There is nothing at the path. -/
def missing : FileFault := refused "No such file or directory" 2

/-- The system does not let the file be used so. -/
def denied : FileFault := refused "Permission denied" 13

/-- The path goes on after a file. -/
def notDirectory : FileFault := refused "Not a directory" 20

/-- There is a directory where a file should be. -/
def isDirectory : FileFault := refused "Is a directory" 21

/-- A name or the whole path has too many bytes. -/
def nameTooLong : FileFault := refused "File name too long" 36

/-- A fault as it is told. -/
def text : FileFault → String
  | refused description number => description ++ s!" (os error {number})"
  | notText => "stream did not contain valid UTF-8"
  | zeroInPath => "file name contained an unexpected NUL byte"

end FileFault

/-- The text of a file. -/
def decodeText (bytes : ByteArray) : Except FileFault String :=
  match String.fromUTF8? bytes with
  | some text => .ok text
  | none => .error .notText

/-- States of files that can be read and added to. -/
class FileSystem (σ : Type) where
  /-- The bytes of the file that a path leads to. -/
  read : σ → String → Except FileFault ByteArray
  /-- The state after a text has been added to the end of the file that a path leads to. -/
  append : σ → String → String → Except FileFault σ

end Slowdown
