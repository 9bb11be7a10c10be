/-
Directories: the file system in which all files stand in the working directory. There are no
subdirectories, and outside of it nothing is known to be a file.
-/
import Slowdown.FileSystem
import Slowdown.NameMap

namespace Slowdown

/-- Files by name. -/
structure Directory where
  files : NameMap ByteArray

namespace Directory

/-! ## Paths -/

/-- Where a path leads. -/
inductive Spot where
  | directory
  /-- To a name in the directory or outside of it. A slash at the end of the path means that a
  directory should have the name. -/
  | name (name : String) (inside slash : Bool)
  | fault (fault : FileFault)

/-- How many bytes a name may have. -/
def nameLimit : Nat := 255

/-- How many bytes a path may have. -/
def pathLimit : Nat := 4095

/-- The file of a name in the directory or outside of it. -/
def lookUp (d : Directory) (name : String) (inside : Bool) : Except FileFault ByteArray :=
  if nameLimit < name.utf8ByteSize then .error .nameTooLong
  else
    match d.files.find? name with
    | some contents => if inside then .ok contents else .error .missing
    | none => .error .missing

/-- Follows the parts of a path. All parts but the last have to be directories. -/
def follow (d : Directory) (inside : Bool) : List String → Spot
  | [] => .directory
  | part :: rest =>
    if part = "" ∨ part = "." then follow d inside rest
    else if part = ".." then follow d false rest
    else if rest.all (· = "") then .name part inside (rest ≠ [])
    else
      match d.lookUp part inside with
      | .ok _ => .fault .notDirectory
      | .error fault => .fault fault

/-- Where a path leads; one that begins with a slash leads out of the directory. -/
def spot (d : Directory) (path : String) : Spot :=
  if path = "" then .fault .missing
  else if path.toList.contains '\x00' then .fault .zeroInPath
  else if pathLimit < path.utf8ByteSize then .fault .nameTooLong
  else d.follow (!path.startsWith "/") (path.splitOn "/")

/-! ## Files -/

/-- The contents of the file that a path leads to. -/
def read (d : Directory) (path : String) : Except FileFault ByteArray :=
  match d.spot path with
  | .directory => .error .isDirectory
  | .name name inside slash => do
    let contents ← d.lookUp name inside
    if slash then .error .notDirectory else .ok contents
  | .fault fault => .error fault

/-- The directory after a text has been added to the end of a file, which is made if need be.
A slash at the end of the path is found before the name is looked at. -/
def append (d : Directory) (path text : String) : Except FileFault Directory :=
  match d.spot path with
  | .directory => .error .isDirectory
  | .name _ _ true => .error .isDirectory
  | .name name inside false =>
    match d.lookUp name inside with
    | .ok contents => .ok ⟨d.files.insert name (contents ++ text.toUTF8)⟩
    | .error fault =>
      if inside ∧ fault = .missing then .ok ⟨d.files.insert name text.toUTF8⟩ else .error fault
  | .fault fault => .error fault

/-- Files are read and added to in the working directory alone. -/
instance : FileSystem Directory := ⟨read, append⟩

end Directory

end Slowdown
