/-
TOML values and the building of tables. How a table came about decides what may be added to it
later: a closed one nothing, one opened by a header once no header again.
-/
import Slowdown.Double.Basic

namespace Slowdown

/-- How a table came about. -/
inductive Toml.Origin where
  /-- Written in braces. -/
  | closed
  | header
  /-- Only passed through by a longer header. -/
  | headerPath
  /-- Only passed through by a dotted key. -/
  | dottedKey
  deriving DecidableEq

/-- A TOML value. Tables know how they came about, since that decides what may be added to them. -/
inductive Toml where
  | string (s : String)
  | integer (n : Int)
  | float (x : Double)
  | bool (b : Bool)
  /-- A date, a time, or both, as written. -/
  | moment (text : String)
  | array (items : List Toml)
  | table (origin : Toml.Origin) (rows : List (String × Toml))
  /-- The tables opened one after the other by headers in double brackets. -/
  | tables (elements : List (List (String × Toml)))

namespace Toml

/-- The rows of a table. -/
abbrev Rows := List (String × Toml)

/-- The value of a key. -/
def find? (rows : Rows) (key : String) : Option Toml :=
  (rows.find? fun row => row.1 == key).map (·.2)

/-- Rows in which the value of a key is replaced, or added at the end. -/
def replace (rows : Rows) (key : String) (value : Toml) : Rows :=
  if (find? rows key).isSome then rows.map fun row => if row.1 == key then (key, value) else row
  else rows ++ [(key, value)]

/-- Changes the rows of the table at the end of a path. Tables missing on the way are made, with
the given origin; nothing is added to a closed table, and dotted keys add nothing to a table
opened by a header. Of an array of tables the last is meant. -/
def within (made : Origin) (change : Origin → Rows → Option Rows) (origin : Origin) (rows : Rows) :
    List String → Option Rows
  | [] => change origin rows
  | key :: path =>
    match find? rows key with
    | none => do
      let inner ← within made change made [] path
      return rows ++ [(key, table made inner)]
    | some (table .closed _) => none
    | some (table origin inner) => do
      if made = .dottedKey ∧ origin = .header then none
      let inner ← within made change origin inner path
      return replace rows key (table origin inner)
    | some (tables elements) => do
      let inner ← within made change .header (← elements.getLast?) path
      return replace rows key (tables (elements.dropLast ++ [inner]))
    | some _ => none

/-- Adds a value under a dotted key. The table it goes into has to come from dotted keys too. -/
def assign (path : List String) (key : String) (value : Toml) (rows : Rows) : Option Rows :=
  within .dottedKey (fun origin rows =>
    if path ≠ [] ∧ origin ≠ .dottedKey then none
    else if (find? rows key).isSome then none
    else some (rows ++ [(key, value)])) .header rows path

/-- Adds a value under a dotted key in the table of a header. -/
def assignIn (header path : List String) (key : String) (value : Toml) (rows : Rows) :
    Option Rows :=
  within .headerPath (fun _ rows => assign path key value rows) .header rows header

/-- Opens the table of a header; one that was only passed through before keeps its rows. -/
def openTable (path : List String) (key : String) (rows : Rows) : Option Rows :=
  within .headerPath (fun _ rows =>
    match find? rows key with
    | none => some (rows ++ [(key, table .header [])])
    | some (table .headerPath inner) => some (replace rows key (table .header inner))
    | some _ => none) .header rows path

/-- Opens a further table of an array of tables. -/
def openElement (path : List String) (key : String) (rows : Rows) : Option Rows :=
  within .headerPath (fun _ rows =>
    match find? rows key with
    | none => some (rows ++ [(key, tables [[]])])
    | some (tables elements) => some (replace rows key (tables (elements ++ [[]])))
    | some _ => none) .header rows path

end Toml

end Slowdown
