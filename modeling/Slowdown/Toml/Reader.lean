/-
Reading TOML: values, the statements of a document, and the table that they make up.
-/
import Slowdown.Toml.Scalar

namespace Slowdown

namespace Toml

/-! ## Values -/

/-- Items up to the end of an array, at most so many of them. -/
def arrayItems (item : Reading Toml) : Nat → Reading (List Toml)
  | 0, _ => none
  | room + 1, cs =>
    match skipLines false cs with
    | ']' :: rest => some ([], rest)
    | cs => do
      let (v, cs) ← item cs
      match skipLines false cs with
      | ']' :: rest => return ([v], rest)
      | ',' :: rest =>
        let (more, rest) ← arrayItems item room rest
        return (v :: more, rest)
      | _ => none

/-- A key, an equals sign and a value. -/
def keyValue (item : Reading Toml) : Reading (List String × String × Toml) := fun cs => do
  let ((path, last), cs) ← key (depthLimit - 1) cs
  match cs with
  | '=' :: rest =>
    let (v, rest) ← item (skipBlanks rest)
    return ((path, last, v), rest)
  | _ => none

/-- The rows up to the end of a closed table, added to the ones before; at most so many. -/
def closedRows (item : Reading Toml) : Nat → Rows → Reading Rows
  | 0, _, _ => none
  | room + 1, rows, cs => do
    let ((path, last, v), cs) ← keyValue item cs
    let rows ← assign path last v rows
    match skipBlanks cs with
    | '}' :: rest => return (rows, rest)
    | ',' :: rest => closedRows item room rows rest
    | _ => none

/-- The rows of a table in braces, of which the opening one has been taken. -/
def closedTable (item : Reading Toml) : Reading Rows := fun cs =>
  match skipBlanks cs with
  | '}' :: rest => some ([], rest)
  | cs => closedRows item cs.length [] cs

/-- A value with at most so many arrays and tables inside each other. -/
def value : Nat → Reading Toml
  | depth, cs =>
    match cs with
    | '"' :: _ | '\'' :: _ => (stringText cs).map fun (s, rest) => (string s, rest)
    | '[' :: rest =>
      match depth with
      | 0 => none
      | depth + 1 =>
        (arrayItems (value depth) (rest.length + 1) rest).map fun (items, rest) =>
          (array items, rest)
    | '{' :: rest =>
      match depth with
      | 0 => none
      | depth + 1 =>
        (closedTable (value depth) rest).map fun (rows, rest) => (table .closed rows, rest)
    | 't' :: 'r' :: 'u' :: 'e' :: rest => some (bool true, rest)
    | 'f' :: 'a' :: 'l' :: 's' :: 'e' :: rest => some (bool false, rest)
    | _ => (momentText cs).or (number cs)

/-! ## Statements -/

/-- What a line of a document says; blank lines and comments say nothing. -/
inductive Statement where
  | assign (path : List String) (key : String) (value : Toml)
  | openTable (path : List String) (key : String)
  | openElement (path : List String) (key : String)

/-- A statement up to the end of its line. -/
def statement : List Char → Option (Statement × List Char)
  | '[' :: '[' :: rest => do
    let ((path, last), rest) ← key (depthLimit - 1) rest
    match rest with
    | ']' :: ']' :: rest => return (.openElement path last, ← lineEnd? rest)
    | _ => none
  | '[' :: rest => do
    let ((path, last), rest) ← key (depthLimit - 1) rest
    match rest with
    | ']' :: rest => return (.openTable path last, ← lineEnd? rest)
    | _ => none
  | cs => do
    let ((path, last, v), rest) ← keyValue (value (depthLimit - 1)) cs
    return (.assign path last v, ← lineEnd? rest)

/-- The statements of a text, at most so many. -/
def statements : Nat → List Char → Option (List Statement)
  | 0, _ => none
  | room + 1, cs =>
    match skipBlanks cs with
    | [] => some []
    | '#' :: rest => do statements room (← lineEnd? ('#' :: rest))
    | '\n' :: rest => statements room rest
    | '\r' :: '\n' :: rest => statements room rest
    | cs => do
      let (s, rest) ← statement cs
      return s :: (← statements room rest)

/-! ## Documents -/

/-- The rows of a document, given the header that is in force and the rows before. -/
def rowsOf (header : List String) (rows : Rows) : List Statement → Option Rows
  | [] => some rows
  | .assign path key value :: rest => do rowsOf header (← assignIn header path key value rows) rest
  | .openTable path key :: rest => do rowsOf (path ++ [key]) (← openTable path key rows) rest
  | .openElement path key :: rest => do rowsOf (path ++ [key]) (← openElement path key rows) rest

/-- A byte order mark in front is no part of a document. -/
def withoutMark : List Char → List Char
  | '\ufeff' :: rest => rest
  | cs => cs

/-- The rows of the document in a text. -/
def parse (text : String) : Option Rows := do
  let cs := withoutMark text.toList
  rowsOf [] [] (← statements (cs.length + 1) cs)

end Toml

end Slowdown
