/-
The written forms of a JSON tree: compact, and indented by two blanks for each level.
-/
import Slowdown.Json.Basic
import Slowdown.Text.Quoted

namespace Slowdown

namespace Json

/-! ## Scalars -/

/-- A character inside a JSON string. Only quotes, backslashes and controls are escaped. -/
def stringChar (c : Char) : List Char :=
  if c = '"' then ['\\', '"']
  else if c = '\\' then ['\\', '\\']
  else if c.toNat = 8 then ['\\', 'b']
  else if c.toNat = 12 then ['\\', 'f']
  else if c = '\n' then ['\\', 'n']
  else if c = '\r' then ['\\', 'r']
  else if c = '\t' then ['\\', 't']
  else if c.toNat < 16 then ['\\', 'u', '0', '0', '0'] ++ Text.hex c.toNat
  else if c.toNat < 32 then ['\\', 'u', '0', '0'] ++ Text.hex c.toNat
  else [c]

/-- A string in quotes. -/
def stringText (s : String) : List Char := '"' :: s.toList.flatMap stringChar ++ ['"']

/-- The word for a truth value. -/
def boolText (b : Bool) : List Char := if b then "true".toList else "false".toList

/-! ## Compact form -/

mutual

/-- Without any blank. -/
def compact : Json → List Char
  | null => "null".toList
  | bool b => boolText b
  | number n => n.text true
  | string s => stringText s
  | array [] => ['[', ']']
  | array (v :: rest) => '[' :: compact v ++ compactItems rest
  | object [] => ['{', '}']
  | object ((name, v) :: rest) => '{' :: stringText name ++ ':' :: compact v ++ compactMembers rest

/-- The items after the first, and the end of the array. -/
def compactItems : List Json → List Char
  | [] => [']']
  | v :: rest => ',' :: compact v ++ compactItems rest

/-- The members after the first, and the end of the object. -/
def compactMembers : List (String × Json) → List Char
  | [] => ['}']
  | (name, v) :: rest => ',' :: stringText name ++ ':' :: compact v ++ compactMembers rest

end

/-! ## Indented form -/

/-- The start of a line at a level. -/
def newLine (level : Nat) : List Char := '\n' :: List.replicate (2 * level) ' '

mutual

/-- The form in which every item and member has a line of its own; `level` is that of the
line on which the tree begins. -/
def indented (level : Nat) : Json → List Char
  | null => "null".toList
  | bool b => boolText b
  | number n => n.text true
  | string s => stringText s
  | array [] => ['[', ']']
  | array (v :: rest) =>
    '[' :: newLine (level + 1) ++ indented (level + 1) v ++ indentedItems level rest
  | object [] => ['{', '}']
  | object ((name, v) :: rest) =>
    '{' :: newLine (level + 1) ++ stringText name ++ ':' :: ' ' :: indented (level + 1) v
      ++ indentedMembers level rest

/-- The items after the first, and the end of the array on a line of its own. -/
def indentedItems (level : Nat) : List Json → List Char
  | [] => newLine level ++ [']']
  | v :: rest =>
    ',' :: newLine (level + 1) ++ indented (level + 1) v ++ indentedItems level rest

/-- The members after the first, and the end of the object on a line of its own. -/
def indentedMembers (level : Nat) : List (String × Json) → List Char
  | [] => newLine level ++ ['}']
  | (name, v) :: rest =>
    ',' :: newLine (level + 1) ++ stringText name ++ ':' :: ' ' :: indented (level + 1) v
      ++ indentedMembers level rest

end

/-- The compact form of a tree. -/
def compactText (v : Json) : String := String.ofList v.compact

/-- The indented form of a tree, which is how a document is printed. -/
def indentedText (v : Json) : String := String.ofList (v.indented 0)

end Json

end Slowdown
