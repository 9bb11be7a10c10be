/-
Quoted text: a string between double quotes in which nothing is invisible.
-/
import Slowdown.Text.Hex
import Slowdown.Text.Invisible

namespace Slowdown

namespace Text

/-- A character inside quotes. What has no glyph of its own is written by its code point. -/
def quotedChar (c : Char) : List Char :=
  if c = '"' then ['\\', '"']
  else if c = '\\' then ['\\', '\\']
  else if c = '\n' then ['\\', 'n']
  else if c = '\r' then ['\\', 'r']
  else if c = '\t' then ['\\', 't']
  else if c.toNat = 0 then ['\\', '0']
  else if isInvisible c then ['\\', 'u', '{'] ++ hex c.toNat ++ ['}']
  else [c]

/-- A text in quotes, as names stand in messages. -/
def quoted (s : String) : String := String.ofList ('"' :: s.toList.flatMap quotedChar ++ ['"'])

/-- Quoted texts in brackets. -/
def quotedList (ss : List String) : String := "[" ++ ", ".intercalate (ss.map quoted) ++ "]"

end Text

end Slowdown
