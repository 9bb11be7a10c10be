/-
The parts of TOML text that are no values of their own: blanks, comments, line ends, strings
and keys. A reading takes something off the front of a text and gives it with what follows.
-/
import Slowdown.Text.Hex

namespace Slowdown

namespace Toml

/-- A reader of a prefix: what it read, and the text after it. -/
abbrev Reading (α : Type) := List Char → Option (α × List Char)

/-! ## Between the values -/

/-- Blanks within a line. -/
def isBlank (c : Char) : Bool := c = ' ' || c = '\t'

/-- The text after blanks. -/
def skipBlanks (cs : List Char) : List Char := cs.dropWhile isBlank

/-- What may stand in a comment, and in a string besides its marks. -/
def isPlain (c : Char) : Bool := c = '\t' || (32 ≤ c.toNat && c.toNat ≠ 127)

/-- The text after a comment, if one begins here. A control character ends it early. -/
def skipComment : List Char → List Char
  | '#' :: rest => rest.dropWhile isPlain
  | cs => cs

/-- The text after a line break. -/
def lineBreak? : List Char → Option (List Char)
  | '\n' :: rest => some rest
  | '\r' :: '\n' :: rest => some rest
  | _ => none

/-- The text after the end of a line, of which only blanks and a comment are left. -/
def lineEnd? (cs : List Char) : Option (List Char) :=
  match skipComment (skipBlanks cs) with
  | [] => some []
  | rest => lineBreak? rest

/-- Skips blanks, line breaks and comments. -/
def skipLines (inComment : Bool) : List Char → List Char
  | [] => []
  | '\n' :: rest => skipLines false rest
  | '\r' :: '\n' :: rest => skipLines false rest
  | c :: rest =>
    if inComment then if isPlain c then skipLines true rest else c :: rest
    else if isBlank c then skipLines false rest
    else if c = '#' then skipLines true rest
    else c :: rest

/-! ## Strings -/

/-- The character with the code point that digits of base sixteen denote. -/
def scalar? (digits : List Char) : Option Char := do
  let n ← digits.foldlM (fun n c => (Text.hexDigit? c).map (16 * n + ·)) 0
  if n.isValidChar then some (Char.ofNat n) else none

/-- The character that an escape of one letter stands for. -/
def shortEscape? : Char → Option Char
  | 'b' => some '\x08'
  | 't' => some '\t'
  | 'n' => some '\n'
  | 'f' => some '\x0c'
  | 'r' => some '\r'
  | '"' => some '"'
  | '\\' => some '\\'
  | _ => none

/-- A character in front of what has been read. -/
def before (c : Char) (r : List Char × List Char) : List Char × List Char := (c :: r.1, r.2)

/-- A string with escapes after its opening quote. -/
def basicBody : Reading (List Char)
  | '"' :: rest => some ([], rest)
  | '\\' :: 'u' :: a :: b :: c :: d :: rest => do
    return before (← scalar? [a, b, c, d]) (← basicBody rest)
  | '\\' :: 'U' :: a :: b :: c :: d :: e :: f :: g :: h :: rest => do
    return before (← scalar? [a, b, c, d, e, f, g, h]) (← basicBody rest)
  | '\\' :: e :: rest => do return before (← shortEscape? e) (← basicBody rest)
  | c :: rest => if isPlain c ∧ c ≠ '\\' then (basicBody rest).map (before c) else none
  | [] => none

/-- A string without escapes after its opening quote. -/
def literalBody : Reading (List Char)
  | '\'' :: rest => some ([], rest)
  | c :: rest => if isPlain c then (literalBody rest).map (before c) else none
  | [] => none

/-- Where a string of several lines stands: in its text; after a backslash that needs a line
break; or after such a line break, where blanks and further ones are dropped. -/
inductive LongState where
  | text
  | breakDue
  | dropping

/-- A string of several lines with escapes, after its opening quotes. Up to two quotes may stand
before the closing ones. -/
def longBasicBody : LongState → Reading (List Char)
  | _, [] => none
  | .breakDue, '\n' :: rest => longBasicBody .dropping rest
  | .breakDue, '\r' :: '\n' :: rest => longBasicBody .dropping rest
  | .breakDue, c :: rest => if isBlank c then longBasicBody .breakDue rest else none
  | .dropping, '\n' :: rest => longBasicBody .dropping rest
  | .dropping, '\r' :: '\n' :: rest => longBasicBody .dropping rest
  | .dropping, ' ' :: rest => longBasicBody .dropping rest
  | .dropping, '\t' :: rest => longBasicBody .dropping rest
  | _, '"' :: '"' :: '"' :: '"' :: '"' :: rest => some (['"', '"'], rest)
  | _, '"' :: '"' :: '"' :: '"' :: rest => some (['"'], rest)
  | _, '"' :: '"' :: '"' :: rest => some ([], rest)
  | _, '\n' :: rest => (longBasicBody .text rest).map (before '\n')
  | _, '\r' :: '\n' :: rest => (longBasicBody .text rest).map (before '\n')
  | _, '\\' :: '\n' :: rest => longBasicBody .dropping rest
  | _, '\\' :: '\r' :: '\n' :: rest => longBasicBody .dropping rest
  | _, '\\' :: ' ' :: rest => longBasicBody .breakDue rest
  | _, '\\' :: '\t' :: rest => longBasicBody .breakDue rest
  | _, '\\' :: 'u' :: a :: b :: c :: d :: rest => do
    return before (← scalar? [a, b, c, d]) (← longBasicBody .text rest)
  | _, '\\' :: 'U' :: a :: b :: c :: d :: e :: f :: g :: h :: rest => do
    return before (← scalar? [a, b, c, d, e, f, g, h]) (← longBasicBody .text rest)
  | _, '\\' :: e :: rest => do return before (← shortEscape? e) (← longBasicBody .text rest)
  | _, c :: rest =>
    if isPlain c ∧ c ≠ '\\' then (longBasicBody .text rest).map (before c) else none

/-- A string of several lines without escapes, after its opening quotes. -/
def longLiteralBody : Reading (List Char)
  | '\'' :: '\'' :: '\'' :: '\'' :: '\'' :: rest => some (['\'', '\''], rest)
  | '\'' :: '\'' :: '\'' :: '\'' :: rest => some (['\''], rest)
  | '\'' :: '\'' :: '\'' :: rest => some ([], rest)
  | '\n' :: rest => (longLiteralBody rest).map (before '\n')
  | '\r' :: '\n' :: rest => (longLiteralBody rest).map (before '\n')
  | c :: rest => if isPlain c then (longLiteralBody rest).map (before c) else none
  | [] => none

/-- A line break directly after the opening quotes does not belong to the string. -/
def skipFirstBreak (cs : List Char) : List Char := (lineBreak? cs).getD cs

/-- A string of any kind. -/
def stringText : Reading String
  | '"' :: '"' :: '"' :: rest => (longBasicBody .text (skipFirstBreak rest)).map made
  | '"' :: rest => (basicBody rest).map made
  | '\'' :: '\'' :: '\'' :: rest => (longLiteralBody (skipFirstBreak rest)).map made
  | '\'' :: rest => (literalBody rest).map made
  | _ => none
where
  made (r : List Char × List Char) : String × List Char := (String.ofList r.1, r.2)

/-! ## Keys -/

/-- What a part of a key may hold without quotes. -/
def isBare (c : Char) : Bool :=
  ('a' ≤ c && c ≤ 'z') || ('A' ≤ c && c ≤ 'Z') || ('0' ≤ c && c ≤ '9') || c = '_' || c = '-'

/-- One part of a key. -/
def keyPart : Reading String
  | '"' :: rest => (basicBody rest).map fun (cs, rest) => (String.ofList cs, rest)
  | '\'' :: rest => (literalBody rest).map fun (cs, rest) => (String.ofList cs, rest)
  | cs =>
    match cs.takeWhile isBare with
    | [] => none
    | part => some (String.ofList part, cs.dropWhile isBare)

/-- So many parts a key may not have, and so many values may not stand inside each other. -/
def depthLimit : Nat := 80

/-- A key of at most so many parts with points between them: the parts before the last, and
the last. -/
def key : Nat → Reading (List String × String)
  | 0, _ => none
  | room + 1, cs => do
    let (part, rest) ← keyPart (skipBlanks cs)
    match skipBlanks rest with
    | '.' :: rest =>
      let ((path, last), rest) ← key room rest
      return ((part :: path, last), rest)
    | rest => return (([], part), rest)

end Toml

end Slowdown
