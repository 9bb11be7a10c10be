/-
The lexemes of a JSON text. A lexeme that is broken off or malformed ends the list. The same
text can be read, or skipped without being looked at closely, and some lexemes are faulty in one
of the two only; tokens keep what either needs.
-/
import Slowdown.Decimal.Numeral
import Slowdown.Text.Hex

namespace Slowdown

namespace Json

/-- Why a text is not JSON: at some place it could not go on as it does, or it ended where more
was needed. -/
inductive Fault where
  | malformed
  | cutOff
  deriving DecidableEq

/-- A lexeme. A broken one, which is the last, has a fault for being read and one for being
skipped. -/
inductive Token where
  | beginArray
  | endArray
  | beginObject
  | endObject
  | colon
  | comma
  | null
  | bool (b : Bool)
  | number (n : Numeral)
  /-- A string; none if it holds a surrogate without its partner. -/
  | string (s : Option String)
  | brokenString (read skipped : Fault)
  | broken (read skipped : Fault)
  deriving DecidableEq

/-- What may stand between lexemes. -/
def isBlank (c : Char) : Bool := c = ' ' || c = '\t' || c = '\n' || c = '\r'

/-! ## Strings -/

/-- What a string is made of: characters, and UTF-16 units written as escapes. -/
inductive Piece where
  | char (c : Char)
  | unit (u : Nat)
  deriving DecidableEq

/-- The number that four digits of base sixteen denote. -/
def hexUnit? (a b c d : Char) : Option Nat :=
  match Text.hexDigit? a, Text.hexDigit? b, Text.hexDigit? c, Text.hexDigit? d with
  | some a, some b, some c, some d => some (((a * 16 + b) * 16 + c) * 16 + d)
  | _, _, _, _ => none

/-- The character that an escape of one letter stands for. -/
def shortEscape? : Char → Option Char
  | '"' => some '"'
  | '\\' => some '\\'
  | '/' => some '/'
  | 'b' => some '\x08'
  | 'f' => some '\x0c'
  | 'n' => some '\n'
  | 'r' => some '\r'
  | 't' => some '\t'
  | _ => none

/-- The number of bytes of a text in UTF-8. -/
def byteCount (cs : List Char) : Nat := cs.foldl (fun n c => n + c.utf8Size) 0

/-- The pieces of a string whose opening quote has been taken, and the text after its closing
quote. Four bytes have to follow `\u`, whatever they are, or the text counts as cut off. -/
def pieces : List Char → List Piece × Except Fault (List Char)
  | [] => ([], .error .cutOff)
  | '"' :: rest => ([], .ok rest)
  | ['\\'] => ([], .error .cutOff)
  | '\\' :: 'u' :: a :: b :: c :: d :: rest =>
    match hexUnit? a b c d with
    | some u => (.unit u :: (pieces rest).1, (pieces rest).2)
    | none => ([], .error .malformed)
  | '\\' :: 'u' :: rest => ([], .error (if byteCount rest < 4 then .cutOff else .malformed))
  | '\\' :: e :: rest =>
    match shortEscape? e with
    | some c => (.char c :: (pieces rest).1, (pieces rest).2)
    | none => ([], .error .malformed)
  | c :: rest =>
    if c.toNat < 32 then ([], .error .malformed)
    else (.char c :: (pieces rest).1, (pieces rest).2)

theorem pieces_length_lt {cs rest : List Char} (h : (pieces cs).2 = .ok rest) :
    rest.length < cs.length := by
  fun_induction pieces cs <;> simp_all <;> omega

/-- The first half of a pair of surrogates. -/
def isLeading (u : Nat) : Bool := 0xd800 ≤ u && u < 0xdc00

/-- The second half of a pair of surrogates. -/
def isTrailing (u : Nat) : Bool := 0xdc00 ≤ u && u < 0xe000

/-- No character by itself. -/
def isSurrogate (u : Nat) : Bool := isLeading u || isTrailing u

/-- The character that a pair of surrogates stands for. -/
def pairChar (leading trailing : Nat) : Char :=
  Char.ofNat (0x10000 + (leading - 0xd800) * 0x400 + (trailing - 0xdc00))

/-- The characters of pieces, if each surrogate has its partner. -/
def joined? : List Piece → Option (List Char)
  | [] => some []
  | .char c :: rest => (joined? rest).map (c :: ·)
  | .unit u :: .unit v :: rest =>
    if isLeading u && isTrailing v then (joined? rest).map (pairChar u v :: ·)
    else if isSurrogate u then none
    else (joined? (.unit v :: rest)).map (Char.ofNat u :: ·)
  | .unit u :: rest =>
    if isSurrogate u then none else (joined? rest).map (Char.ofNat u :: ·)

/-- Pieces without a leading surrogate at their end, whose partner may still have come. -/
def settled (ps : List Piece) : List Piece :=
  match ps.getLast? with
  | some (.unit u) => if isLeading u then ps.dropLast else ps
  | _ => ps

/-- The string lexeme whose opening quote has been taken. -/
def stringLexeme (cs : List Char) : Token × List Char :=
  match pieces cs with
  | (ps, .ok rest) => (.string ((joined? ps).map String.ofList), rest)
  | (ps, .error fault) =>
    (.brokenString (if (joined? (settled ps)).isSome then fault else .malformed) fault, [])

theorem stringLexeme_length_le (cs : List Char) : (stringLexeme cs).2.length ≤ cs.length := by
  unfold stringLexeme
  split
  · rename_i h
    exact Nat.le_of_lt (pieces_length_lt (congrArg Prod.snd h))
  · simp

/-! ## Numbers -/

/-- A number for which more digits are needed: at the end of the text it is cut off, unless it
is being skipped. -/
def unfinished (rest : List Char) : Token × List Char :=
  (.broken (if rest = [] then .cutOff else .malformed) .malformed, [])

/-- A number from its exponent on. -/
def exponentLexeme (negative : Bool) (whole fraction : List Digit) (cs : List Char) :
    Token × List Char :=
  let signed (exponentNegative : Bool) (rest : List Char) : Token × List Char :=
    let (digits, rest') := Digit.span rest
    if digits = [] then unfinished rest
    else (.number ⟨negative, whole, fraction, some ⟨exponentNegative, digits⟩⟩, rest')
  let marked (rest : List Char) : Token × List Char :=
    match rest with
    | '+' :: rest => signed false rest
    | '-' :: rest => signed true rest
    | _ => signed false rest
  match cs with
  | 'e' :: rest => marked rest
  | 'E' :: rest => marked rest
  | _ => (.number ⟨negative, whole, fraction, none⟩, cs)

/-- A number from its point on. -/
def fractionLexeme (negative : Bool) (whole : List Digit) (cs : List Char) : Token × List Char :=
  match cs with
  | '.' :: rest =>
    let (digits, rest') := Digit.span rest
    if digits = [] then unfinished rest else exponentLexeme negative whole digits rest'
  | _ => exponentLexeme negative whole [] cs

/-- A number after its sign. Only a lone zero may stand in front. -/
def numberLexeme (negative : Bool) (cs : List Char) : Token × List Char :=
  let (whole, rest) := Digit.span cs
  match whole with
  | [] => unfinished cs
  | 0 :: _ :: _ => (.broken .malformed .malformed, [])
  | _ => fractionLexeme negative whole rest

theorem exponentLexeme_length_le (negative : Bool) (whole fraction : List Digit) (cs : List Char) :
    (exponentLexeme negative whole fraction cs).2.length ≤ cs.length := by
  have span := Digit.span_length_le
  unfold exponentLexeme unfinished
  grind

theorem fractionLexeme_length_le (negative : Bool) (whole : List Digit) (cs : List Char) :
    (fractionLexeme negative whole cs).2.length ≤ cs.length := by
  have span := Digit.span_length_le
  have exponent := exponentLexeme_length_le
  unfold fractionLexeme unfinished
  grind

theorem numberLexeme_length_le (negative : Bool) (cs : List Char) :
    (numberLexeme negative cs).2.length ≤ cs.length - 1 := by
  have fraction := fractionLexeme_length_le negative
  unfold numberLexeme unfinished
  cases cs with
  | nil => simp [Digit.span]
  | cons c rest =>
    have span := Digit.span_length_le rest
    unfold Digit.span
    grind

/-! ## Lexemes -/

/-- The rest of a literal whose first letter has been taken. -/
def literalLexeme (token : Token) : List Char → List Char → Token × List Char
  | [], cs => (token, cs)
  | _ :: _, [] => (.broken .cutOff .cutOff, [])
  | e :: expected, c :: cs =>
    if c = e then literalLexeme token expected cs else (.broken .malformed .malformed, [])

theorem literalLexeme_length_le (token : Token) (expected cs : List Char) :
    (literalLexeme token expected cs).2.length ≤ cs.length := by
  fun_induction literalLexeme token expected cs <;> grind

/-- The lexeme that begins with a character which is not blank. What begins no other lexeme
has to begin a number. -/
def lexeme (first : Char) (rest : List Char) : Token × List Char :=
  match first with
  | '[' => (.beginArray, rest)
  | ']' => (.endArray, rest)
  | '{' => (.beginObject, rest)
  | '}' => (.endObject, rest)
  | ':' => (.colon, rest)
  | ',' => (.comma, rest)
  | '"' => stringLexeme rest
  | 'n' => literalLexeme .null ['u', 'l', 'l'] rest
  | 't' => literalLexeme (.bool true) ['r', 'u', 'e'] rest
  | 'f' => literalLexeme (.bool false) ['a', 'l', 's', 'e'] rest
  | '-' => numberLexeme true rest
  | _ => numberLexeme false (first :: rest)

theorem lexeme_length_le (first : Char) (rest : List Char) :
    (lexeme first rest).2.length ≤ rest.length := by
  have string := stringLexeme_length_le
  have number := numberLexeme_length_le
  have literal := literalLexeme_length_le
  unfold lexeme
  grind

/-- The lexemes of a text. -/
def tokens (cs : List Char) : List Token :=
  match _eq : cs.dropWhile isBlank with
  | [] => []
  | first :: rest => (lexeme first rest).1 :: tokens (lexeme first rest).2
termination_by cs.length
decreasing_by
  have fewer := (List.dropWhile_suffix isBlank : cs.dropWhile isBlank <:+ cs).length_le
  rw [_eq, List.length_cons] at fewer
  have := lexeme_length_le first rest
  omega

end Json

end Slowdown
