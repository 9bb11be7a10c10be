/-
The lexer against a lexical grammar. A grammar tells the texts of each lexeme; the lexemes of a
text, if none is broken, are those of the one way to write it as blanks and texts of lexemes in
which no numeral could go on.
-/
import Slowdown.Json.Token
import Slowdown.Proofs.Decimal.Digits

namespace Slowdown

namespace Json

/-! ## Blanks and broken lexemes -/

/-- Whether a token marks the place where lexemes end early. -/
def Token.isBroken : Token → Bool
  | .brokenString .. | .broken .. => true
  | _ => false

theorem isBlank_iff {c : Char} :
    isBlank c = true ↔ c = ' ' ∨ c = '\t' ∨ c = '\n' ∨ c = '\r' := by
  simp [isBlank, or_assoc]

/-! ## Strings -/

theorem pieces_cons {c : Char} (hquote : c ≠ '"') (hslash : c ≠ '\\') (h : 32 ≤ c.toNat)
    (rest : List Char) : pieces (c :: rest) = (.char c :: (pieces rest).1, (pieces rest).2) := by
  have hshort : ¬ c.toNat < 32 := by omega
  rw [pieces, if_neg hshort] <;> simp_all

theorem pieces_shortEscape {e c : Char} (hunit : e ≠ 'u') (h : shortEscape? e = some c)
    (rest : List Char) :
    pieces ('\\' :: e :: rest) = (.char c :: (pieces rest).1, (pieces rest).2) := by
  rw [pieces, h] <;> simp_all

theorem pieces_unit {a b c d : Char} {u : Nat} (h : hexUnit? a b c d = some u)
    (rest : List Char) :
    pieces ('\\' :: 'u' :: a :: b :: c :: d :: rest) =
      (.unit u :: (pieces rest).1, (pieces rest).2) := by
  rw [pieces, h]

/-- The text of a character or an escape in a string, and the piece that it is. -/
inductive WritesPiece : List Char → Piece → Prop
  | char {c : Char} (hquote : c ≠ '"') (hslash : c ≠ '\\') (h : 32 ≤ c.toNat) :
    WritesPiece [c] (.char c)
  | escape {e c : Char} (h : shortEscape? e = some c) : WritesPiece ['\\', e] (.char c)
  | unit {a b c d : Char} {u : Nat} (h : hexUnit? a b c d = some u) :
    WritesPiece ['\\', 'u', a, b, c, d] (.unit u)

/-- A text writes pieces one after the other. -/
inductive WritesPieces : List Char → List Piece → Prop
  | nil : WritesPieces [] []
  | cons {text body : List Char} {p : Piece} {ps : List Piece} (first : WritesPiece text p)
    (more : WritesPieces body ps) : WritesPieces (text ++ body) (p :: ps)

theorem WritesPiece.pieces_append {text : List Char} {p : Piece} (h : WritesPiece text p)
    (cs : List Char) : pieces (text ++ cs) = (p :: (pieces cs).1, (pieces cs).2) := by
  cases h with
  | char hquote hslash h => exact pieces_cons hquote hslash h cs
  | @escape e c h =>
    have hunit : e ≠ 'u' := by
      rintro rfl
      cases h
    exact pieces_shortEscape hunit h cs
  | unit h => exact pieces_unit h cs

theorem pieces_of_writes {body : List Char} {ps : List Piece} (h : WritesPieces body ps)
    (rest : List Char) : pieces (body ++ '"' :: rest) = (ps, .ok rest) := by
  induction h with
  | nil => rfl
  | cons first _ ih => rw [List.append_assoc, first.pieces_append, ih]

theorem exists_writesPieces {cs rest : List Char} (h : (pieces cs).2 = .ok rest) :
    ∃ body, cs = body ++ '"' :: rest ∧ WritesPieces body (pieces cs).1 := by
  fun_induction pieces cs with
  | case1 => cases h
  | case2 cs =>
    cases h
    exact ⟨[], rfl, .nil⟩
  | case3 => cases h
  | case4 a b c d cs u hunit ih =>
    obtain ⟨body, rfl, hbody⟩ := ih h
    exact ⟨_, rfl, .cons (.unit hunit) hbody⟩
  | case5 => cases h
  | case6 => cases h
  | case7 e cs _ _ c hescape ih =>
    obtain ⟨body, rfl, hbody⟩ := ih h
    exact ⟨_, rfl, .cons (.escape hescape) hbody⟩
  | case8 => cases h
  | case9 => cases h
  | case10 c cs hquote hlast _ _ hescape hshort ih =>
    -- an escape would have been taken by one of the cases before
    have hslash : c ≠ '\\' := fun hc => by
      cases cs with
      | nil => exact hlast hc rfl
      | cons e cs => exact hescape e cs hc rfl
    obtain ⟨body, rfl, hbody⟩ := ih h
    exact ⟨_, rfl, .cons (.char hquote hslash (by omega)) hbody⟩

/-! ## Numbers -/

/-- A text writes the sign of an exponent; a plus may be left out. -/
inductive WritesSign : List Char → Bool → Prop
  | none : WritesSign [] false
  | plus : WritesSign ['+'] false
  | minus : WritesSign ['-'] true

/-- A text writes the exponent of a numeral, or none. -/
inductive WritesExponent : List Char → Option Exponent → Prop
  | none : WritesExponent [] none
  | some {mark : Char} {sign : List Char} {negative : Bool} {digits : List Digit}
    (hmark : mark = 'e' ∨ mark = 'E') (hsign : WritesSign sign negative) (hdigits : digits ≠ []) :
    WritesExponent (mark :: (sign ++ digits.map Digit.char)) (some ⟨negative, digits⟩)

/-- The fraction of a numeral with its point, if there is one. -/
def fractionPart (fraction : List Digit) : List Char :=
  if fraction = [] then [] else '.' :: fraction.map Digit.char

/-- Before this text a numeral ends. -/
def EndsNumeral (n : Numeral) (rest : List Char) : Prop :=
  ∀ c ∈ rest.head?, Digit.ofChar? c = none ∧
    (n.exponent = none → c ≠ 'e' ∧ c ≠ 'E' ∧ (n.fraction = [] → c ≠ '.'))

section

variable {negative : Bool} {whole fraction : List Digit} {text cs rest : List Char}
  {e : Option Exponent}

theorem exponentLexeme_of_writes (h : WritesExponent text e)
    (ends : EndsNumeral ⟨negative, whole, fraction, e⟩ rest) :
    exponentLexeme negative whole fraction (text ++ rest) =
      (.number ⟨negative, whole, fraction, e⟩, rest) := by
  unfold exponentLexeme
  cases h with
  | none =>
    cases rest with
    | nil => rfl
    | cons c rest =>
      obtain ⟨hlower, hupper, -⟩ := (ends c rfl).2 rfl
      rw [List.nil_append]
      split <;> simp_all
  | @some mark sign exponentNegative digits hmark hsign hdigits =>
    have hspan := Digit.span_map_char digits fun c hc => (ends c hc).1
    have hsigns : ∀ d : Digit, d.char ≠ '+' ∧ d.char ≠ '-' := by decide
    obtain ⟨d, more, rfl⟩ := List.exists_cons_of_ne_nil hdigits
    rw [List.map_cons, List.cons_append] at hspan
    -- a digit is no sign, so an unsigned exponent is not mistaken for a signed one
    obtain ⟨hplus, hminus⟩ := hsigns d
    rcases hmark with rfl | rfl <;> cases hsign <;> simp_all

/-- Where a number needs digits there are some. -/
theorem exists_digits {other : Token × List Char}
    (h : (if (Digit.span cs).1 = [] then unfinished cs else other).1.isBroken = false) :
    ∃ (digits : List Digit) (rest : List Char), digits ≠ [] ∧ cs = digits.map Digit.char ++ rest ∧
      ∀ c ∈ rest.head?, Digit.ofChar? c = none := by
  obtain ⟨digits, rest, rfl, hrest⟩ := Digit.exists_span cs
  refine ⟨digits, rest, fun hnone => ?_, rfl, hrest⟩
  rw [Digit.span_map_char digits hrest, if_pos hnone] at h
  cases h

theorem exponentLexeme_mark {mark : Char} (h : mark = 'e' ∨ mark = 'E') :
    exponentLexeme negative whole fraction (mark :: cs) =
      exponentLexeme negative whole fraction ('e' :: cs) := by
  rcases h with rfl | rfl <;> rfl

theorem exists_writesExponent (hdigit : ∀ c ∈ cs.head?, Digit.ofChar? c = none)
    (h : (exponentLexeme negative whole fraction cs).1.isBroken = false) :
    ∃ text e rest, cs = text ++ rest ∧ WritesExponent text e ∧
      ∀ c ∈ rest.head?, Digit.ofChar? c = none ∧ (e = none → c ≠ 'e' ∧ c ≠ 'E') := by
  by_cases hmark : ∃ mark more, (mark = 'e' ∨ mark = 'E') ∧ cs = mark :: more
  · obtain ⟨mark, more, hmark, rfl⟩ := hmark
    rw [exponentLexeme_mark hmark] at h
    unfold exponentLexeme at h
    simp only at h
    split at h
    · obtain ⟨digits, rest, hne, rfl, hrest⟩ := exists_digits h
      exact ⟨mark :: (['+'] ++ digits.map Digit.char), _, rest, by simp, .some hmark .plus hne,
        fun c hc => ⟨hrest c hc, nofun⟩⟩
    · obtain ⟨digits, rest, hne, rfl, hrest⟩ := exists_digits h
      exact ⟨mark :: (['-'] ++ digits.map Digit.char), _, rest, by simp, .some hmark .minus hne,
        fun c hc => ⟨hrest c hc, nofun⟩⟩
    · obtain ⟨digits, rest, hne, rfl, hrest⟩ := exists_digits h
      exact ⟨mark :: ([] ++ digits.map Digit.char), _, rest, by simp, .some hmark .none hne,
        fun c hc => ⟨hrest c hc, nofun⟩⟩
  · -- without a mark the numeral ends here
    refine ⟨[], none, cs, rfl, .none, fun c hc => ⟨hdigit c hc, fun _ => ?_⟩⟩
    obtain ⟨more, rfl⟩ := List.head?_eq_some_iff.1 hc
    exact ⟨fun hlower => hmark ⟨c, more, .inl hlower, rfl⟩,
      fun hupper => hmark ⟨c, more, .inr hupper, rfl⟩⟩

/-- No digit follows the digits in front of an exponent, and no point follows a missing fraction. -/
theorem exponent_head (h : WritesExponent text e)
    (ends : EndsNumeral ⟨negative, whole, fraction, e⟩ rest) :
    ∀ c ∈ (text ++ rest).head?, Digit.ofChar? c = none ∧ (fraction = [] → c ≠ '.') := by
  intro c hc
  cases h with
  | none => exact ⟨(ends c hc).1, fun hnone => ((ends c hc).2 rfl).2.2 hnone⟩
  | some hmark _ _ =>
    cases hc
    rcases hmark with rfl | rfl <;> exact ⟨rfl, fun _ => by decide⟩

theorem fractionLexeme_of_writes (h : WritesExponent text e)
    (ends : EndsNumeral ⟨negative, whole, fraction, e⟩ rest) :
    fractionLexeme negative whole (fractionPart fraction ++ (text ++ rest)) =
      (.number ⟨negative, whole, fraction, e⟩, rest) := by
  have hhead := exponent_head h ends
  have hexponent := exponentLexeme_of_writes h ends
  unfold fractionLexeme fractionPart
  generalize text ++ rest = cs at *
  by_cases hfraction : fraction = []
  · subst hfraction
    rw [if_pos rfl, List.nil_append]
    split
    · exact absurd rfl ((hhead _ rfl).2 rfl)
    · exact hexponent
  · have hspan := Digit.span_map_char fraction fun c hc => (hhead c hc).1
    rw [if_neg hfraction, List.cons_append]
    simp only [hspan, if_neg hfraction, hexponent]

theorem exists_writesFraction (hdigit : ∀ c ∈ cs.head?, Digit.ofChar? c = none)
    (h : (fractionLexeme negative whole cs).1.isBroken = false) :
    ∃ fraction text e rest, cs = fractionPart fraction ++ (text ++ rest) ∧
      WritesExponent text e ∧ EndsNumeral ⟨negative, whole, fraction, e⟩ rest := by
  unfold fractionLexeme at h
  split at h
  · rename_i more
    obtain ⟨digits, rest, rfl, hrest⟩ := Digit.exists_span more
    simp only [Digit.span_map_char digits hrest] at h
    split at h
    · cases h
    · rename_i hne
      obtain ⟨text, e, rest, rfl, hwrites, hends⟩ := exists_writesExponent hrest h
      refine ⟨digits, text, e, rest, ?_, hwrites, fun c hc => ⟨(hends c hc).1, fun hnone => ?_⟩⟩
      · rw [fractionPart, if_neg hne, List.cons_append]
      · obtain ⟨hlower, hupper⟩ := (hends c hc).2 hnone
        exact ⟨hlower, hupper, fun hnil => absurd hnil hne⟩
  · rename_i hpoint
    obtain ⟨text, e, rest, rfl, hwrites, hends⟩ := exists_writesExponent hdigit h
    refine ⟨[], text, e, rest, rfl, hwrites, fun c hc => ⟨(hends c hc).1, fun hnone => ?_⟩⟩
    obtain ⟨hlower, hupper⟩ := (hends c hc).2 hnone
    refine ⟨hlower, hupper, fun _ hdot => ?_⟩
    -- without an exponent the rest is all that there is
    subst hnone
    cases hwrites
    obtain ⟨more, rfl⟩ := List.head?_eq_some_iff.1 hc
    exact hpoint more (by rw [hdot]; rfl)

theorem numberLexeme_of_writes {n : Numeral} (written : n.IsWritten)
    (h : WritesExponent text n.exponent) (ends : EndsNumeral n rest) :
    numberLexeme n.negative
        (n.whole.map Digit.char ++ (fractionPart n.fraction ++ (text ++ rest))) =
      (.number n, rest) := by
  have hfraction : fractionLexeme n.negative n.whole (fractionPart n.fraction ++ (text ++ rest)) =
      (.number n, rest) := fractionLexeme_of_writes h ends
  have hhead : ∀ c ∈ (fractionPart n.fraction ++ (text ++ rest)).head?,
      Digit.ofChar? c = none := by
    intro c hc
    unfold fractionPart at hc
    split_ifs at hc with hnone
    · exact (exponent_head h ends c hc).1
    · cases hc
      rfl
  -- the whole digits end where the fraction, the exponent or the rest begins
  have hspan := Digit.span_map_char n.whole hhead
  obtain ⟨d, more, hwhole, hzero⟩ := written.whole
  unfold numberLexeme
  rw [hspan]
  dsimp only
  rw [← hfraction]
  split <;> simp_all [Digit.zero]

theorem exists_writesNumber (h : (numberLexeme negative cs).1.isBroken = false) :
    ∃ (n : Numeral) (text rest : List Char), n.negative = negative ∧
      cs = n.whole.map Digit.char ++ (fractionPart n.fraction ++ (text ++ rest)) ∧
      n.IsWritten ∧ WritesExponent text n.exponent ∧ EndsNumeral n rest := by
  obtain ⟨whole, more, rfl, hmore⟩ := Digit.exists_span cs
  unfold numberLexeme at h
  rw [Digit.span_map_char whole hmore] at h
  dsimp only at h
  cases whole with
  | nil => cases h
  | cons d ds =>
    -- a zero in front of another digit is where the lexeme breaks
    have hzero : d = .zero → ds = [] := by
      rintro rfl
      cases ds with
      | nil => rfl
      | cons _ _ => cases h
    have hfraction : (fractionLexeme negative (d :: ds) more).1.isBroken = false := by
      split at h
      · cases h
      · cases h
      · exact h
    obtain ⟨fraction, text, e, rest, rfl, hwrites, hends⟩ := exists_writesFraction hmore hfraction
    refine ⟨⟨negative, d :: ds, fraction, e⟩, text, rest, rfl, rfl, ⟨⟨d, ds, rfl, hzero⟩, ?_⟩,
      hwrites, hends⟩
    -- an exponent has digits
    rintro _ ⟨⟩
    cases hwrites
    assumption

end

/-! ## Literals -/

section

variable {token : Token} {expected cs : List Char}

theorem literalLexeme_append (rest : List Char) :
    literalLexeme token expected (expected ++ rest) = (token, rest) := by
  induction expected with
  | nil => rfl
  | cons e expected ih => rw [List.cons_append, literalLexeme, if_pos rfl, ih]

theorem exists_literal (h : (literalLexeme token expected cs).1.isBroken = false) :
    ∃ rest, cs = expected ++ rest := by
  fun_induction literalLexeme token expected cs with
  | case1 => exact ⟨_, rfl⟩
  | case2 => cases h
  | case3 c expected cs ih =>
    obtain ⟨rest, rfl⟩ := ih h
    exact ⟨rest, rfl⟩
  | case4 => cases h

end

/-! ## Lexemes -/

/-- The texts of each lexeme. -/
inductive Writes : List Char → Token → Prop
  | beginArray : Writes ['['] .beginArray
  | endArray : Writes [']'] .endArray
  | beginObject : Writes ['{'] .beginObject
  | endObject : Writes ['}'] .endObject
  | colon : Writes [':'] .colon
  | comma : Writes [','] .comma
  | null : Writes ['n', 'u', 'l', 'l'] .null
  | true : Writes ['t', 'r', 'u', 'e'] (.bool true)
  | false : Writes ['f', 'a', 'l', 's', 'e'] (.bool false)
  | string {body : List Char} {ps : List Piece} (h : WritesPieces body ps) :
    Writes ('"' :: (body ++ ['"'])) (.string ((joined? ps).map String.ofList))
  | number {n : Numeral} {exponent : List Char} (written : n.IsWritten)
    (h : WritesExponent exponent n.exponent) :
    Writes ((if n.negative then ['-'] else []) ++
      (n.whole.map Digit.char ++ (fractionPart n.fraction ++ exponent))) (.number n)

/-- Before this text a lexeme ends. Only a numeral can go on. -/
def Ends : Token → List Char → Prop
  | .number n, rest => EndsNumeral n rest
  | _, _ => True

theorem lexeme_char (d : Digit) (cs : List Char) :
    lexeme d.char cs = numberLexeme false (d.char :: cs) := by
  fin_cases d <;> rfl

/-- A lexeme is read from its text, which does not begin with a blank. -/
theorem lexeme_of_writes {text rest : List Char} {t : Token} (h : Writes text t)
    (ends : Ends t rest) :
    ∃ first more, text = first :: more ∧ isBlank first = false ∧
      lexeme first (more ++ rest) = (t, rest) := by
  cases h with
  | beginArray => exact ⟨_, _, rfl, rfl, rfl⟩
  | endArray => exact ⟨_, _, rfl, rfl, rfl⟩
  | beginObject => exact ⟨_, _, rfl, rfl, rfl⟩
  | endObject => exact ⟨_, _, rfl, rfl, rfl⟩
  | colon => exact ⟨_, _, rfl, rfl, rfl⟩
  | comma => exact ⟨_, _, rfl, rfl, rfl⟩
  | null => exact ⟨_, _, rfl, rfl, literalLexeme_append rest⟩
  | true => exact ⟨_, _, rfl, rfl, literalLexeme_append rest⟩
  | false => exact ⟨_, _, rfl, rfl, literalLexeme_append rest⟩
  | @string body ps h =>
    refine ⟨_, _, rfl, rfl, ?_⟩
    show stringLexeme _ = _
    rw [stringLexeme, List.append_assoc, List.singleton_append, pieces_of_writes h]
  -- after the sign, or at the first digit, the numeral is read
  | @number n exponent written h =>
    have hnumber := numberLexeme_of_writes written h ends
    obtain ⟨d, more, hwhole, -⟩ := written.whole
    cases hsign : n.negative with
    | true =>
      refine ⟨'-', _, rfl, rfl, ?_⟩
      show numberLexeme true _ = _
      rw [← hnumber, hsign]
      simp
    | false =>
      have hblank : isBlank d.char = Bool.false := by
        fin_cases d <;> rfl
      refine ⟨d.char, _, by rw [hwhole]; rfl, hblank, ?_⟩
      rw [← hnumber, hsign, hwhole, lexeme_char]
      simp

theorem exists_writes {first : Char} {more : List Char}
    (h : (lexeme first more).1.isBroken = false) :
    ∃ text t rest, first :: more = text ++ rest ∧ Writes text t ∧ Ends t rest := by
  unfold lexeme at h
  split at h
  · exact ⟨_, _, _, rfl, .beginArray, trivial⟩
  · exact ⟨_, _, _, rfl, .endArray, trivial⟩
  · exact ⟨_, _, _, rfl, .beginObject, trivial⟩
  · exact ⟨_, _, _, rfl, .endObject, trivial⟩
  · exact ⟨_, _, _, rfl, .colon, trivial⟩
  · exact ⟨_, _, _, rfl, .comma, trivial⟩
  · unfold stringLexeme at h
    split at h
    · rename_i ps rest hpieces
      obtain ⟨body, rfl, hbody⟩ := exists_writesPieces (congrArg Prod.snd hpieces)
      exact ⟨_, _, rest, by simp, .string hbody, trivial⟩
    · cases h
  · obtain ⟨rest, rfl⟩ := exists_literal h
    exact ⟨_, _, _, rfl, .null, trivial⟩
  · obtain ⟨rest, rfl⟩ := exists_literal h
    exact ⟨_, _, _, rfl, .true, trivial⟩
  · obtain ⟨rest, rfl⟩ := exists_literal h
    exact ⟨_, _, _, rfl, .false, trivial⟩
  · -- numbers: with a sign, and without
    obtain ⟨n, exponent, rest, hn, rfl, written, hexponent, hends⟩ := exists_writesNumber h
    exact ⟨_, _, rest, by simp [hn], .number written hexponent, hends⟩
  · obtain ⟨n, exponent, rest, hn, htext, written, hexponent, hends⟩ := exists_writesNumber h
    exact ⟨_, _, rest, by simp [hn, htext], .number written hexponent, hends⟩

/-! ## Texts -/

theorem tokens_eq (cs : List Char) :
    tokens cs = match cs.dropWhile isBlank with
      | [] => []
      | first :: rest => (lexeme first rest).1 :: tokens (lexeme first rest).2 := by
  rw [tokens]
  split <;> rename_i h <;> rw [h]

theorem tokens_nil : tokens [] = [] := by
  rw [tokens_eq]
  rfl

/-- A lexeme begins at a character that is not blank. -/
theorem tokens_cons {c : Char} (h : isBlank c = false) (rest : List Char) :
    tokens (c :: rest) = (lexeme c rest).1 :: tokens (lexeme c rest).2 := by
  rw [tokens_eq, List.dropWhile_cons_of_neg (by rw [h]; exact Bool.false_ne_true)]

theorem tokens_blanks {blanks : List Char} (h : blanks.all isBlank = true) (rest : List Char) :
    tokens (blanks ++ rest) = tokens rest := by
  have hdrop : (blanks ++ rest).dropWhile isBlank = rest.dropWhile isBlank :=
    List.dropWhile_append_of_pos (List.all_eq_true.1 h)
  rw [tokens_eq, hdrop, ← tokens_eq]

/-- A text written as blanks and texts of lexemes. -/
inductive Lexed : List Char → List Token → Prop
  | nil {blanks : List Char} (hblanks : blanks.all isBlank = true) : Lexed blanks []
  | cons {blanks text rest : List Char} {t : Token} {ts : List Token}
    (hblanks : blanks.all isBlank = true) (first : Writes text t) (ends : Ends t rest)
    (more : Lexed rest ts) : Lexed (blanks ++ (text ++ rest)) (t :: ts)

theorem tokens_writes {text rest : List Char} {t : Token} (h : Writes text t)
    (ends : Ends t rest) : tokens (text ++ rest) = t :: tokens rest := by
  obtain ⟨first, more, rfl, hblank, hlexeme⟩ := lexeme_of_writes h ends
  rw [List.cons_append, tokens_cons hblank, hlexeme]

theorem isBroken_of_writes {text : List Char} {t : Token} (h : Writes text t) :
    t.isBroken = false := by
  cases h <;> rfl

theorem Lexed.tokens_eq {cs : List Char} {ts : List Token} (h : Lexed cs ts) :
    tokens cs = ts ∧ ∀ t ∈ ts, t.isBroken = false := by
  induction h with
  | @nil blanks hblanks =>
    have h := tokens_blanks hblanks []
    rw [List.append_nil, tokens_nil] at h
    exact ⟨h, List.forall_mem_nil _⟩
  | cons hblanks first ends _ ih =>
    obtain ⟨htokens, hsound⟩ := ih
    rw [tokens_blanks hblanks, tokens_writes first ends, htokens]
    exact ⟨rfl, List.forall_mem_cons.2 ⟨isBroken_of_writes first, hsound⟩⟩

theorem lexed_tokens {cs : List Char} (h : ∀ t ∈ tokens cs, t.isBroken = false) :
    Lexed cs (tokens cs) := by
  induction hn : cs.length using Nat.strong_induction_on generalizing cs with
  | _ n ih =>
    have hblanks : (cs.takeWhile isBlank).all isBlank = true := List.all_takeWhile
    have hsplit : cs.takeWhile isBlank ++ cs.dropWhile isBlank = cs :=
      List.takeWhile_append_dropWhile
    cases hrest : cs.dropWhile isBlank with
    | nil =>
      have htokens : tokens cs = [] := by rw [tokens_eq, hrest]
      rw [hrest, List.append_nil] at hsplit
      rw [hsplit] at hblanks
      rw [htokens]
      exact .nil hblanks
    | cons first more =>
      have hbroken : (lexeme first more).1.isBroken = false := by
        rw [tokens_eq, hrest] at h
        exact h _ List.mem_cons_self
      obtain ⟨text, t, rest, htext, hwrites, hends⟩ := exists_writes hbroken
      rw [hrest, htext] at hsplit
      have htokens : tokens cs = t :: tokens rest := by
        rw [← hsplit, tokens_blanks hblanks, tokens_writes hwrites hends]
      rw [htokens] at h ⊢
      -- a lexeme has at least one character, so the induction is on the length of the text
      have hshorter : rest.length < n := by
        obtain ⟨c, tail, rfl, -⟩ := lexeme_of_writes hwrites hends
        rw [← hn, ← hsplit]
        simp only [List.length_append, List.length_cons]
        omega
      have hmore := ih _ hshorter (fun t ht => h t (List.mem_cons_of_mem _ ht)) rfl
      have hlexed := Lexed.cons hblanks hwrites hends hmore
      rwa [hsplit] at hlexed

/-- The lexemes of a text without a broken one are those of the one way to write it. -/
theorem lexed_iff {cs : List Char} {ts : List Token} :
    Lexed cs ts ↔ tokens cs = ts ∧ ∀ t ∈ ts, t.isBroken = false := by
  refine ⟨Lexed.tokens_eq, ?_⟩
  rintro ⟨rfl, h⟩
  exact lexed_tokens h

/-! ## Blanks at the end -/

section

variable {blanks text rest cs : List Char} {t : Token} {ts : List Token}

theorem isBlank_char (d : Digit) : isBlank d.char = false := by
  fin_cases d <;> rfl

theorem getLast_digits {digits : List Digit} (h : digits ≠ []) (front : List Char) :
    ∃ last ∈ (front ++ digits.map Digit.char).getLast?, isBlank last = false := by
  obtain ⟨init, d, rfl⟩ := (List.eq_nil_or_concat digits).resolve_left h
  exact ⟨d.char, by simp [← List.append_assoc], isBlank_char d⟩

/-- The text of a lexeme does not end with a blank. -/
theorem getLast_of_writes (h : Writes text t) : ∃ last ∈ text.getLast?, isBlank last = false := by
  cases h with
  | beginArray => exact ⟨_, rfl, rfl⟩
  | endArray => exact ⟨_, rfl, rfl⟩
  | beginObject => exact ⟨_, rfl, rfl⟩
  | endObject => exact ⟨_, rfl, rfl⟩
  | colon => exact ⟨_, rfl, rfl⟩
  | comma => exact ⟨_, rfl, rfl⟩
  | null => exact ⟨_, rfl, rfl⟩
  | true => exact ⟨_, rfl, rfl⟩
  | false => exact ⟨_, rfl, rfl⟩
  | @string body _ _ =>
    refine ⟨'"', ?_, rfl⟩
    rw [← List.cons_append, List.getLast?_concat]
    rfl
  | @number n exponent written h =>
    obtain ⟨negative, whole, fraction, e⟩ := n
    generalize (if negative then ['-'] else []) = sign
    -- it ends with the last digits that there are
    cases h with
    | @some mark exponentSign _ digits _ _ hdigits =>
      have hlast := getLast_digits hdigits
        (sign ++ (whole.map Digit.char ++ (fractionPart fraction ++ mark :: exponentSign)))
      simpa only [List.append_assoc, List.cons_append] using hlast
    | none =>
      by_cases hfraction : fraction = []
      · obtain ⟨d, more, rfl, -⟩ := written.whole
        have hlast := getLast_digits (List.cons_ne_nil d more) sign
        simpa only [fractionPart, if_pos hfraction, List.append_nil] using hlast
      · have hlast := getLast_digits hfraction (sign ++ (whole.map Digit.char ++ ['.']))
        simpa only [fractionPart, if_neg hfraction, List.append_assoc, List.cons_append,
          List.nil_append, List.append_nil] using hlast

theorem endsNumeral_blanks (n : Numeral) (hblanks : blanks.all isBlank = true) :
    EndsNumeral n blanks := by
  intro c hc
  obtain ⟨more, rfl⟩ := List.head?_eq_some_iff.1 hc
  rw [List.all_cons, Bool.and_eq_true] at hblanks
  rcases isBlank_iff.1 hblanks.1 with rfl | rfl | rfl | rfl <;>
  · exact ⟨rfl, fun _ => ⟨by decide, by decide, fun _ => by decide⟩⟩

theorem ends_append_iff (hblanks : blanks.all isBlank = true) :
    Ends t (rest ++ blanks) ↔ Ends t rest := by
  cases t with
  | number n =>
    cases rest with
    | nil => exact iff_of_true (endsNumeral_blanks n hblanks) nofun
    | cons c rest => exact Iff.rfl
  | _ => exact Iff.rfl

/-- Blanks can be added at the end and taken away. -/
theorem lexed_append_blanks (hblanks : blanks.all isBlank = true) :
    Lexed (cs ++ blanks) ts ↔ Lexed cs ts := by
  constructor
  · intro h
    generalize hwhole : cs ++ blanks = whole at h
    induction h generalizing cs with
    | nil hall =>
      rw [← hwhole, List.all_append, Bool.and_eq_true] at hall
      exact .nil hall.1
    | @cons before text rest t ts hbefore hwrites hends more ih =>
      rw [← List.append_assoc, List.append_eq_append_iff] at hwhole
      rcases hwhole with ⟨inner, htext, rfl⟩ | ⟨inner, rfl, rfl⟩
      · rcases List.eq_nil_or_concat inner with rfl | ⟨init, c, rfl⟩
        · have hend : Ends t [] := (ends_append_iff hblanks).1 hends
          have hlexed := Lexed.cons hbefore hwrites hend (ih rfl)
          rwa [List.append_nil, htext, List.append_nil] at hlexed
        · -- the blanks cannot begin inside the lexeme, which does not end with one
          obtain ⟨last, hlast, hblank⟩ := getLast_of_writes hwrites
          have hlast' : (before ++ text).getLast? = some last := by
            rw [List.getLast?_append, hlast]
            rfl
          rw [htext, List.concat_eq_append, ← List.append_assoc, List.getLast?_concat] at hlast'
          obtain rfl := Option.some.inj hlast'
          simp [hblank] at hblanks
      · rw [List.append_assoc]
        exact .cons hbefore hwrites ((ends_append_iff hblanks).1 hends) (ih rfl)
  · intro h
    induction h with
    | nil hall => exact .nil (by rw [List.all_append, hall, hblanks]; rfl)
    | cons hbefore hwrites hends _ ih =>
      rw [List.append_assoc, List.append_assoc]
      exact .cons hbefore hwrites ((ends_append_iff hblanks).2 hends) ih

/-- What the last lexeme is written as. -/
theorem Lexed.exists_last (h : Lexed cs (ts ++ [t])) :
    ∃ front text blanks, cs = front ++ (text ++ blanks) ∧ Writes text t ∧
      blanks.all isBlank = true := by
  induction ts generalizing cs with
  | nil =>
    cases h with
    | cons _ hwrites _ more =>
      cases more with
      | nil hblanks => exact ⟨_, _, _, rfl, hwrites, hblanks⟩
  | cons _ ts ih =>
    cases h with
    | @cons before first _ _ _ _ _ _ more =>
      obtain ⟨front, text, blanks, rfl, hwrites, hblanks⟩ := ih more
      exact ⟨before ++ (first ++ front), text, blanks, by simp only [List.append_assoc], hwrites,
        hblanks⟩

end

end Json

end Slowdown
