/-
The lexemes of printed texts: a string stands for its text whatever needs an escape in it, and a
numeral for itself if no character follows that could continue it.
-/
import Slowdown.Json.Printer
import Slowdown.Proofs.Json.Lexical

namespace Slowdown

namespace Json

/-! ## Strings -/

/-- A control without an escape of its own is written by its four digits. -/
theorem exists_hexUnit {n : Nat} (h : n < 32) :
    ∃ a b, hexUnit? '0' '0' a b = some n ∧
      (if n < 16 then ['\\', 'u', '0', '0', '0'] ++ Text.hex n
        else ['\\', 'u', '0', '0'] ++ Text.hex n) = ['\\', 'u', '0', '0', a, b] := by
  interval_cases n <;> exact ⟨_, _, rfl, rfl⟩

theorem joined?_unit {u : Nat} (h : isSurrogate u = false) (ps : List Piece) :
    joined? (.unit u :: ps) = (joined? ps).map (Char.ofNat u :: ·) := by
  have hleading : isLeading u = false := by
    rw [isSurrogate, Bool.or_eq_false_iff] at h
    exact h.1
  cases ps with
  | nil => simp [joined?, h]
  | cons p ps => cases p <;> simp [joined?, h, hleading]

/-- A text that is read as one piece, which stands for a character. -/
def Prints (text : List Char) (c : Char) : Prop :=
  ∃ p, (∀ cs, pieces (text ++ cs) = (p :: (pieces cs).1, (pieces cs).2)) ∧
    ∀ ps, joined? (p :: ps) = (joined? ps).map (c :: ·)

theorem prints_shortEscape {e c : Char} (hunit : e ≠ 'u') (h : shortEscape? e = some c) :
    Prints ['\\', e] c :=
  ⟨.char c, pieces_shortEscape hunit h, fun _ => rfl⟩

theorem prints_control {c : Char} (h : c.toNat < 32) :
    Prints (if c.toNat < 16 then ['\\', 'u', '0', '0', '0'] ++ Text.hex c.toNat
      else ['\\', 'u', '0', '0'] ++ Text.hex c.toNat) c := by
  obtain ⟨a, b, hunit, htext⟩ := exists_hexUnit h
  have hplain : isSurrogate c.toNat = false := by
    simp only [isSurrogate, isLeading, isTrailing, Bool.or_eq_false_iff, Bool.and_eq_false_iff,
      decide_eq_false_iff_not]
    omega
  refine ⟨.unit c.toNat, fun cs => ?_, fun ps => ?_⟩
  · rw [htext]
    exact pieces_unit hunit cs
  · rw [joined?_unit hplain, Char.ofNat_toNat]

theorem prints_stringChar (c : Char) : Prints (stringChar c) c := by
  have hchar : ∀ n, c.toNat = n → c = Char.ofNat n := fun n h => by rw [← h, Char.ofNat_toNat]
  unfold stringChar
  split_ifs with hquote hslash hback hfeed hline hreturn htab hfew hcontrol
  · exact prints_shortEscape (by decide) (by rw [hquote]; rfl)
  · exact prints_shortEscape (by decide) (by rw [hslash]; rfl)
  · exact prints_shortEscape (by decide) (by rw [hchar 8 hback]; rfl)
  · exact prints_shortEscape (by decide) (by rw [hchar 12 hfeed]; rfl)
  · exact prints_shortEscape (by decide) (by rw [hline]; rfl)
  · exact prints_shortEscape (by decide) (by rw [hreturn]; rfl)
  · exact prints_shortEscape (by decide) (by rw [htab]; rfl)
  · have h := prints_control (c := c) (by omega)
    rwa [if_pos hfew] at h
  · have h := prints_control hcontrol
    rwa [if_neg hfew] at h
  · exact ⟨.char c, pieces_cons hquote hslash (by omega), fun _ => rfl⟩

theorem pieces_stringChars (s rest : List Char) :
    ∃ ps, pieces (s.flatMap stringChar ++ '"' :: rest) = (ps, .ok rest) ∧ joined? ps = some s := by
  induction s with
  | nil => exact ⟨[], rfl, rfl⟩
  | cons c s ih =>
    obtain ⟨ps, hpieces, hjoined⟩ := ih
    obtain ⟨p, hp, hc⟩ := prints_stringChar c
    refine ⟨p :: ps, ?_, by rw [hc, hjoined]; rfl⟩
    rw [List.flatMap_cons, List.append_assoc, hp, hpieces]

/-- A printed string is read as its text, whatever follows. -/
theorem tokens_stringText (s : String) (rest : List Char) :
    tokens (stringText s ++ rest) = .string (some s) :: tokens rest := by
  obtain ⟨ps, hpieces, hjoined⟩ := pieces_stringChars s.toList rest
  have hlexeme : lexeme '"' (s.toList.flatMap stringChar ++ '"' :: rest) =
      (.string (some s), rest) := by
    show stringLexeme _ = _
    rw [stringLexeme, hpieces]
    simp [hjoined]
  have htext : stringText s ++ rest = '"' :: (s.toList.flatMap stringChar ++ '"' :: rest) := by
    simp [stringText]
  rw [htext, tokens_cons (by decide), hlexeme]

/-! ## Numbers -/

/-- A text with which no numeral goes on. -/
def EndsNumber (rest : List Char) : Prop :=
  ∀ c ∈ rest.head?, Digit.ofChar? c = none ∧ c ≠ '.' ∧ c ≠ 'e' ∧ c ≠ 'E'

/-- The end of the text of a numeral. -/
def exponentPart : Option Exponent → List Char
  | none => []
  | some e => Numeral.exponentText true e

theorem text_eq (n : Numeral) :
    n.text true = (if n.negative then ['-'] else []) ++ n.whole.map Digit.char
      ++ fractionPart n.fraction ++ exponentPart n.exponent := by
  obtain ⟨negative, whole, fraction, exponent⟩ := n
  cases exponent <;> rfl

theorem writesExponent_part {e : Option Exponent} (digits : ∀ e' ∈ e, e'.digits ≠ []) :
    WritesExponent (exponentPart e) e := by
  cases e with
  | none => exact .none
  | some e =>
    obtain ⟨negative, ds⟩ := e
    have hdigits : ds ≠ [] := digits _ rfl
    cases negative
    · exact .some (.inl rfl) .plus hdigits
    · exact .some (.inl rfl) .minus hdigits

/-- A numeral is read as itself before a text with which it does not go on. -/
theorem tokens_text {rest : List Char} (ends : EndsNumber rest) {n : Numeral}
    (written : n.IsWritten) : tokens (n.text true ++ rest) = .number n :: tokens rest := by
  have hends : Ends (.number n) rest := fun c hc => by
    obtain ⟨hdigit, hpoint, hlower, hupper⟩ := ends c hc
    exact ⟨hdigit, fun _ => ⟨hlower, hupper, fun _ => hpoint⟩⟩
  have htokens := tokens_writes (.number written (writesExponent_part written.exponent)) hends
  rwa [← List.append_assoc, ← List.append_assoc, ← text_eq] at htokens

end Json

end Slowdown
