/-
Lines and table cells of a Markdown text. A line break ends a line; in a line of a table a bar
ends a cell, unless a backslash stands in front of it. Plain texts, such as numbers, end neither.
-/
import Slowdown.Decimal.Layout
import Mathlib.Tactic

namespace Slowdown

namespace Text

/-! ## Lines -/

theorem length_splitOn (c : Char) (cs : List Char) : (cs.splitOn c).length = cs.count c + 1 := by
  induction cs with
  | nil => simp
  | cons x cs ih =>
    rw [List.splitOn_cons_eq_if_modifyHead, List.count_cons]
    split_ifs <;> simp [ih]

/-- Texts with a line break after each are split where any of them is, and after each. -/
theorem splitOn_flatMap (texts : List (List Char)) :
    (texts.flatMap (· ++ ['\n'])).splitOn '\n' = texts.flatMap (·.splitOn '\n') ++ [[]] := by
  induction texts with
  | nil => simp
  | cons text texts ih =>
    rw [List.flatMap_cons, List.append_assoc, List.singleton_append,
      List.splitOn_append_cons_self, ih, List.flatMap_cons, List.append_assoc]

theorem length_flatMap_splitOn {texts : List (List Char)} :
    (texts.flatMap (·.splitOn '\n')).length = texts.length ↔ ∀ text ∈ texts, '\n' ∉ text := by
  -- a text is at least one line, so one more line anywhere shows in the sum
  have hatLeast : ∀ texts : List (List Char),
      texts.length ≤ (texts.flatMap (·.splitOn '\n')).length := by
    intro texts
    induction texts with
    | nil => exact Nat.le_refl _
    | cons text texts ih =>
      rw [List.flatMap_cons, List.length_append, length_splitOn, List.length_cons]
      omega
  induction texts with
  | nil => simp
  | cons text texts ih =>
    have hcount : text.count '\n' = 0 ↔ '\n' ∉ text := List.count_eq_zero
    have := hatLeast texts
    rw [List.flatMap_cons, List.length_append, length_splitOn, List.length_cons,
      List.forall_mem_cons, ← hcount]
    refine Iff.trans ?_ (and_congr_right fun _ => ih)
    omega

theorem flatMap_splitOn {texts : List (List Char)} (h : ∀ text ∈ texts, '\n' ∉ text) :
    texts.flatMap (·.splitOn '\n') = texts := by
  induction texts with
  | nil => rfl
  | cons text texts ih =>
    rw [List.flatMap_cons, List.splitOn_eq_singleton (h text List.mem_cons_self),
      ih fun t ht => h t (List.mem_cons_of_mem _ ht)]
    rfl

/-! ## Cells -/

/-- How many bars end a cell. -/
def bars : List Char → Nat
  | '\\' :: _ :: rest => bars rest
  | '|' :: rest => bars rest + 1
  | _ :: rest => bars rest
  | [] => 0

/-- The cells of a line, and what stands in front of the first bar and after the last. -/
def cells : List Char → List (List Char)
  | '\\' :: c :: rest => (cells rest).modifyHead fun cell => '\\' :: c :: cell
  | '|' :: rest => [] :: cells rest
  | c :: rest => (cells rest).modifyHead (c :: ·)
  | [] => [[]]

theorem length_cells (cs : List Char) : (cells cs).length = bars cs + 1 := by
  fun_induction bars cs <;> simp_all [cells]

/-- How many cells a line has. What stands in front of the first bar and after the last is none. -/
def cellCount (line : List Char) : Nat := (cells line).length - 2

theorem cellCount_eq (line : List Char) : cellCount line = bars line - 1 := by
  rw [cellCount, length_cells]
  omega

/-- Characters without a meaning in a table. -/
def IsPlain (c : Char) : Prop := c ≠ '|' ∧ c ≠ '\\' ∧ c ≠ '\n'

instance (c : Char) : Decidable (IsPlain c) := inferInstanceAs (Decidable (_ ∧ _ ∧ _))

/-- A text without a line break, a bar or a backslash. -/
def IsPlainText (text : List Char) : Prop := ∀ c ∈ text, IsPlain c

-- character by character, not by a search through all characters
instance (text : List Char) : Decidable (IsPlainText text) := List.decidableBAll IsPlain text

theorem bars_cons {c : Char} (h : IsPlain c) (rest : List Char) : bars (c :: rest) = bars rest := by
  obtain ⟨hbar, hslash, -⟩ := h
  rw [bars] <;> simp_all

theorem bars_bar (rest : List Char) : bars ('|' :: rest) = bars rest + 1 := by
  rw [bars]

/-- A backslash with nothing to escape ends the text. In front of more text it escapes what comes
next. -/
theorem eq_nil_of_lastSlash {x : Char} {text : List Char}
    (h : ∀ c rest, x = '\\' → text = c :: rest → False) (hx : x = '\\') : text = [] := by
  cases text with
  | nil => rfl
  | cons c rest => exact (h c rest hx rfl).elim

/-- A plain character can be escaped, but the bars on either side of it are the same. -/
theorem bars_append {c : Char} (h : IsPlain c) (text rest : List Char) :
    bars (text ++ c :: rest) = bars text + bars rest := by
  fun_induction bars text with
  | case1 x text ih => rw [List.cons_append, List.cons_append, bars, ih]
  | case2 text ih => rw [List.cons_append, bars_bar, ih]; omega
  | case3 x text hslash hbar ih =>
    by_cases hx : x = '\\'
    · obtain rfl := eq_nil_of_lastSlash hslash hx
      subst hx
      show bars rest = 0 + bars rest
      omega
    · rw [List.cons_append, bars, ih] <;> simp_all
  | case4 => rw [List.nil_append, bars_cons h, Nat.zero_add]

theorem bars_of_plain {text : List Char} (h : IsPlainText text) : bars text = 0 := by
  induction text with
  | nil => rfl
  | cons c text ih =>
    rw [bars_cons (h c List.mem_cons_self), ih fun x hx => h x (List.mem_cons_of_mem _ hx)]

/-- A text without bars before a blank and a bar is a cell. -/
theorem cells_append {text : List Char} (h : bars text = 0) (rest : List Char) :
    cells (text ++ ' ' :: '|' :: rest) = (text ++ [' ']) :: cells rest := by
  fun_induction bars text with
  | case1 x text ih => rw [List.cons_append, List.cons_append, cells, ih h]; rfl
  | case2 text ih => omega
  | case3 x text hslash hbar ih =>
    by_cases hx : x = '\\'
    · obtain rfl := eq_nil_of_lastSlash hslash hx
      subst hx
      rfl
    · rw [List.cons_append, cells, ih h] <;> simp_all
  | case4 => rfl

/-- A line of a table with these texts in its cells. -/
def tableLine (texts : List (List Char)) : List Char :=
  '|' :: texts.flatMap fun text => ' ' :: (text ++ [' ', '|'])

theorem mem_tableLine {texts : List (List Char)} :
    '\n' ∈ tableLine texts ↔ ∃ text ∈ texts, '\n' ∈ text := by
  simp [tableLine]

theorem bars_tableLine (texts : List (List Char)) :
    bars (tableLine texts) = texts.length + 1 + (texts.map bars).sum := by
  have hcells : bars (texts.flatMap fun text => ' ' :: (text ++ [' ', '|'])) =
      texts.length + (texts.map bars).sum := by
    induction texts with
    | nil => rfl
    | cons text texts ih =>
      rw [List.flatMap_cons, List.cons_append, bars_cons (by decide), List.append_assoc,
        List.cons_append, bars_append (by decide), List.singleton_append, bars_bar, ih,
        List.length_cons, List.map_cons, List.sum_cons]
      omega
  rw [tableLine, bars_bar, hcells]
  omega

theorem cells_tableLine {texts : List (List Char)} (h : ∀ text ∈ texts, bars text = 0) :
    cells (tableLine texts) = [] :: ((texts.map fun text => ' ' :: (text ++ [' '])) ++ [[]]) := by
  have hcells : cells (texts.flatMap fun text => ' ' :: (text ++ [' ', '|'])) =
      (texts.map fun text => ' ' :: (text ++ [' '])) ++ [[]] := by
    induction texts with
    | nil => rfl
    | cons text texts ih =>
      have hblank : bars (' ' :: text) = 0 := by
        rw [bars_cons (by decide), h text List.mem_cons_self]
      have hfirst := cells_append hblank (texts.flatMap fun text => ' ' :: (text ++ [' ', '|']))
      rw [ih fun t ht => h t (List.mem_cons_of_mem _ ht)] at hfirst
      rw [List.flatMap_cons, List.map_cons, List.cons_append, List.append_assoc]
      exact hfirst
  rw [tableLine, cells, hcells]

/-! ## Plain texts -/

theorem isPlain_digit {c : Char} (h : c.isDigit = true) : IsPlain c := by
  refine ⟨?_, ?_, ?_⟩ <;> rintro rfl <;> exact absurd h (by decide)

theorem plain_toString (n : Nat) : IsPlainText (toString n).toList := by
  intro c hc
  have hdigits : c ∈ Nat.toDigits 10 n := by rwa [← Nat.toList_repr]
  exact isPlain_digit (Nat.isDigit_of_mem_toDigits (by decide) (by decide) hdigits)

theorem plain_append {s t : String} (hs : IsPlainText s.toList) (ht : IsPlainText t.toList) :
    IsPlainText (s ++ t).toList := by
  intro c hc
  rw [String.toList_append, List.mem_append] at hc
  exact hc.elim (hs c) (ht c)

/-- What holds of the digits and the marks of a numeral holds all through its text. -/
theorem forall_mem_numeral {P : Char → Prop} (digits : ∀ d : Digit, P d.char)
    (marks : ∀ c ∈ ['-', '+', '.', 'e'], P c) (plus : Bool) (n : Numeral) :
    ∀ c ∈ n.text plus, P c := by
  have hdigits : ∀ ds : List Digit, ∀ c ∈ ds.map Digit.char, P c := by
    intro ds c hc
    obtain ⟨d, -, rfl⟩ := List.mem_map.1 hc
    exact digits d
  intro c hc
  simp only [Numeral.text, List.mem_append] at hc
  rcases hc with ((hc | hc) | hc) | hc
  · split_ifs at hc
    · exact marks c (by simp_all)
    · cases hc
  · exact hdigits _ c hc
  · split_ifs at hc
    · cases hc
    · rcases List.mem_cons.1 hc with rfl | hc
      · exact marks _ (by simp)
      · exact hdigits _ c hc
  · split at hc
    · cases hc
    · unfold Numeral.exponentText at hc
      rcases List.mem_cons.1 hc with rfl | hc
      · exact marks _ (by simp)
      rcases List.mem_append.1 hc with hc | hc
      · split_ifs at hc
        · exact marks c (by simp_all)
        · exact marks c (by simp_all)
        · cases hc
      · exact hdigits _ c hc

theorem forall_mem_fixed {P : Char → Prop} (digits : ∀ d : Digit, P d.char)
    (marks : ∀ c ∈ ['-', '+', '.', 'e'], P c) (words : ∀ c ∈ "NaN-inf".toList, P c)
    (places : Nat) (x : Double) : ∀ c ∈ (Decimal.fixed places x).toList, P c := by
  have hword : ∀ word : String, word.toList ⊆ "NaN-inf".toList → ∀ c ∈ word.toList, P c :=
    fun _ hsub c hc => words c (hsub hc)
  unfold Decimal.fixed Decimal.nonFinite
  split_ifs
  · rw [String.toList_ofList]
    exact forall_mem_numeral digits marks _ _
  · exact hword "NaN" (by decide)
  · exact hword "-inf" (by decide)
  · exact hword "inf" (by decide)

theorem plain_fixed (places : Nat) (x : Double) : IsPlainText (Decimal.fixed places x).toList := by
  have digits : ∀ d : Digit, IsPlain d.char := fun d => by fin_cases d <;> decide
  have marks : IsPlainText ['-', '+', '.', 'e'] := by decide
  have words : IsPlainText "NaN-inf".toList := by decide
  exact forall_mem_fixed digits marks words places x

end Text

end Slowdown
