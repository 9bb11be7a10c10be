/-
The printed forms of a tree against its tokens. Both forms are one, with blanks in different
places, and the lexemes of a printed tree are its spelling, so that a tree within the limits of
the reader is read back as it was printed.
-/
import Slowdown.Proofs.Json.Lexemes
import Slowdown.Proofs.Json.Spelling

namespace Slowdown

namespace Json

/-! ## Forms -/

/-- The blanks of a form: a line break before what stands on a level, and a gap after a colon. -/
structure Form where
  line : Nat → List Char
  gap : List Char
  line_blank : ∀ level, (line level).all isBlank = true
  gap_blank : gap.all isBlank = true

mutual

/-- A tree in a form. -/
def written (form : Form) (level : Nat) : Json → List Char
  | null => "null".toList
  | bool b => boolText b
  | number n => n.text true
  | string s => stringText s
  | array [] => ['[', ']']
  | array (v :: rest) =>
    '[' :: form.line (level + 1) ++ written form (level + 1) v ++ writtenItems form level rest
  | object [] => ['{', '}']
  | object ((name, v) :: rest) =>
    '{' :: form.line (level + 1) ++ stringText name ++ ':' :: form.gap
      ++ written form (level + 1) v ++ writtenMembers form level rest

/-- The items after the first, and the end of the array. -/
def writtenItems (form : Form) (level : Nat) : List Json → List Char
  | [] => form.line level ++ [']']
  | v :: rest =>
    ',' :: form.line (level + 1) ++ written form (level + 1) v ++ writtenItems form level rest

/-- The members after the first, and the end of the object. -/
def writtenMembers (form : Form) (level : Nat) : List (String × Json) → List Char
  | [] => form.line level ++ ['}']
  | (name, v) :: rest =>
    ',' :: form.line (level + 1) ++ stringText name ++ ':' :: form.gap
      ++ written form (level + 1) v ++ writtenMembers form level rest

end

/-- The form without blanks. -/
def Form.tight : Form := ⟨fun _ => [], [], fun _ => rfl, rfl⟩

/-- The form with a line for each item and member. -/
def Form.lined : Form where
  line := newLine
  gap := [' ']
  line_blank level := by simp [newLine, isBlank]
  gap_blank := rfl

mutual

theorem written_tight (level : Nat) : ∀ v : Json, written .tight level v = v.compact
  | null | bool _ | number _ | string _ | array [] | object [] => rfl
  | array (v :: rest) => by
    rw [written, compact, written_tight, writtenItems_tight]
    rfl
  | object ((name, v) :: rest) => by
    rw [written, compact, written_tight, writtenMembers_tight]
    simp [Form.tight]

theorem writtenItems_tight (level : Nat) :
    ∀ items : List Json, writtenItems .tight level items = compactItems items
  | [] => rfl
  | v :: rest => by
    rw [writtenItems, compactItems, written_tight, writtenItems_tight]
    rfl

theorem writtenMembers_tight (level : Nat) :
    ∀ members : List (String × Json), writtenMembers .tight level members = compactMembers members
  | [] => rfl
  | (name, v) :: rest => by
    rw [writtenMembers, compactMembers, written_tight, writtenMembers_tight]
    simp [Form.tight]

end

mutual

theorem written_lined (level : Nat) : ∀ v : Json, written .lined level v = v.indented level
  | null | bool _ | number _ | string _ | array [] | object [] => rfl
  | array (v :: rest) => by
    rw [written, indented, written_lined, writtenItems_lined]
    rfl
  | object ((name, v) :: rest) => by
    rw [written, indented, written_lined, writtenMembers_lined]
    simp [Form.lined]

theorem writtenItems_lined (level : Nat) :
    ∀ items : List Json, writtenItems .lined level items = indentedItems level items
  | [] => rfl
  | v :: rest => by
    rw [writtenItems, indentedItems, written_lined, writtenItems_lined]
    rfl

theorem writtenMembers_lined (level : Nat) :
    ∀ members : List (String × Json),
      writtenMembers .lined level members = indentedMembers level members
  | [] => rfl
  | (name, v) :: rest => by
    rw [writtenMembers, indentedMembers, written_lined, writtenMembers_lined]
    simp [Form.lined]

end

/-! ## Lexemes of a printed tree -/

/-- Trees whose numerals have the form of numerals in a text. -/
inductive Printable : Json → Prop
  | null : Printable .null
  | bool {b : Bool} : Printable (.bool b)
  | number {n : Numeral} (written : n.IsWritten) : Printable (.number n)
  | string {s : String} : Printable (.string s)
  | array {items : List Json} (inner : ∀ v ∈ items, Printable v) : Printable (.array items)
  | object {members : List (String × Json)} (inner : ∀ m ∈ members, Printable m.2) :
    Printable (.object members)

theorem endsNumber_nil : EndsNumber [] := nofun

theorem endsNumber_cons {c : Char} (h : c = ',' ∨ c = ']' ∨ c = '}' ∨ isBlank c = true)
    (rest : List Char) : EndsNumber (c :: rest) := by
  have hc : ∀ b, b = ',' ∨ b = ']' ∨ b = '}' ∨ b = ' ' ∨ b = '\t' ∨ b = '\n' ∨ b = '\r' →
      Digit.ofChar? b = none ∧ b ≠ '.' ∧ b ≠ 'e' ∧ b ≠ 'E' := by
    rintro b (rfl | rfl | rfl | rfl | rfl | rfl | rfl) <;> decide
  rintro _ ⟨⟩
  refine hc c ?_
  rwa [isBlank_iff] at h

/-- A number ends before blanks and what ends a number. -/
theorem EndsNumber.blanks {blanks rest : List Char} (h : blanks.all isBlank = true)
    (ends : EndsNumber rest) : EndsNumber (blanks ++ rest) := by
  cases blanks with
  | nil => exact ends
  | cons c blanks =>
    rw [List.all_cons, Bool.and_eq_true] at h
    exact endsNumber_cons (.inr (.inr (.inr h.1))) _

/-- A punctuation mark, which is a lexeme by itself. -/
theorem tokens_mark {c : Char} {token : Token} (hblank : isBlank c = false)
    (hmark : ∀ cs, lexeme c cs = (token, cs)) (rest : List Char) :
    tokens (c :: rest) = token :: tokens rest := by
  rw [tokens_cons hblank, hmark]

section

variable (form : Form) (level : Nat) (rest : List Char)

theorem endsNumber_writtenItems (items : List Json) :
    EndsNumber (writtenItems form level items ++ rest) := by
  cases items with
  | nil =>
    rw [writtenItems, List.append_assoc]
    exact .blanks (form.line_blank level) (endsNumber_cons (by simp) _)
  | cons v items =>
    rw [writtenItems]
    exact endsNumber_cons (by simp) _

theorem endsNumber_writtenMembers (members : List (String × Json)) :
    EndsNumber (writtenMembers form level members ++ rest) := by
  cases members with
  | nil =>
    rw [writtenMembers, List.append_assoc]
    exact .blanks (form.line_blank level) (endsNumber_cons (by simp) _)
  | cons m members =>
    rw [writtenMembers]
    exact endsNumber_cons (by simp) _

/-- Further items, whose lexemes are known, up to the end of the array. -/
theorem tokens_writtenItems {items : List Json}
    (each : ∀ v ∈ items, ∀ level rest, EndsNumber rest →
      tokens (written form level v ++ rest) = spelling v ++ tokens rest) :
    tokens (writtenItems form level items ++ rest) =
      (items.map spelling).flatMap (.comma :: ·) ++ .endArray :: tokens rest := by
  induction items with
  | nil =>
    rw [writtenItems, List.append_assoc, tokens_blanks (form.line_blank level)]
    exact tokens_mark rfl (fun _ => rfl) rest
  | cons v items ih =>
    have hrest := ih fun w hw => each w (List.mem_cons_of_mem _ hw)
    rw [writtenItems, List.append_assoc, List.append_assoc, List.cons_append,
      tokens_mark rfl (fun _ => rfl), tokens_blanks (form.line_blank _),
      each v List.mem_cons_self _ _ (endsNumber_writtenItems form level rest items), hrest]
    simp

/-- A member is its name, a colon and a value. -/
theorem tokens_member {v : Json} {ending : List Char} (name : String)
    (hv : tokens (written form level v ++ ending) = spelling v ++ tokens ending) :
    tokens (stringText name ++ ':' :: (form.gap ++ (written form level v ++ ending))) =
      memberSpelling (name, v) ++ tokens ending := by
  rw [tokens_stringText, tokens_mark rfl fun _ => rfl, tokens_blanks form.gap_blank, hv]
  rfl

/-- Further members, the lexemes of whose values are known, up to the end of the object. -/
theorem tokens_writtenMembers {members : List (String × Json)}
    (each : ∀ m ∈ members, ∀ level rest, EndsNumber rest →
      tokens (written form level m.2 ++ rest) = spelling m.2 ++ tokens rest) :
    tokens (writtenMembers form level members ++ rest) =
      (members.map memberSpelling).flatMap (.comma :: ·) ++ .endObject :: tokens rest := by
  induction members with
  | nil =>
    rw [writtenMembers, List.append_assoc, tokens_blanks (form.line_blank level)]
    exact tokens_mark rfl (fun _ => rfl) rest
  | cons m members ih =>
    have hrest := ih fun w hw => each w (List.mem_cons_of_mem _ hw)
    have hv := each m List.mem_cons_self (level + 1) _
      (endsNumber_writtenMembers form level rest members)
    have hmember := tokens_member form (level + 1) m.1 hv
    rw [hrest] at hmember
    -- the text of the first member, with its blanks told apart from its lexemes
    have htext : writtenMembers form level (m :: members) ++ rest =
        ',' :: (form.line (level + 1) ++ (stringText m.1 ++ ':' :: (form.gap ++
          (written form (level + 1) m.2 ++ (writtenMembers form level members ++ rest))))) := by
      simp [writtenMembers]
    rw [htext, tokens_mark rfl (fun _ => rfl), tokens_blanks (form.line_blank _), hmember]
    simp

/-- The lexemes of a printed tree spell it, whatever follows that ends a number. -/
theorem tokens_written {v : Json} (printable : Printable v) (ends : EndsNumber rest) :
    tokens (written form level v ++ rest) = spelling v ++ tokens rest := by
  induction v using spelling.induct generalizing level rest with
  | case1 =>
    rw [spelling]
    exact tokens_cons rfl _
  | case2 b =>
    rw [spelling]
    cases b <;> exact tokens_cons rfl _
  | case3 n =>
    cases printable with
    | number written => rw [spelling, Json.written, tokens_text ends written]; rfl
  | case4 s => rw [spelling, written, tokens_stringText]; rfl
  | case5 items ih =>
    have inner : ∀ v ∈ items, Printable v := by
      cases printable
      assumption
    rw [spelling_array]
    cases items with
    | nil =>
      refine (@tokens_mark '[' .beginArray rfl (fun _ => rfl) _).trans ?_
      exact congrArg _ (tokens_mark rfl (fun _ => rfl) rest)
    | cons v items =>
      -- a number as first item is ended by what follows it: a comma or the bracket
      have hv := ih v List.mem_cons_self (level + 1) _ (inner v List.mem_cons_self)
        (endsNumber_writtenItems form level rest items)
      have hitems := tokens_writtenItems form level rest fun w hw level rest ends =>
        ih w (List.mem_cons_of_mem v hw) level rest (inner w (List.mem_cons_of_mem v hw)) ends
      rw [written, List.append_assoc, List.append_assoc, List.cons_append,
        tokens_mark rfl (fun _ => rfl), tokens_blanks (form.line_blank _), hv, hitems]
      simp [listed]
  | case6 members ih =>
    have inner : ∀ m ∈ members, Printable m.2 := by
      cases printable
      assumption
    rw [spelling_object]
    cases members with
    | nil =>
      refine (@tokens_mark '{' .beginObject rfl (fun _ => rfl) _).trans ?_
      exact congrArg _ (tokens_mark rfl (fun _ => rfl) rest)
    | cons m members =>
      have hv := ih m List.mem_cons_self (level + 1) _ (inner m List.mem_cons_self)
        (endsNumber_writtenMembers form level rest members)
      have hmembers := tokens_writtenMembers form level rest fun w hw level rest ends =>
        ih w (List.mem_cons_of_mem m hw) level rest (inner w (List.mem_cons_of_mem m hw)) ends
      -- name, colon and blank in front of the value of the first member
      have hmember := tokens_member form (level + 1) m.1 hv
      rw [hmembers] at hmember
      have htext : written form level (.object (m :: members)) ++ rest =
          '{' :: (form.line (level + 1) ++ (stringText m.1 ++ ':' :: (form.gap ++
            (written form (level + 1) m.2 ++ (writtenMembers form level members ++ rest))))) := by
        simp [written]
      rw [htext, tokens_mark rfl (fun _ => rfl), tokens_blanks (form.line_blank _), hmember]
      simp [listed]

end

theorem tokens_compact {v : Json} (printable : Printable v) : tokens v.compact = spelling v := by
  have h := tokens_written .tight 0 [] printable endsNumber_nil
  rwa [List.append_nil, written_tight, tokens_nil, List.append_nil] at h

theorem tokens_indented {v : Json} (printable : Printable v) (level : Nat) :
    tokens (v.indented level) = spelling v := by
  have h := tokens_written .lined level [] printable endsNumber_nil
  rwa [List.append_nil, written_lined, tokens_nil, List.append_nil] at h

end Json

end Slowdown
