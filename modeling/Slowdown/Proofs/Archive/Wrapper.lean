/-
The wrapper around a history file: an assignment in front, blanks, and a semicolon. It is taken
off and nothing else, so a text is read as what stands in the wrapper is; and what is read is a
JSON text in a wrapper.
-/
import Slowdown.Proofs.Archive.Document

namespace Slowdown

/-! ## Trimmed texts -/

namespace Text

/-- Blanks on either side of a text that neither begins nor ends with one. -/
theorem trim_around {before cs after : List Char} (hbefore : before.all isBlank = true)
    (hafter : after.all isBlank = true) (hfirst : ∀ c ∈ cs.head?, isBlank c = false)
    (hlast : ∀ c ∈ cs.getLast?, isBlank c = false) (hne : cs ≠ []) :
    trim (before ++ (cs ++ after)) = cs := by
  have hdrop : (before ++ (cs ++ after)).dropWhile isBlank = cs ++ after := by
    obtain ⟨c, more, rfl⟩ := List.exists_cons_of_ne_nil hne
    rw [List.dropWhile_append_of_pos (List.all_eq_true.1 hbefore), List.cons_append,
      List.dropWhile_cons_of_neg (by simp [hfirst c rfl])]
  have hrest : (cs ++ after).reverse.dropWhile isBlank = cs.reverse := by
    obtain ⟨init, c, rfl⟩ := (List.eq_nil_or_concat cs).resolve_left hne
    have hblank : isBlank c = false := hlast c (by simp)
    rw [List.reverse_append, List.dropWhile_append_of_pos (by simpa using hafter)]
    simp [hblank]
  rw [trim, hdrop, hrest, List.reverse_reverse]

/-- A text is its trimmed form between blanks. -/
theorem exists_trim (cs : List Char) :
    ∃ before after, cs = before ++ (trim cs ++ after) ∧ before.all isBlank = true ∧
      after.all isBlank = true ∧ ∀ c ∈ (trim cs).head?, isBlank c = false := by
  have hfront : cs.takeWhile isBlank ++ cs.dropWhile isBlank = cs :=
    List.takeWhile_append_dropWhile
  have hback : (cs.dropWhile isBlank) =
      trim cs ++ ((cs.dropWhile isBlank).reverse.takeWhile isBlank).reverse := by
    rw [trim, ← List.reverse_append, List.takeWhile_append_dropWhile, List.reverse_reverse]
  refine ⟨cs.takeWhile isBlank, ((cs.dropWhile isBlank).reverse.takeWhile isBlank).reverse,
    ?_, List.all_takeWhile, ?_, fun c hc => ?_⟩
  · rw [← hback, hfront]
  · rw [List.all_reverse]
    exact List.all_takeWhile
  · obtain ⟨more, hmore⟩ := List.head?_eq_some_iff.1 hc
    have hhead := List.head?_dropWhile_not isBlank cs
    rw [hback, hmore] at hhead
    exact hhead

end Text

namespace Archive

open Json (Token Spells Lexed IsText)

/-! ## Wrappers -/

/-- What can stand around the text of a document. -/
structure Wrapper where
  assigned : Bool
  before : List Char
  between : List Char
  closed : Bool
  after : List Char
  before_blank : before.all Text.isBlank = true
  between_blank : between.all Json.isBlank = true
  after_blank : after.all Text.isBlank = true

namespace Wrapper

/-- The part of a wrapper in front of any blanks. -/
def front (w : Wrapper) : List Char := if w.assigned then assignment else []

/-- The part of a wrapper after the value. -/
def tail (w : Wrapper) : List Char := w.between ++ ((if w.closed then [';'] else []) ++ w.after)

/-- A value in its wrapper. -/
def around (w : Wrapper) (cs : List Char) : List Char :=
  w.front ++ (w.before ++ (cs ++ w.tail))

end Wrapper

/-- A text that no part of a wrapper can belong to. -/
structure IsCore (cs : List Char) : Prop where
  nonempty : cs ≠ []
  first : ∀ c ∈ cs.head?, Text.isBlank c = false
  last : ∀ c ∈ cs.getLast?, Text.isBlank c = false ∧ c ≠ ';'
  unassigned : ¬assignment <+: cs

theorem isBlank_of_json {c : Char} (h : Json.isBlank c = true) : Text.isBlank c = true := by
  rcases Json.isBlank_iff.1 h with rfl | rfl | rfl | rfl <;> rfl

theorem all_isBlank_of_json {cs : List Char} (h : cs.all Json.isBlank = true) :
    cs.all Text.isBlank = true :=
  List.all_eq_true.2 fun c hc => isBlank_of_json (List.all_eq_true.1 h c hc)

/-! ## Unwrapping -/

theorem withoutSemicolon_append (cs : List Char) : withoutSemicolon (cs ++ [';']) = cs := by
  rw [withoutSemicolon, List.getLast?_concat, if_pos rfl, List.dropLast_concat]

theorem withoutSemicolon_of_ne {cs : List Char} (h : ∀ c ∈ cs.getLast?, c ≠ ';') :
    withoutSemicolon cs = cs :=
  if_neg fun hlast => h ';' hlast rfl

theorem withoutFront_append (front cs : List Char) : withoutFront front (front ++ cs) = cs := by
  rw [withoutFront, if_pos (List.isPrefixOf_iff_prefix.2 (List.prefix_append front cs)),
    List.drop_left]

theorem withoutFront_of_not {front cs : List Char} (h : ¬front <+: cs) :
    withoutFront front cs = cs :=
  if_neg (mt List.isPrefixOf_iff_prefix.1 h)

/-- The wrapper is taken off, but for the blanks in front of a semicolon. -/
theorem unwrap_around (w : Wrapper) {cs : List Char} (core : IsCore cs)
    (h : w.assigned = false → ¬assignment <+: w.around cs) :
    unwrap (w.around cs) = cs ++ if w.closed then w.between else [] := by
  -- the assignment comes off first; what is left begins with the blanks before the value
  have hfront : withoutFront assignment (w.around cs) = w.before ++ (cs ++ w.tail) := by
    cases hassigned : w.assigned with
    | true =>
      rw [Wrapper.around, Wrapper.front, if_pos hassigned]
      exact withoutFront_append _ _
    | false =>
      rw [withoutFront_of_not (h hassigned), Wrapper.around, Wrapper.front,
        if_neg (by rw [hassigned]; exact Bool.false_ne_true)]
      rfl
  rw [unwrap, hfront, Wrapper.tail]
  cases w.closed with
  | true =>
    -- the semicolon ends the trimmed text, so the blanks before it are kept
    have hfirst : ∀ c ∈ (cs ++ (w.between ++ [';'])).head?, Text.isBlank c = false := by
      rw [List.head?_append_of_ne_nil _ core.nonempty]
      exact core.first
    have hlast : ∀ c ∈ (cs ++ (w.between ++ [';'])).getLast?, Text.isBlank c = false := by
      rw [← List.append_assoc, List.getLast?_concat]
      rintro _ ⟨⟩
      rfl
    have htrim := Text.trim_around w.before_blank w.after_blank hfirst hlast (by simp)
    rw [List.append_assoc, List.append_assoc] at htrim
    rw [if_pos rfl, if_pos rfl, htrim, ← List.append_assoc, withoutSemicolon_append]
  | false =>
    -- without a semicolon all blanks after the value are one run, and are trimmed
    have hafter : (w.between ++ w.after).all Text.isBlank = true := by
      rw [List.all_append, all_isBlank_of_json w.between_blank, w.after_blank]
      rfl
    rw [if_neg Bool.false_ne_true, if_neg Bool.false_ne_true, List.nil_append,
      Text.trim_around w.before_blank hafter core.first (fun c hc => (core.last c hc).1)
        core.nonempty, withoutSemicolon_of_ne fun c hc => (core.last c hc).2, List.append_nil]

/-! ## Documents -/

variable {cs : List Char} {suites : List (String × Json)}

/-- The lexemes of a document, none of which is broken. -/
theorem lexed_of_document (h : document (Json.tokens cs) = .ok (suites, [])) :
    ∃ ts, Lexed cs ts ∧ Spells ts ∧
      ((∃ inner, ts = .beginObject :: (inner ++ [.endObject])) ∨
        ∃ inner, ts = .beginArray :: (inner ++ [.endArray])) := by
  obtain ⟨ts, htokens, hspells, hends⟩ := spells_of_document h
  rw [List.append_nil] at htokens
  exact ⟨ts, Json.lexed_iff.2 ⟨htokens, hspells.isBroken⟩, hspells, hends⟩

/-- Blanks after a document change nothing. -/
theorem document_append_blanks {blanks : List Char} (hblanks : blanks.all Json.isBlank = true) :
    document (Json.tokens (cs ++ blanks)) = .ok (suites, []) ↔
      document (Json.tokens cs) = .ok (suites, []) := by
  constructor
  · intro h
    obtain ⟨ts, hlexed, -⟩ := lexed_of_document h
    have hshorter := (Json.lexed_append_blanks hblanks).1 hlexed
    rwa [hlexed.tokens_eq.1, ← hshorter.tokens_eq.1] at h
  · intro h
    obtain ⟨ts, hlexed, -⟩ := lexed_of_document h
    have hlonger := (Json.lexed_append_blanks hblanks).2 hlexed
    rwa [hlexed.tokens_eq.1, ← hlonger.tokens_eq.1] at h

/-- A text that begins and ends with brackets. -/
structure IsBracketed (cs : List Char) : Prop where
  first : ∃ c ∈ cs.head?, c = '{' ∨ c = '['
  last : ∃ c ∈ cs.getLast?, c = '}' ∨ c = ']'

theorem isBracketed_of_ends {first last : Char} {init rest : List Char}
    (hfirst : first = '{' ∨ first = '[') (hlast : last = '}' ∨ last = ']')
    (h : init ++ [last] = first :: rest) : IsBracketed (init ++ [last]) where
  first := ⟨first, by rw [h]; rfl, hfirst⟩
  last := ⟨last, List.getLast?_concat, hlast⟩

theorem IsBracketed.isCore (h : IsBracketed cs) : IsCore cs where
  nonempty := by
    rintro rfl
    obtain ⟨c, hc, -⟩ := h.first
    cases hc
  first c hc := by
    obtain ⟨c', hc', hbracket⟩ := h.first
    obtain rfl := Option.some.inj (hc'.symm.trans hc)
    rcases hbracket with rfl | rfl <;> rfl
  last c hc := by
    obtain ⟨c', hc', hbracket⟩ := h.last
    obtain rfl := Option.some.inj (hc'.symm.trans hc)
    rcases hbracket with rfl | rfl <;> exact ⟨rfl, by decide⟩
  unassigned := by
    rintro ⟨rest, rfl⟩
    obtain ⟨c, hc, hbracket⟩ := h.first
    obtain rfl : 'w' = c := Option.some.inj hc
    revert hbracket
    decide

/-- The first and the last lexeme of a text, if no blank stands in front, and the blanks after. -/
theorem exists_ends {first last : Token} {inner : List Token}
    (h : Lexed cs (first :: inner ++ [last])) (hfirst : ∀ c ∈ cs.head?, Text.isBlank c = false) :
    ∃ opening rest init closing blanks, cs = init ++ closing ++ blanks ∧
      init ++ closing = opening ++ rest ∧ blanks.all Json.isBlank = true ∧
      Json.Writes opening first ∧ Json.Writes closing last ∧
      Lexed (init ++ closing) (first :: inner ++ [last]) := by
  obtain ⟨init, closing, blanks, rfl, hclosing, hblanks⟩ := h.exists_last
  rw [← List.append_assoc] at h hfirst
  have hlexed := (Json.lexed_append_blanks hblanks).1 h
  generalize hcore : init ++ closing = core at *
  cases hlexed with
  | @cons before opening rest _ _ hbefore hopening hends more =>
    cases before with
    | nil =>
      exact ⟨opening, rest, init, closing, blanks, by rw [← List.append_assoc, hcore], hcore,
        hblanks, hopening, hclosing, by rw [hcore]; exact .cons rfl hopening hends more⟩
    -- the text begins with no blank, so nothing stands before the first lexeme
    | cons b before =>
      rw [List.all_cons, Bool.and_eq_true] at hbefore
      have hblank := isBlank_of_json hbefore.1
      rw [hfirst b rfl] at hblank
      cases hblank

/-- A document is a JSON text in brackets, perhaps with blanks after it. -/
theorem exists_bracketed (h : document (Json.tokens cs) = .ok (suites, []))
    (hfirst : ∀ c ∈ cs.head?, Text.isBlank c = false) :
    ∃ inner blanks, cs = inner ++ blanks ∧ blanks.all Json.isBlank = true ∧
      IsBracketed inner ∧ IsText inner := by
  obtain ⟨ts, hlexed, hspells, ⟨inner, rfl⟩ | ⟨inner, rfl⟩⟩ := lexed_of_document h
  · obtain ⟨_, rest, init, _, blanks, rfl, hinit, hblanks, ⟨⟩, ⟨⟩, hshort⟩ :=
      exists_ends hlexed hfirst
    have bracketed := isBracketed_of_ends (.inl rfl) (.inl rfl) hinit
    exact ⟨_, blanks, rfl, hblanks, bracketed, _, hshort, hspells⟩
  · obtain ⟨_, rest, init, _, blanks, rfl, hinit, hblanks, ⟨⟩, ⟨⟩, hshort⟩ :=
      exists_ends hlexed hfirst
    have bracketed := isBracketed_of_ends (.inr rfl) (.inr rfl) hinit
    exact ⟨_, blanks, rfl, hblanks, bracketed, _, hshort, hspells⟩

theorem exists_withoutFront (cs : List Char) :
    ∃ assigned : Bool,
      cs = (if assigned then assignment else []) ++ withoutFront assignment cs := by
  by_cases h : assignment <+: cs
  · obtain ⟨rest, rfl⟩ := h
    exact ⟨true, by rw [withoutFront_append]; rfl⟩
  · exact ⟨false, by rw [withoutFront_of_not h]; rfl⟩

theorem exists_withoutSemicolon (cs : List Char) :
    ∃ closed : Bool, cs = withoutSemicolon cs ++ if closed then [';'] else [] := by
  unfold withoutSemicolon
  split_ifs with h
  · exact ⟨true, (List.dropLast_append_getLast? _ h).symm⟩
  · exact ⟨false, (List.append_nil cs).symm⟩

/-- What is read is a JSON text in a wrapper. -/
theorem exists_wrapper {text : String} {a : Archive} (h : parse text = .ok a) :
    ∃ (w : Wrapper) (cs : List Char), text.toList = w.around cs ∧ IsBracketed cs ∧ IsText cs := by
  obtain ⟨suites, hdocument, -⟩ := parse_eq_ok_iff.1 h
  -- the three steps of unwrapping, each undone
  obtain ⟨assigned, hassigned⟩ := exists_withoutFront text.toList
  obtain ⟨before, after, hbody, hbefore, hafter, hfirst⟩ :=
    Text.exists_trim (withoutFront assignment text.toList)
  obtain ⟨closed, hclosed⟩ :=
    exists_withoutSemicolon (Text.trim (withoutFront assignment text.toList))
  have hopen : ∀ c ∈ (unwrap text.toList).head?, Text.isBlank c = false := by
    intro c hc
    refine hfirst c ?_
    obtain ⟨more, hmore⟩ := List.head?_eq_some_iff.1 hc
    rw [hclosed, ← unwrap, hmore]
    rfl
  obtain ⟨cs, between, hunwrap, hbetween, bracketed, hjson⟩ := exists_bracketed hdocument hopen
  refine ⟨⟨assigned, before, between, closed, after, hbefore, hbetween, hafter⟩, cs, ?_,
    bracketed, hjson⟩
  rw [hassigned, hbody, hclosed, ← unwrap, hunwrap]
  simp only [Wrapper.around, Wrapper.front, Wrapper.tail, List.append_assoc]

/-! ## Any text in a wrapper -/

theorem unwrap_core (core : IsCore cs) : unwrap cs = cs := by
  have hfront : withoutFront assignment cs = cs := withoutFront_of_not core.unassigned
  have htrim := @Text.trim_around [] cs [] rfl rfl core.first (fun c hc => (core.last c hc).1)
    core.nonempty
  rw [List.nil_append, List.append_nil] at htrim
  rw [unwrap, hfront, htrim, withoutSemicolon_of_ne fun c hc => (core.last c hc).2]

theorem mem_around {w : Wrapper} {c : Char} (hc : c ∈ cs) : c ∈ w.around cs :=
  List.mem_append_right _ (List.mem_append_right _ (List.mem_append_left _ hc))

theorem exists_bracket {text : String} {a : Archive} (h : parse text = .ok a) :
    ∃ c ∈ text.toList, c = '{' ∨ c = '[' := by
  obtain ⟨w, cs, htext, bracketed, -⟩ := exists_wrapper h
  obtain ⟨c, hc, hbracket⟩ := bracketed.first
  exact ⟨c, htext ▸ mem_around (List.mem_of_mem_head? hc), hbracket⟩

theorem blank_or_semicolon {w : Wrapper} {c : Char} (hc : c ∈ w.tail) :
    Text.isBlank c = true ∨ c = ';' := by
  rw [Wrapper.tail, List.mem_append, List.mem_append] at hc
  rcases hc with hc | hc | hc
  · exact .inl (isBlank_of_json (List.all_eq_true.1 w.between_blank c hc))
  · split_ifs at hc
    · exact .inr (List.mem_singleton.1 hc)
    · cases hc
  · exact .inl (List.all_eq_true.1 w.after_blank c hc)

/-- An assignment that only the text and its wrapper together make is followed by no bracket. -/
theorem no_bracket_of_split {w : Wrapper} (core : IsCore cs) (hassigned : w.assigned = false)
    (hfront : assignment <+: w.around cs) : ∀ c ∈ w.around cs, ¬(c = '{' ∨ c = '[') := by
  obtain ⟨rest, hrest⟩ := hfront
  have hbrace : '{' ∉ assignment := by decide
  have hbracket : '[' ∉ assignment := by decide
  have hbefore : w.around cs = w.before ++ (cs ++ w.tail) := by
    rw [Wrapper.around, Wrapper.front, hassigned]
    rfl
  cases hblanks : w.before with
  | cons b before =>
    -- the assignment does not begin with a blank
    have hb := w.before_blank
    rw [hblanks, List.all_cons, Bool.and_eq_true] at hb
    rw [hbefore, hblanks] at hrest
    obtain rfl : 'w' = b := (List.cons.inj hrest).1
    cases hb.1
  | nil =>
    have hsplit := hrest
    rw [hbefore, hblanks, List.nil_append, List.append_eq_append_iff] at hsplit
    rcases hsplit with ⟨more, hcs, -⟩ | ⟨more, -, htail⟩
    · exact absurd ⟨more, hcs.symm⟩ core.unassigned
    · intro c hc hopen
      rw [← hrest, List.mem_append] at hc
      rcases hc with hc | hc
      · rcases hopen with rfl | rfl
        · exact hbrace hc
        · exact hbracket hc
      · have hmem : c ∈ w.tail := htail ▸ List.mem_append_right more hc
        rcases hopen with rfl | rfl <;> rcases blank_or_semicolon hmem with h | h <;> cases h

theorem parse_around (w : Wrapper) (core : IsCore cs) (a : Archive) :
    parse (.ofList (w.around cs)) = .ok a ↔ parse (.ofList cs) = .ok a := by
  by_cases hsplit : w.assigned = false → ¬assignment <+: w.around cs
  · rw [parse_eq_ok_iff, parse_eq_ok_iff, String.toList_ofList, String.toList_ofList,
      unwrap_around w core hsplit, unwrap_core core]
    split_ifs
    · simp only [document_append_blanks w.between_blank]
    · rw [List.append_nil]
  · push Not at hsplit
    have hnone := no_bracket_of_split core hsplit.1 hsplit.2
    refine iff_of_false (fun h => ?_) fun h => ?_
    · obtain ⟨c, hc, hbracket⟩ := exists_bracket h
      rw [String.toList_ofList] at hc
      exact hnone c hc hbracket
    · obtain ⟨c, hc, hbracket⟩ := exists_bracket h
      rw [String.toList_ofList] at hc
      exact hnone c (mem_around hc) hbracket

/-! ## What is no wrapper -/

/-- A text that no archive is read from. -/
def IsRefused (cs : List Char) : Prop := ∃ fault, parse (.ofList cs) = .error fault

theorem isRefused_of_not
    (h : ∀ (w : Wrapper) (inner : List Char), IsBracketed inner → cs ≠ w.around inner) :
    IsRefused cs := by
  cases hparse : parse (.ofList cs) with
  | error fault => exact ⟨fault, hparse⟩
  | ok a =>
    obtain ⟨w, inner, htext, bracketed, -⟩ := exists_wrapper hparse
    rw [String.toList_ofList] at htext
    exact absurd htext (h w inner bracketed)

/-- No text of a document begins like an assignment, blanks or not. -/
theorem assignment_ne {blanks rest inner more before : List Char}
    (hblanks : blanks.all Text.isBlank = true) (hbefore : before.all Text.isBlank = true)
    (bracketed : IsBracketed inner) :
    blanks ++ (assignment ++ rest) ≠ before ++ (inner ++ more) := by
  intro h
  obtain ⟨c, hc, hbracket⟩ := bracketed.first
  obtain ⟨inner, rfl⟩ := List.head?_eq_some_iff.1 hc
  have hdrop := congrArg (List.dropWhile Text.isBlank) h
  have hblank : Text.isBlank c = false := by rcases hbracket with rfl | rfl <;> rfl
  rw [List.dropWhile_append_of_pos (List.all_eq_true.1 hblanks),
    List.dropWhile_append_of_pos (List.all_eq_true.1 hbefore), List.cons_append,
    List.dropWhile_cons_of_neg (by simp [hblank])] at hdrop
  obtain rfl : 'w' = c := (List.cons.inj hdrop).1
  revert hbracket
  decide

theorem isRefused_of_blank_assignment {blanks : List Char} (hne : blanks ≠ [])
    (hblanks : blanks.all Text.isBlank = true) (rest : List Char) :
    IsRefused (blanks ++ (assignment ++ rest)) := by
  refine isRefused_of_not fun w inner bracketed h => ?_
  cases hassigned : w.assigned with
  | true =>
    obtain ⟨b, blanks, rfl⟩ := List.exists_cons_of_ne_nil hne
    rw [List.all_cons, Bool.and_eq_true] at hblanks
    rw [Wrapper.around, Wrapper.front, hassigned] at h
    obtain rfl : b = 'w' := (List.cons.inj h).1
    cases hblanks.1
  | false =>
    rw [Wrapper.around, Wrapper.front, hassigned] at h
    exact assignment_ne hblanks w.before_blank bracketed h

theorem isRefused_of_two_assignments {blanks : List Char}
    (hblanks : blanks.all Text.isBlank = true) (rest : List Char) :
    IsRefused (assignment ++ (blanks ++ (assignment ++ rest))) := by
  refine isRefused_of_not fun w inner bracketed h => ?_
  rw [Wrapper.around, Wrapper.front] at h
  cases hassigned : w.assigned with
  | true =>
    rw [hassigned, if_pos rfl] at h
    exact assignment_ne hblanks w.before_blank bracketed (List.append_cancel_left h)
  | false =>
    rw [hassigned] at h
    exact @assignment_ne [] _ _ _ _ rfl w.before_blank bracketed h

/-- The characters that can follow a document. -/
def isFiller (c : Char) : Bool := Text.isBlank c || c = ';'

/-- How many semicolons stand among the blanks at the end of a text. -/
def lastSemicolons (cs : List Char) : Nat := (cs.reverse.takeWhile isFiller).count ';'

theorem lastSemicolons_append (front : List Char) {filler : List Char}
    (h : filler.all isFiller = true) :
    lastSemicolons (front ++ filler) = filler.count ';' + lastSemicolons front := by
  have hreverse : ∀ c ∈ filler.reverse, isFiller c = true := by
    rwa [← List.all_eq_true, List.all_reverse]
  rw [lastSemicolons, List.reverse_append, List.takeWhile_append_of_pos hreverse,
    List.count_append, List.count_reverse]
  rfl

theorem lastSemicolons_bracketed (front : List Char) (bracketed : IsBracketed cs) :
    lastSemicolons (front ++ cs) = 0 := by
  obtain ⟨c, hc, hbracket⟩ := bracketed.last
  obtain ⟨init, rfl⟩ := List.getLast?_eq_some_iff.1 hc
  have hfiller : isFiller c = false := by rcases hbracket with rfl | rfl <;> rfl
  rw [lastSemicolons, ← List.append_assoc, List.reverse_concat,
    List.takeWhile_cons_of_neg (by simp [hfiller]), List.count_nil]

theorem all_isFiller_of_blank {blanks : List Char} (h : blanks.all Text.isBlank = true) :
    blanks.all isFiller = true :=
  List.all_eq_true.2 fun c hc => by rw [isFiller, List.all_eq_true.1 h c hc, Bool.true_or]

theorem count_blanks {blanks : List Char} (h : blanks.all Text.isBlank = true) :
    blanks.count ';' = 0 :=
  List.count_eq_zero.2 fun hmem => Bool.noConfusion (List.all_eq_true.1 h _ hmem)

theorem lastSemicolons_around (w : Wrapper) (bracketed : IsBracketed cs) :
    lastSemicolons (w.around cs) ≤ 1 := by
  have hbetween := all_isBlank_of_json w.between_blank
  have hfiller : w.tail.all isFiller = true := by
    rw [Wrapper.tail, List.all_append, List.all_append, all_isFiller_of_blank hbetween,
      all_isFiller_of_blank w.after_blank]
    cases w.closed <;> rfl
  have hcount : w.tail.count ';' ≤ 1 := by
    rw [Wrapper.tail, List.count_append, List.count_append, count_blanks hbetween,
      count_blanks w.after_blank]
    cases w.closed <;> decide
  rw [Wrapper.around, ← List.append_assoc, ← List.append_assoc, lastSemicolons_append _ hfiller,
    lastSemicolons_bracketed _ bracketed]
  exact hcount

theorem isRefused_of_two_semicolons (front : List Char) {blanks blanks' : List Char}
    (hblanks : blanks.all Text.isBlank = true) (hblanks' : blanks'.all Text.isBlank = true) :
    IsRefused (front ++ ';' :: (blanks ++ ';' :: blanks')) := by
  refine isRefused_of_not fun w inner bracketed h => ?_
  have hfiller : (';' :: (blanks ++ ';' :: blanks')).all isFiller = true := by
    rw [List.all_cons, List.all_append, List.all_cons, all_isFiller_of_blank hblanks,
      all_isFiller_of_blank hblanks']
    rfl
  have hcount : (';' :: (blanks ++ ';' :: blanks')).count ';' = 2 := by
    rw [List.count_cons_self, List.count_append, List.count_cons_self, count_blanks hblanks,
      count_blanks hblanks']
  have hmany := lastSemicolons_append front hfiller
  have hfew := lastSemicolons_around w bracketed
  rw [← h] at hfew
  omega

/-- In any wrapper a text is read as it is without, and what is read is a JSON text in a wrapper.
So no text is read with blanks and then an assignment at its beginning, with two assignments
there, or with two semicolons at its end. -/
theorem wrapper_transparent :
    (∀ (w : Wrapper) (cs : List Char), IsCore cs →
      ∀ a, parse (.ofList (w.around cs)) = .ok a ↔ parse (.ofList cs) = .ok a) ∧
    (∀ (text : String) (a : Archive), parse text = .ok a →
      ∃ (w : Wrapper) (cs : List Char), text.toList = w.around cs ∧ IsCore cs ∧ IsText cs) ∧
    (∀ blanks rest : List Char, blanks ≠ [] → blanks.all Text.isBlank = true →
      IsRefused (blanks ++ (assignment ++ rest))) ∧
    (∀ blanks rest : List Char, blanks.all Text.isBlank = true →
      IsRefused (assignment ++ (blanks ++ (assignment ++ rest)))) ∧
    ∀ front blanks blanks' : List Char, blanks.all Text.isBlank = true →
      blanks'.all Text.isBlank = true → IsRefused (front ++ ';' :: (blanks ++ ';' :: blanks')) := by
  refine ⟨fun w cs core a => parse_around w core a, fun text a h => ?_, fun blanks rest hne h => ?_,
    fun blanks rest h => ?_, fun front blanks blanks' h h' => ?_⟩
  · obtain ⟨w, cs, htext, bracketed, hjson⟩ := exists_wrapper h
    exact ⟨w, cs, htext, bracketed.isCore, hjson⟩
  · exact isRefused_of_blank_assignment hne h rest
  · exact isRefused_of_two_assignments h rest
  · exact isRefused_of_two_semicolons front h h'

/-- A document without suites, with every part of a wrapper around it. -/
theorem wrapper_transparent_empty :
    IsCore ['{', '}'] ∧
    parse (.ofList (assignment ++ ['\n', '{', '}', ' ', ';', '\u00a0'])) = .ok ⟨.ofList []⟩ ∧
    IsRefused ['{', '}', ';', ' ', ';'] := by
  have core : IsCore ['{', '}'] := ⟨by simp, by simp; decide, by simp; decide, by decide⟩
  obtain ⟨haround, -, -, -, hsemicolons⟩ := wrapper_transparent
  have hplain : parse (.ofList ['{', '}']) = .ok ⟨.ofList []⟩ :=
    parse_eq_ok_iff.2 ⟨[], by cbv, rfl⟩
  have hwrapped :=
    (haround ⟨true, ['\n'], [' '], true, ['\u00a0'], rfl, rfl, rfl⟩ _ core _).2 hplain
  exact ⟨core, hwrapped, hsemicolons ['{', '}'] [' '] [] rfl rfl⟩

end Archive

end Slowdown
