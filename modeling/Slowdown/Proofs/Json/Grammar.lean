/-
The reader against the grammar of JSON. Whatever is read or skipped as a value is one by the
grammar: a reader in any state needs tokens that complete the arrays and objects around it.
-/
import Slowdown.Proofs.Json.Lexical
import Slowdown.Proofs.Json.Spelling

namespace Slowdown

namespace Json

/-! ## Grammar -/

/-- A member of an object, given the name and the tokens of the value. -/
def memberTokens (m : Option String × List Token) : List Token := .string m.1 :: .colon :: m.2

/-- The tokens of a JSON value. -/
inductive Spells : List Token → Prop
  | null : Spells [.null]
  | bool {b : Bool} : Spells [.bool b]
  | number {n : Numeral} : Spells [.number n]
  | string {s : Option String} : Spells [.string s]
  | array {items : List (List Token)} (inner : ∀ ts ∈ items, Spells ts) :
    Spells (.beginArray :: (listed items ++ [.endArray]))
  | object {members : List (Option String × List Token)} (inner : ∀ m ∈ members, Spells m.2) :
    Spells (.beginObject :: (listed (members.map memberTokens) ++ [.endObject]))

/-- The texts of JSON. -/
def IsText (cs : List Char) : Prop := ∃ ts, Lexed cs ts ∧ Spells ts

theorem mem_listed {pieces : List (List Token)} {t : Token} (h : t ∈ listed pieces) :
    t = .comma ∨ ∃ piece ∈ pieces, t ∈ piece := by
  cases pieces with
  | nil => cases h
  | cons first rest =>
    simp only [listed, List.mem_append, List.mem_flatMap, List.mem_cons] at h
    rcases h with h | ⟨piece, hpiece, rfl | h⟩
    · exact .inr ⟨first, List.mem_cons_self, h⟩
    · exact .inl rfl
    · exact .inr ⟨piece, List.mem_cons_of_mem _ hpiece, h⟩

/-- No lexeme of a value is broken. -/
theorem Spells.isBroken {ts : List Token} (h : Spells ts) : ∀ t ∈ ts, t.isBroken = false := by
  induction h with
  | null | bool | number | string =>
    intro t ht
    rw [List.mem_singleton.1 ht]
    rfl
  | array _ ih =>
    intro t ht
    rcases List.mem_cons.1 ht with rfl | ht
    · rfl
    -- the mark in front, then items and commas, then the mark at the end
    rcases List.mem_append.1 ht with ht | ht
    · rcases mem_listed ht with rfl | ⟨ts, hts, ht⟩
      · rfl
      · exact ih ts hts t ht
    · rw [List.mem_singleton.1 ht]
      rfl
  | object _ ih =>
    intro t ht
    rcases List.mem_cons.1 ht with rfl | ht
    · rfl
    rcases List.mem_append.1 ht with ht | ht
    · rcases mem_listed ht with rfl | ⟨_, hm, ht⟩
      · rfl
      · obtain ⟨m, hmember, rfl⟩ := List.mem_map.1 hm
        rcases List.mem_cons.1 ht with rfl | ht
        · rfl
        rcases List.mem_cons.1 ht with rfl | ht
        · rfl
        · exact ih m hmember t ht
    · rw [List.mem_singleton.1 ht]
      rfl

theorem spells_spelling (v : Json) : Spells (spelling v) := by
  induction v using spelling.induct with
  | case1 => rw [spelling]; exact .null
  | case2 => rw [spelling]; exact .bool
  | case3 => rw [spelling]; exact .number
  | case4 => rw [spelling]; exact .string
  | case5 items ih =>
    rw [spelling_array]
    exact .array (List.forall_mem_map.2 ih)
  | case6 members ih =>
    have hmembers : members.map memberSpelling =
        (members.map fun m => (some m.1, spelling m.2)).map memberTokens := by
      rw [List.map_map]
      rfl
    rw [spelling_object, hmembers]
    exact .object (List.forall_mem_map.2 ih)

/-! ## What a reader needs -/

/-- Tokens that complete the arrays and objects around a value. -/
def Closes : List Frame → List Token → Prop
  | [], ts => ts = []
  | .array _ :: outer, ts => ∃ (items : List (List Token)) (after : List Token),
    ts = items.flatMap (.comma :: ·) ++ .endArray :: after ∧
      (∀ item ∈ items, Spells item) ∧ Closes outer after
  | .object _ _ :: outer, ts => ∃ (members : List (Option String × List Token))
      (after : List Token),
    ts = (members.map memberTokens).flatMap (.comma :: ·) ++ .endObject :: after ∧
      (∀ m ∈ members, Spells m.2) ∧ Closes outer after

/-- Tokens that complete what a reader is in. -/
def State.Needs : State → List Token → Prop
  | .value outer, ts => ∃ inner after, ts = inner ++ after ∧ Spells inner ∧ Closes outer after
  | .firstItem outer, ts => ∃ (items : List (List Token)) (after : List Token),
    ts = listed items ++ .endArray :: after ∧ (∀ item ∈ items, Spells item) ∧ Closes outer after
  | .firstMember outer, ts => ∃ (members : List (Option String × List Token))
      (after : List Token),
    ts = listed (members.map memberTokens) ++ .endObject :: after ∧
      (∀ m ∈ members, Spells m.2) ∧ Closes outer after
  | .name members outer, ts => ∃ s inner after, ts = .string s :: .colon :: (inner ++ after) ∧
    Spells inner ∧ Closes (.object members "" :: outer) after
  | .colon members last outer, ts => ∃ inner after, ts = .colon :: (inner ++ after) ∧
    Spells inner ∧ Closes (.object members last :: outer) after
  | .afterItem items outer, ts => Closes (.array items :: outer) ts
  | .afterMember members outer, ts => Closes (.object members "" :: outer) ts

/-- After a complete value nothing more is needed. -/
def Remains : State ⊕ Json → List Token → Prop
  | .inl next, ts => next.Needs ts
  | .inr _, ts => ts = []

section

variable {mode : Mode} {state : State} {next : State ⊕ Json} {token : Token}
  {outer : List Frame} {ts : List Token}

theorem closes_of_completed {v : Json} (h : Remains (completed v outer) ts) : Closes outer ts := by
  match outer with
  | [] => exact h
  | .array _ :: _ => exact h
  | .object _ _ :: _ => exact h

/-- A value of one token. -/
theorem needs_single {v : Json} (single : Spells [token])
    (h : Remains (completed v outer) ts) : (State.value outer).Needs (token :: ts) :=
  ⟨[token], ts, rfl, single, closes_of_completed h⟩

theorem needs_valueStep (h : valueStep mode outer token = .ok next) (remains : Remains next ts) :
    (State.value outer).Needs (token :: ts) := by
  unfold valueStep at h
  split at h
  · -- an opening mark: the rest of the tokens spells what is inside
    split at h
    · cases h
      obtain ⟨items, after, rfl, inner, closes⟩ := remains
      exact ⟨_, after, by simp, .array inner, closes⟩
    · cases h
  · split at h
    · cases h
      obtain ⟨members, after, rfl, inner, closes⟩ := remains
      exact ⟨_, after, by simp, .object inner, closes⟩
    · cases h
  · cases h
    exact needs_single .null remains
  · cases h
    exact needs_single .bool remains
  · split at h
    · cases h
      exact needs_single .number remains
    · cases h
  · cases h
    exact needs_single .string remains
  · split at h
    · cases h
      exact needs_single .string remains
    · cases h
  all_goals cases h

theorem needs_nameStep {members : List (String × Json)}
    (h : nameStep mode members outer token = .ok next) (remains : Remains next ts) :
    (State.name members outer).Needs (token :: ts) := by
  unfold nameStep at h
  split at h
  · cases h
    obtain ⟨inner, after, rfl, hinner, closes⟩ := remains
    exact ⟨_, inner, after, rfl, hinner, closes⟩
  · split at h
    · cases h
      obtain ⟨inner, after, rfl, hinner, closes⟩ := remains
      exact ⟨_, inner, after, rfl, hinner, closes⟩
    · cases h
  all_goals cases h

/-- What is needed before a step is the token of the step and what is needed after it. -/
theorem needs_step (h : step mode state token = .ok next) (remains : Remains next ts) :
    state.Needs (token :: ts) := by
  cases state with
  | value outer => exact needs_valueStep h remains
  -- a first item may also be the end of an empty array
  | firstItem outer =>
    simp only [step] at h
    split at h
    · rename_i hend
      cases h
      exact ⟨[], ts, by rw [hend]; rfl, List.forall_mem_nil _, closes_of_completed remains⟩
    · obtain ⟨first, _, htokens, hfirst, items, after, rfl, hitems, closes⟩ :=
        needs_valueStep h remains
      exact ⟨first :: items, after, by rw [htokens, listed, List.append_assoc],
        List.forall_mem_cons.2 ⟨hfirst, hitems⟩, closes⟩
  | firstMember outer =>
    simp only [step] at h
    split at h
    · rename_i hend
      cases h
      exact ⟨[], ts, by rw [hend]; rfl, List.forall_mem_nil _, closes_of_completed remains⟩
    · obtain ⟨s, first, _, htokens, hfirst, members, after, rfl, hmembers, closes⟩ :=
        needs_nameStep h remains
      exact ⟨(s, first) :: members, after, by simp [htokens, listed, memberTokens],
        List.forall_mem_cons.2 ⟨hfirst, hmembers⟩, closes⟩
  | name members outer => exact needs_nameStep h remains
  | colon members name outer =>
    simp only [step] at h
    split at h
    · rename_i hcolon
      cases h
      obtain ⟨inner, after, rfl, hinner, closes⟩ := remains
      exact ⟨inner, after, by rw [hcolon], hinner, closes⟩
    · cases h
  -- after an item the array goes on or ends
  | afterItem items outer =>
    simp only [step] at h
    split at h
    · rename_i hcomma
      cases h
      obtain ⟨first, _, rfl, hfirst, items, after, rfl, hitems, closes⟩ := remains
      exact ⟨first :: items, after, by simp [hcomma], List.forall_mem_cons.2 ⟨hfirst, hitems⟩,
        closes⟩
    · split at h
      · rename_i hend
        cases h
        exact ⟨[], ts, by rw [hend]; rfl, List.forall_mem_nil _, closes_of_completed remains⟩
      · cases h
  | afterMember members outer =>
    simp only [step] at h
    split at h
    · rename_i hcomma
      cases h
      obtain ⟨s, first, _, rfl, hfirst, members, after, rfl, hmembers, closes⟩ := remains
      exact ⟨(s, first) :: members, after, by simp [hcomma, memberTokens],
        List.forall_mem_cons.2 ⟨hfirst, hmembers⟩, closes⟩
    · split at h
      · rename_i hend
        cases h
        exact ⟨[], ts, by rw [hend]; rfl, List.forall_mem_nil _, closes_of_completed remains⟩
      · cases h

theorem needs_run {v : Json} {rest : List Token} (h : run mode state ts = .ok (v, rest)) :
    ∃ taken, ts = taken ++ rest ∧ state.Needs taken := by
  induction ts generalizing state with
  | nil => cases h
  | cons token ts ih =>
    unfold run at h
    split at h
    · cases h
    · rename_i next hstep
      obtain ⟨taken, rfl, needs⟩ := ih h
      exact ⟨token :: taken, rfl, needs_step hstep needs⟩
    · rename_i w hstep
      cases h
      exact ⟨[token], rfl, needs_step hstep rfl⟩

end

/-- What is taken as a value, however closely it is looked at, is one by the grammar. -/
theorem spells_of_value {mode : Mode} {ts rest : List Token} {v : Json}
    (h : value mode ts = .ok (v, rest)) : ∃ taken, ts = taken ++ rest ∧ Spells taken := by
  obtain ⟨_, rfl, taken, after, rfl, hspells, closes⟩ := needs_run h
  have hafter : after = [] := closes
  exact ⟨taken, by rw [hafter, List.append_nil], hspells⟩

end Json

end Slowdown
