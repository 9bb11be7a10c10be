/-
The suites of a document: in every document that is read they are within the limits of the
reader, and in one given as a tree they are the members of its one object of suites, whatever
stands beside it.
-/
import Slowdown.Archive.Reader
import Slowdown.Proofs.Json.Grammar
import Slowdown.Proofs.NameMap

namespace Slowdown

open Json (Token Readable Spells spelling memberSpelling memberTokens listed)

/-! ## Members by name -/

namespace Json

/-- Of the members with a name a look-up finds the last. -/
theorem member?_eq_getLast? (members : List (String × Json)) (name : String) :
    member? members name = ((members.filter fun m => m.1 == name).getLast?).map (·.2) := by
  rw [List.getLast?_filter]
  rfl

theorem mem_of_member? {members : List (String × Json)} {name : String} {v : Json}
    (h : member? members name = some v) : (name, v) ∈ members := by
  rw [member?_eq_getLast?, Option.map_eq_some_iff] at h
  obtain ⟨m, hm, rfl⟩ := h
  obtain ⟨hmem, hname⟩ := List.mem_filter.1 (List.mem_of_getLast? hm)
  rw [← beq_iff_eq.1 hname]
  exact hmem

theorem member?_eq_none_iff {members : List (String × Json)} {name : String} :
    member? members name = none ↔ name ∉ members.map (·.1) := by
  rw [member?, Option.map_eq_none_iff, List.find?_eq_none, List.mem_map]
  simp only [List.mem_reverse, beq_iff_eq, not_exists, not_and]

end Json

/-- A map made of members holds under each name what a look-up among the members finds. -/
theorem NameMap.find?_ofMembers (members : List (String × Json)) (name : String) :
    (NameMap.ofList members).find? name = Json.member? members name := by
  rw [NameMap.find?_ofList, Json.member?_eq_getLast?]

namespace Archive

variable {found : Option (List (String × Json))} {ts rest : List Token}
  {suites : List (String × Json)}

/-! ## One member -/

/-- The suites are read one level inside the document. -/
theorem entries_eq_ok_iff :
    entries ts = .ok (suites, rest) ↔
      Readable (Json.maxDepth - 1) (.object suites) ∧ ts = spelling (.object suites) ++ rest := by
  rw [← Json.value_eq_ok_iff]
  cases ts with
  | nil => simp [entries, Json.value, Json.run]
  | cons token ts =>
    by_cases htoken : token = .beginObject
    · subst htoken
      rw [entries]
      split <;> simp_all
    · -- no other token begins an object
      have hentries : entries (token :: ts) = .error (wrongToken .entries token) := by
        unfold entries
        split <;> simp_all
      rw [hentries, Json.value_eq_ok_iff, Json.spelling_object]
      simp [htoken]

theorem moreMembers_comma : moreMembers found (.comma :: ts) = members found ts := by
  rw [moreMembers]

theorem moreMembers_end : moreMembers found (.endObject :: ts) = .ok (found.getD [], ts) := by
  rw [moreMembers]

/-- The member that holds the suites is read. -/
theorem members_entries (h : entries ts = .ok (suites, rest)) :
    members none (.string (some entriesName) :: .colon :: ts) = moreMembers (some suites) rest := by
  rw [members]
  simp only [Option.isSome_none, Bool.false_eq_true, and_false, ↓reduceIte]
  split <;> simp_all

/-- Every other member is skipped. -/
theorem members_skipped {name : String} {v : Json} (hname : name ≠ entriesName)
    (h : Json.value .skipped ts = .ok (v, rest)) :
    members found (.string (some name) :: .colon :: ts) = moreMembers found rest := by
  rw [members]
  simp only [hname, false_and, ↓reduceIte]
  split <;> simp_all

/-- After the first member, which is one by the grammar, come others or the end. The suites found
are either those found before or those of this member. -/
theorem moreMembers_of_members {r : List (String × Json) × List Token}
    (h : members found ts = .ok r) :
    ∃ found' name inner ts', ts = .string (some name) :: .colon :: (inner ++ ts') ∧
      Spells inner ∧ moreMembers found' ts' = .ok r ∧
      (found' = found ∨
        ∃ suites, found' = some suites ∧ Readable (Json.maxDepth - 1) (.object suites)) := by
  unfold members at h
  split at h
  · cases h
  · rename_i name rest
    -- only two of the branches go on: the suites, and any other member, which is skipped
    split at h
    · cases h
    · split at h
      · cases h
      · split at h
        · split at h
          · cases h
          · rename_i hentries
            obtain ⟨hread, rfl⟩ := entries_eq_ok_iff.1 hentries
            exact ⟨_, name, _, _, rfl, Json.spells_spelling _, h, .inr ⟨_, rfl, hread⟩⟩
        · split at h
          · cases h
          · rename_i hvalue
            obtain ⟨inner, rfl, hinner⟩ := Json.spells_of_value hvalue
            exact ⟨_, name, inner, _, rfl, hinner, h, .inl rfl⟩
      · cases h
  · cases h
  · cases h

/-! ## Every document -/

theorem readable_of_moreMembers
    (within : Readable (Json.maxDepth - 1) (.object (found.getD [])))
    (h : moreMembers found ts = .ok (suites, rest)) :
    Readable (Json.maxDepth - 1) (.object suites) := by
  induction hn : ts.length using Nat.strong_induction_on generalizing found ts with
  | _ n ih =>
    unfold moreMembers at h
    split at h
    · cases h
    · cases h
      exact within
    · obtain ⟨found', name, inner, ts', rfl, -, h', horigin⟩ := moreMembers_of_members h
      refine ih ts'.length (by simp at hn; omega) ?_ h' rfl
      rcases horigin with rfl | ⟨suites', rfl, hread⟩
      · exact within
      · exact hread
    · cases h

theorem readable_nil : Readable (Json.maxDepth - 1) (.object []) :=
  Json.readable_object.2 ⟨by decide, List.forall_mem_nil _⟩

/-- Whatever a document holds besides, its suites are within the limits of the reader. -/
theorem readable_of_document (h : document ts = .ok (suites, rest)) :
    Readable (Json.maxDepth - 1) (.object suites) := by
  unfold document at h
  split at h
  · cases h
  · -- an object without members
    cases h
    exact readable_nil
  · obtain ⟨found, name, inner, ts', -, -, h', horigin⟩ := moreMembers_of_members h
    refine readable_of_moreMembers ?_ h'
    rcases horigin with rfl | ⟨suites', rfl, hread⟩
    · exact readable_nil
    · exact hread
  · -- an array, empty or with the suites as its first item
    cases h
    exact readable_nil
  · split at h
    · cases h
    · cases h
    · rename_i hentries
      cases h
      exact (entries_eq_ok_iff.1 hentries).1
    · cases h
  · cases h

/-! ## The grammar of a document -/

theorem spells_of_moreMembers (h : moreMembers found ts = .ok (suites, rest)) :
    ∃ ms : List (Option String × List Token), (∀ m ∈ ms, Spells m.2) ∧
      ts = (ms.map memberTokens).flatMap (.comma :: ·) ++ .endObject :: rest := by
  induction hn : ts.length using Nat.strong_induction_on generalizing found ts with
  | _ n ih =>
    unfold moreMembers at h
    split at h
    · cases h
    · cases h
      exact ⟨[], List.forall_mem_nil _, rfl⟩
    · obtain ⟨found', name, inner, ts', rfl, hinner, h', -⟩ := moreMembers_of_members h
      obtain ⟨ms, hms, rfl⟩ := ih ts'.length (by simp at hn; omega) h' rfl
      exact ⟨(some name, inner) :: ms, List.forall_mem_cons.2 ⟨hinner, hms⟩,
        by simp [memberTokens]⟩
    · cases h

/-- A document is an object or an array by the grammar. -/
theorem spells_of_document (h : document ts = .ok (suites, rest)) :
    ∃ taken, ts = taken ++ rest ∧ Spells taken ∧
      ((∃ inner, taken = .beginObject :: (inner ++ [.endObject])) ∨
        ∃ inner, taken = .beginArray :: (inner ++ [.endArray])) := by
  unfold document at h
  split at h
  · cases h
  · cases h
    exact ⟨_, rfl, .object (List.forall_mem_nil _), .inl ⟨[], rfl⟩⟩
  · obtain ⟨found, name, inner, ts', rfl, hinner, h', -⟩ := moreMembers_of_members h
    obtain ⟨ms, hms, rfl⟩ := spells_of_moreMembers h'
    -- the members after the first spell an object together with it
    have hmembers : ∀ m ∈ (some name, inner) :: ms, Spells m.2 :=
      List.forall_mem_cons.2 ⟨hinner, hms⟩
    exact ⟨_, by simp [listed, memberTokens], .object hmembers, .inl ⟨_, rfl⟩⟩
  · cases h
    exact ⟨_, rfl, .array (List.forall_mem_nil _), .inr ⟨[], rfl⟩⟩
  · split at h
    · cases h
    · cases h
    · rename_i hentries
      cases h
      obtain ⟨-, rfl⟩ := entries_eq_ok_iff.1 hentries
      have hitems : ∀ item ∈ [spelling (.object suites)], Spells item :=
        List.forall_mem_singleton.2 (Json.spells_spelling _)
      exact ⟨_, by simp [listed], .array hitems, .inr ⟨_, rfl⟩⟩
    · cases h
  · cases h

/-! ## Documents given as trees -/

theorem moreMembers_other {m : String × Json} (hname : m.1 ≠ entriesName) :
    moreMembers found (.comma :: (memberSpelling m ++ rest)) = moreMembers found rest := by
  have admitted : Json.Mode.skipped.Admits 0 m.2 := trivial
  have skipped : Json.value .skipped (spelling m.2 ++ rest) = .ok (m.2, rest) :=
    Json.value_spelling admitted rest
  rw [moreMembers_comma, memberSpelling, List.cons_append, List.cons_append,
    members_skipped hname skipped]

/-- Members beside the one that holds the suites change nothing. -/
theorem moreMembers_others {others : List (String × Json)}
    (hothers : entriesName ∉ others.map (·.1)) :
    moreMembers found ((others.map memberSpelling).flatMap (.comma :: ·) ++ rest) =
      moreMembers found rest := by
  induction others with
  | nil => rfl
  | cons m others ih =>
    rw [List.map_cons, List.mem_cons, not_or] at hothers
    rw [List.map_cons, List.flatMap_cons, List.append_assoc, List.cons_append,
      moreMembers_other (Ne.symm hothers.1), ih hothers.2]

theorem moreMembers_entries (within : Readable (Json.maxDepth - 1) (.object suites)) :
    moreMembers none (.comma :: (memberSpelling (entriesName, .object suites) ++ rest)) =
      moreMembers (some suites) rest := by
  have read : entries (spelling (.object suites) ++ rest) = .ok (suites, rest) :=
    entries_eq_ok_iff.2 ⟨within, rfl⟩
  rw [moreMembers_comma, memberSpelling, List.cons_append, List.cons_append, members_entries read]

/-- The first member of a document stands as if after a comma. -/
theorem document_members {ms : List (String × Json)} (hne : ms ≠ []) :
    document (.beginObject :: (listed (ms.map memberSpelling) ++ rest)) =
      moreMembers none ((ms.map memberSpelling).flatMap (.comma :: ·) ++ rest) := by
  obtain ⟨first, others, rfl⟩ := List.exists_cons_of_ne_nil hne
  rw [← Json.comma_listed (by simp), moreMembers_comma]
  rfl

/-- The suites of a document given as a tree in which no other member has their name. -/
theorem document_spelling {top : List (String × Json)} (unique : (top.map (·.1)).Nodup)
    (hsuites : Json.member? top entriesName = some (.object suites))
    (within : Readable Json.maxDepth (.object top)) :
    document (spelling (.object top)) = .ok (suites, []) := by
  obtain ⟨-, inner⟩ := Json.readable_object.1 within
  have hmem := Json.mem_of_member? hsuites
  have hread : Readable (Json.maxDepth - 1) (.object suites) := inner _ hmem
  obtain ⟨before, after, rfl⟩ := List.append_of_mem hmem
  rw [List.map_append, List.map_cons, List.nodup_middle, List.nodup_cons, List.mem_append,
    not_or] at unique
  obtain ⟨⟨hbefore, hafter⟩, -⟩ := unique
  rw [Json.spelling_object, document_members (by simp), List.map_append, List.flatMap_append,
    List.append_assoc, moreMembers_others hbefore, List.map_cons, List.flatMap_cons,
    List.append_assoc, List.cons_append, moreMembers_entries hread, moreMembers_others hafter,
    moreMembers_end]
  rfl

/-! ## Archives -/

theorem parse_eq_ok_iff {text : String} {a : Archive} :
    parse text = .ok a ↔ ∃ suites,
      document (Json.tokens (unwrap text.toList)) = .ok (suites, []) ∧ a = ⟨.ofList suites⟩ := by
  unfold parse
  split
  · rename_i h
    simp [h]
  · rename_i suites h
    rw [h]
    constructor
    · rintro ⟨⟩
      exact ⟨suites, rfl, rfl⟩
    · rintro ⟨_, ⟨⟩, rfl⟩
      rfl
  · rename_i h
    simp [h]

/-- The archive of a document that holds a tree. -/
theorem parse_of_tree {text : String} {top : List (String × Json)}
    (holds : Json.ofText (unwrap text.toList) = .ok (.object top))
    (unique : (top.map (·.1)).Nodup)
    (hsuites : Json.member? top entriesName = some (.object suites)) :
    parse text = .ok ⟨.ofList suites⟩ := by
  obtain ⟨within, htokens⟩ := Json.ofText_eq_ok_iff.1 holds
  rw [parse_eq_ok_iff, htokens]
  exact ⟨suites, document_spelling unique hsuites within, rfl⟩

end Archive

end Slowdown
