/-
Look-ups in a map by name: which rows they find, and how an update or a list of pairs changes
them.
-/
import Slowdown.NameMap
import Slowdown.Proofs.Text.ByteOrder
import Mathlib.Data.List.Induction

namespace Slowdown

namespace NameMap

variable {α : Type}

/-! ## Rows and look-ups -/

theorem names_ascending (m : NameMap α) : m.names.Pairwise (· < ·) :=
  List.pairwise_map.2 m.ascending

theorem nodup_names (m : NameMap α) : m.names.Nodup :=
  m.names_ascending.imp fun h => ne_of_lt h

theorem find?_eq_none_iff {m : NameMap α} {name : String} :
    m.find? name = none ↔ name ∉ m.names := by
  rw [find?, Option.map_eq_none_iff, List.find?_eq_none, names, List.mem_map]
  simp only [beq_iff_eq, not_exists, not_and]

/-- The only row with a name is the one a look-up finds. -/
theorem filter_rows (m : NameMap α) (name : String) :
    m.rows.filter (fun row => row.1 == name) =
      ((m.find? name).map fun value => (name, value)).toList := by
  obtain ⟨rows, ascending⟩ := m
  unfold find?
  induction rows with
  | nil => rfl
  | cons row rest ih =>
    -- names ascend strictly, so behind a row of this name there is no other
    obtain ⟨first, others⟩ := List.pairwise_cons.1 ascending
    by_cases same : row.1 = name
    · have none_left : rest.filter (fun row => row.1 == name) = [] :=
        List.filter_eq_nil_iff.2 fun r hr => by
          have := ne_of_lt (first r hr)
          simp only [beq_iff_eq]
          exact fun h => this (same.trans h.symm)
      simp [← same] at none_left ⊢
      exact none_left
    · simpa [same] using ih others

theorem find?_eq_some_iff {m : NameMap α} {name : String} {value : α} :
    m.find? name = some value ↔ (name, value) ∈ m.rows := by
  have h := m.filter_rows name
  rw [show (name, value) ∈ m.rows ↔ (name, value) ∈ m.rows.filter fun row => row.1 == name by simp,
    h]
  simp

theorem mem_names_iff {m : NameMap α} {name : String} :
    name ∈ m.names ↔ (m.find? name).isSome = true := by
  rw [← not_iff_not, ← find?_eq_none_iff, Bool.not_eq_true, Option.isSome_eq_false_iff,
    Option.isNone_iff_eq_none]

/-- Two maps with the same look-ups are equal, since the order of the rows is settled. -/
theorem ext_find? {m m' : NameMap α} (h : ∀ name, m.find? name = m'.find? name) : m = m' := by
  have nodup (m : NameMap α) : m.rows.Nodup :=
    m.ascending.imp fun hlt heq => hlt.ne (congrArg Prod.fst heq)
  have hmem (row : String × α) : row ∈ m.rows ↔ row ∈ m'.rows := by
    rw [← find?_eq_some_iff, ← find?_eq_some_iff, h]
  have hperm : m.rows.Perm m'.rows :=
    (List.perm_ext_iff_of_nodup (nodup m) (nodup m')).2 hmem
  have hrows : m.rows = m'.rows :=
    hperm.eq_of_pairwise (fun _ _ _ _ hab hba => absurd hab (lt_asymm hba)) m.ascending
      m'.ascending
  cases m
  cases m'
  cases hrows
  rfl

/-! ## Updates -/

theorem find?_empty (name : String) : (empty : NameMap α).find? name = none := rfl

theorem find?_rows_cons (row : String × α) (rest : List (String × α)) (name : String) :
    ((row :: rest).find? fun r => r.1 == name).map (·.2) =
      if row.1 = name then some row.2 else (rest.find? fun r => r.1 == name).map (·.2) := by
  by_cases h : row.1 = name <;> simp [h]

theorem find?_rows_eq_none {rows : List (String × α)} {name : String}
    (h : ∀ r ∈ rows, name < r.1) : (rows.find? fun r => r.1 == name).map (·.2) = none := by
  rw [Option.map_eq_none_iff, List.find?_eq_none]
  intro r hr
  have := ne_of_gt (h r hr)
  simpa using this

theorem find?_updateRows {name other : String} {f : Option α → α} {rows : List (String × α)}
    (ascending : rows.Pairwise fun a b => a.1 < b.1) :
    ((updateRows name f rows).find? fun r => r.1 == other).map (·.2) =
      if other = name then some (f ((rows.find? fun r => r.1 == name).map (·.2)))
      else (rows.find? fun r => r.1 == other).map (·.2) := by
  induction rows with
  | nil => simp only [updateRows, find?_rows_cons, eq_comm]; rfl
  | cons row rest ih =>
    obtain ⟨first, others⟩ := List.pairwise_cons.1 ascending
    unfold updateRows
    split
    · -- no later row has the name, since the rows ascend
      rename_i below
      have later : ∀ r ∈ row :: rest, name < r.1 := fun r hr =>
        (List.mem_cons.1 hr).elim (fun h => h ▸ below) fun h => lt_trans below (first r h)
      rw [find?_rows_cons, find?_rows_eq_none later]
      by_cases h : other = name
      · simp [h]
      · simp [h, Ne.symm h]
    · split
      · rename_i same
        subst same
        simp only [find?_rows_cons]
        by_cases h : other = row.1
        · simp [h]
        · simp [h, Ne.symm h]
      · rename_i differs
        simp only [find?_rows_cons, ih others]
        by_cases h : other = name
        · subst h
          simp [Ne.symm differs]
        · simp [h]

/-- An update reaches the value under its own name only. -/
theorem find?_update (m : NameMap α) (name other : String) (f : Option α → α) :
    (m.update name f).find? other =
      if other = name then some (f (m.find? name)) else m.find? other :=
  find?_updateRows m.ascending

theorem find?_insert (m : NameMap α) (name other : String) (value : α) :
    (m.insert name value).find? other = if other = name then some value else m.find? other :=
  m.find?_update name other _

/-- Of the pairs with a name the last counts. -/
theorem find?_ofList (pairs : List (String × α)) (name : String) :
    (ofList pairs).find? name =
      ((pairs.filter fun pair => pair.1 == name).getLast?).map (·.2) := by
  unfold ofList
  induction pairs using List.reverseRecOn with
  | nil => rfl
  | append_singleton pairs pair ih =>
    rw [List.foldl_append, List.foldl_cons, List.foldl_nil, find?_insert, ih, List.filter_append]
    by_cases h : name = pair.1
    · simp [h]
    · simp [h, Ne.symm h]

end NameMap

end Slowdown
