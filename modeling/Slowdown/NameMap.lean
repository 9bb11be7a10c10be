/-
Values under names, kept in ascending order of name. Names are compared by code points, which
is the order of their UTF-8 bytes. The order is part of the type, so two maps with the same
look-ups are equal.
-/

namespace Slowdown

/-- Rows in strictly ascending order of name. -/
structure NameMap (α : Type) where
  rows : List (String × α)
  ascending : rows.Pairwise fun a b => a.1 < b.1

namespace NameMap

variable {α : Type}

/-! ## Rows -/

/-- Puts `update` of the old value under a name, at its place in the order. -/
def updateRows (name : String) (update : Option α → α) : List (String × α) → List (String × α)
  | [] => [(name, update none)]
  | row :: rest =>
    if name < row.1 then (name, update none) :: row :: rest
    else if name = row.1 then (name, update (some row.2)) :: rest
    else row :: updateRows name update rest

theorem mem_updateRows {name : String} {update : Option α → α} {rows : List (String × α)}
    {r : String × α} (h : r ∈ updateRows name update rows) : r.1 = name ∨ r ∈ rows := by
  induction rows with
  | nil => simp [updateRows] at h; exact .inl (by rw [h])
  | cons row rest ih =>
    unfold updateRows at h
    split at h
    · rcases List.mem_cons.1 h with rfl | h
      · exact .inl rfl
      · exact .inr h
    · split at h
      · rcases List.mem_cons.1 h with rfl | h
        · exact .inl rfl
        · exact .inr (List.mem_cons_of_mem _ h)
      · rcases List.mem_cons.1 h with rfl | h
        · exact .inr List.mem_cons_self
        · exact (ih h).imp_right (List.mem_cons_of_mem _)

theorem updateRows_ascending (name : String) (update : Option α → α) {rows : List (String × α)}
    (h : rows.Pairwise fun a b => a.1 < b.1) :
    (updateRows name update rows).Pairwise fun a b => a.1 < b.1 := by
  induction rows with
  | nil => simp [updateRows]
  | cons row rest ih =>
    have ⟨first, others⟩ := List.pairwise_cons.1 h
    unfold updateRows
    split
    · rename_i below
      refine List.pairwise_cons.2 ⟨fun r hr => ?_, h⟩
      rcases List.mem_cons.1 hr with rfl | hr
      · exact below
      · exact String.lt_trans below (first r hr)
    · split
      · rename_i same
        exact List.pairwise_cons.2 ⟨fun r hr => same ▸ first r hr, others⟩
      · rename_i notBelow notSame
        refine List.pairwise_cons.2 ⟨fun r hr => ?_, ih others⟩
        rcases mem_updateRows hr with same | hr
        · grind
        · exact first r hr

/-! ## Operations -/

/-- The map without rows. -/
def empty : NameMap α := ⟨[], .nil⟩

/-- Replaces what stands under a name by `update` of it; all other names keep their values. -/
def update (m : NameMap α) (name : String) (update : Option α → α) : NameMap α :=
  ⟨updateRows name update m.rows, updateRows_ascending name update m.ascending⟩

/-- Puts a value under a name, whatever stood there. -/
def insert (m : NameMap α) (name : String) (value : α) : NameMap α :=
  m.update name fun _ => value

/-- Of equal names the later pair counts. -/
def ofList (pairs : List (String × α)) : NameMap α :=
  pairs.foldl (fun m pair => m.insert pair.1 pair.2) empty

/-- What stands under a name. -/
def find? (m : NameMap α) (name : String) : Option α :=
  (m.rows.find? fun row => row.1 == name).map (·.2)

/-- The names in ascending order. -/
def names (m : NameMap α) : List String := m.rows.map (·.1)

/-- How many names there are. -/
def size (m : NameMap α) : Nat := m.rows.length

instance : Inhabited (NameMap α) := ⟨empty⟩

end NameMap

end Slowdown
