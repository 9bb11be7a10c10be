/-
Directories are lawful file systems. What a directory holds does not decide to which name a path
leads; a text goes to the end of the file that its path leads to; and paths that lead elsewhere
read as before.
-/
import Slowdown.Directory
import Slowdown.Proofs.FileSystem
import Slowdown.Proofs.NameMap

namespace Slowdown

namespace Directory

/-! ## Where paths lead -/

/-- Equal spots, or two faults. -/
inductive Spot.Alike : Spot → Spot → Prop where
  | refl {s : Spot} : Alike s s
  | faults {f g : FileFault} : Alike (.fault f) (.fault g)

theorem follow_alike (d d' : Directory) (inside : Bool) (parts : List String) :
    (d.follow inside parts).Alike (d'.follow inside parts) := by
  induction parts generalizing inside with
  | nil => exact .refl
  | cons part rest ih =>
    unfold follow
    split_ifs
    · exact ih inside
    · exact ih false
    · exact .refl
    · -- a name that should be a directory: what it holds decides only which fault there is
      cases d.lookUp part inside <;> cases d'.lookUp part inside <;> exact .faults

theorem spot_alike (d d' : Directory) (path : String) : (d.spot path).Alike (d'.spot path) := by
  unfold spot
  split_ifs
  · exact .refl
  · exact .refl
  · exact .refl
  · exact follow_alike d d' _ _

/-- The file that a path leads to has this name. -/
def Leads (d : Directory) (path name : String) : Prop := d.spot path = .name name true false

theorem Leads.unique {d : Directory} {path a b : String} (ha : d.Leads path a)
    (hb : d.Leads path b) : a = b := by
  unfold Leads at ha hb
  rw [ha] at hb
  cases hb
  rfl

theorem leads_iff (d d' : Directory) {path name : String} :
    d.Leads path name ↔ d'.Leads path name := by
  unfold Leads
  have alike := spot_alike d d' path
  generalize d.spot path = s at alike ⊢
  generalize d'.spot path = s' at alike ⊢
  cases alike <;> simp

/-! ## Reading -/

theorem lookUp_eq_ok_iff {d : Directory} {name : String} {inside : Bool} {bytes : ByteArray} :
    d.lookUp name inside = .ok bytes ↔
      inside = true ∧ name.utf8ByteSize ≤ nameLimit ∧ d.files.find? name = some bytes := by
  unfold lookUp
  by_cases hlong : nameLimit < name.utf8ByteSize
  · rw [if_pos hlong]
    simp only [reduceCtorEq, false_iff]
    rintro ⟨-, hshort, -⟩
    omega
  · rw [if_neg hlong]
    have hshort : name.utf8ByteSize ≤ nameLimit := by omega
    cases d.files.find? name with
    | none => simp
    | some contents => cases inside <;> simp [hshort]

/-- What can be read is in a file that the path leads to. -/
theorem read_eq_ok_iff {d : Directory} {path : String} {bytes : ByteArray} :
    d.read path = .ok bytes ↔
      ∃ name, d.Leads path name ∧ name.utf8ByteSize ≤ nameLimit ∧
        d.files.find? name = some bytes := by
  unfold Directory.read Leads
  cases d.spot path with
  | directory => simp
  | fault f => simp
  | name other inside slash =>
    have hbind : (do
          let contents ← d.lookUp other inside
          if slash = true then .error .notDirectory else .ok contents) =
          (.ok bytes : Except FileFault ByteArray) ↔
        slash = false ∧ d.lookUp other inside = .ok bytes := by
      cases d.lookUp other inside <;> cases slash <;> simp [bind, Except.bind]
    rw [hbind, lookUp_eq_ok_iff]
    cases slash <;> cases inside <;> simp

/-- Reading a path looks at the file that it leads to, and at no other. -/
theorem toOption_read_eq {d d' : Directory} {path : String}
    (same : ∀ name, d.Leads path name → d'.files.find? name = d.files.find? name) :
    (d'.read path).toOption = (d.read path).toOption := by
  refine Option.ext fun bytes => ?_
  rw [toOption_eq_some_iff, toOption_eq_some_iff, read_eq_ok_iff, read_eq_ok_iff]
  refine exists_congr fun name => ?_
  rw [leads_iff d' d]
  refine and_congr_right fun hleads => ?_
  rw [same name hleads]

/-! ## Adding -/

/-- The directory with a text at the end of the file of a name, which is made if need be. -/
def added (d : Directory) (name text : String) : Directory :=
  ⟨d.files.insert name ((d.files.find? name).getD .empty ++ text.toUTF8)⟩

/-- A text can be added exactly where a path leads to a file whose name is not too long. -/
theorem append_eq_ok_iff {d d' : Directory} {path text : String} :
    d.append path text = .ok d' ↔
      ∃ name, d.Leads path name ∧ name.utf8ByteSize ≤ nameLimit ∧ d' = d.added name text := by
  unfold Directory.append Leads added
  cases d.spot path with
  | directory => simp
  | fault f => simp
  | name other inside slash =>
    cases slash with
    | true => simp
    | false =>
      dsimp only
      unfold lookUp
      -- a name that is too long is refused before the file is looked for.
      by_cases hlong : nameLimit < other.utf8ByteSize
      · have hfault : FileFault.nameTooLong ≠ FileFault.missing := by decide
        rw [if_pos hlong]
        simp only [hfault, and_false, if_false, reduceCtorEq, false_iff, Spot.name.injEq,
          not_exists]
        rintro name ⟨⟨rfl, -⟩, hshort, -⟩
        omega
      · have hshort : other.utf8ByteSize ≤ nameLimit := by omega
        rw [if_neg hlong]
        -- a missing file is made, so only the place of the file matters
        cases hfind : d.files.find? other with
        | none => cases inside <;> simp [hshort, hfind, eq_comm]
        | some contents => cases inside <;> simp [hshort, hfind, eq_comm]

/-- What a file holds does not decide whether a text can be added to it. -/
theorem isOk_append_iff {d : Directory} {path text : String} :
    (d.append path text).isOk = true ↔
      ∃ name, d.Leads path name ∧ name.utf8ByteSize ≤ nameLimit := by
  rw [isOk_eq_true_iff]
  simp only [append_eq_ok_iff]
  exact ⟨fun ⟨_, name, hleads, hsize, _⟩ => ⟨name, hleads, hsize⟩,
    fun ⟨name, hleads, hsize⟩ => ⟨_, name, hleads, hsize, rfl⟩⟩

theorem find?_added (d : Directory) (name text other : String) :
    (d.added name text).files.find? other =
      if other = name then some ((d.files.find? name).getD .empty ++ text.toUTF8)
      else d.files.find? other :=
  NameMap.find?_insert ..

/-- Files are told apart by their names. -/
instance : LawfulFileSystem Directory where
  File := String
  contents d name := d.files.find? name
  Leads := Leads
  leads_unique := Leads.unique
  read_eq_ok h := by
    obtain ⟨name, hleads, -, hfind⟩ := read_eq_ok_iff.1 h
    exact ⟨name, hleads, hfind⟩
  append_eq_ok {d d' path text} h := by
    obtain ⟨name, hleads, -, rfl⟩ := append_eq_ok_iff.1 h
    refine ⟨name, hleads, ?_, fun other hne => ?_⟩
    · rw [find?_added, if_pos rfl]
    · rw [find?_added, if_neg hne]
  leads_append {d d'} _ _ _ _ _ := leads_iff d' d
  append_append {d d'} _ _ _ other more := by
    rw [Bool.eq_iff_iff]
    exact isOk_append_iff.trans (Iff.trans (by simp only [leads_iff d' d]) isOk_append_iff.symm)
  read_append _ _ same := toOption_read_eq same

end Directory

end Slowdown
