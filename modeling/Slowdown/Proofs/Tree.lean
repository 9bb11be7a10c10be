/-
File trees are lawful file systems. Paths go through subdirectories and up again, begin at the
root or in the working directory, and may lead to a file that is protected from writing.
-/
import Mathlib.Logic.Function.Basic
import Mathlib.Tactic.SplitIfs
import Slowdown.Proofs.FileSystem

namespace Slowdown

/-! ## Trees -/

/-- What stands at a place of a tree. -/
inductive Node where
  | directory
  | file (bytes : ByteArray) (writable : Bool)

/-- A tree of files. A place in it is given by the parts of its absolute path. -/
structure Tree where
  nodes : List String → Option Node
  working : List String

namespace Tree

/-- What stands at a place; the root is always a directory. -/
def node? (t : Tree) (place : List String) : Option Node :=
  if place = [] then some .directory else t.nodes place

/-- The bytes of the file at a place, if one is there. -/
def contents (t : Tree) (place : List String) : Option ByteArray :=
  match t.node? place with
  | some (.file bytes _) => some bytes
  | _ => none

/-- The parts of a path between its slashes. -/
def partsOf (path : String) : List String := (path.toList.splitOn '/').map String.ofList

/-- The place that the parts of a path lead to. All parts but the last have to be directories. -/
def walk (t : Tree) (here : List String) : List String → Except FileFault (List String)
  | [] => .ok here
  | part :: rest =>
    if part = "" ∨ part = "." then walk t here rest
    else if part = ".." then walk t here.dropLast rest
    else if rest = [] then .ok (here ++ [part])
    else
      match t.node? (here ++ [part]) with
      | some .directory => walk t (here ++ [part]) rest
      | some (.file _ _) => .error .notDirectory
      | none => .error .missing

/-- The place that a path leads to, from the root if the path begins with a slash. -/
def placeOf (t : Tree) (path : String) : Except FileFault (List String) :=
  if path = "" then .error .missing
  else if '\x00' ∈ path.toList then .error .zeroInPath
  else t.walk (if path.startsWith "/" then [] else t.working) (partsOf path)

/-- The bytes of the file that a path leads to. -/
def read (t : Tree) (path : String) : Except FileFault ByteArray :=
  match t.placeOf path with
  | .error fault => .error fault
  | .ok place =>
    match t.node? place with
    | some (.file bytes _) => .ok bytes
    | some .directory => .error .isDirectory
    | none => .error .missing

/-- The tree with a text at the end of the file at a place, which is made if need be. -/
def added (t : Tree) (place : List String) (text : String) : Tree :=
  let bytes := (t.contents place).getD .empty ++ text.toUTF8
  { t with nodes := Function.update t.nodes place (some (.file bytes true)) }

/-- The tree after a text has been added to the end of the file that a path leads to. -/
def append (t : Tree) (path text : String) : Except FileFault Tree :=
  match t.placeOf path with
  | .error fault => .error fault
  | .ok place =>
    match t.node? place with
    | some .directory => .error .isDirectory
    | some (.file _ false) => .error .denied
    | _ => .ok (t.added place text)

/-- Trees are read and added to by paths from the root or the working directory. -/
instance : FileSystem Tree := ⟨read, append⟩

/-! ## Where paths lead -/

/-- A path leads to a place where a file stands or could be made. -/
def Leads (t : Tree) (path : String) (place : List String) : Prop :=
  t.placeOf path = .ok place ∧ t.node? place ≠ some .directory

/-- Nothing at a place keeps a text from being added. -/
def Open (t : Tree) (place : List String) : Prop :=
  ∀ bytes, t.node? place ≠ some (.file bytes false)

theorem walk_eq_ok_iff {t t' : Tree} (same : ∀ place,
    t'.node? place = some .directory ↔ t.node? place = some .directory)
    (here parts place : List String) :
    t'.walk here parts = .ok place ↔ t.walk here parts = .ok place := by
  induction parts generalizing here with
  | nil => exact Iff.rfl
  | cons part rest ih =>
    unfold walk
    split_ifs
    · exact ih here
    · exact ih here.dropLast
    · exact Iff.rfl
    · -- a directory on the way is one in both trees, and anything else ends both walks
      have hsame := same (here ++ [part])
      cases hnode : t.node? (here ++ [part]) with
      | none => cases hnode' : t'.node? (here ++ [part]) with
        | none => simp
        | some node => cases node <;> simp_all
      | some node => cases node with
        | directory => simpa [hnode, hsame.2 hnode] using ih (here ++ [part])
        | file bytes writable => cases hnode' : t'.node? (here ++ [part]) with
          | none => simp
          | some node => cases node <;> simp_all

section

variable {t : Tree} {place : List String}

theorem node?_added (hplace : place ≠ []) (text : String) (other : List String) :
    (t.added place text).node? other =
      if other = place then some (.file ((t.contents place).getD .empty ++ text.toUTF8) true)
      else t.node? other := by
  unfold added node?
  by_cases h : other = place
  · simp [h, hplace]
  · simp [h]

theorem ne_root (h : t.node? place ≠ some .directory) : place ≠ [] := by
  rintro rfl
  exact h (by simp [node?])

/-- Files are made and grow, but directories stay what they are. -/
theorem leads_added (h : t.node? place ≠ some .directory) (text path : String)
    (other : List String) : (t.added place text).Leads path other ↔ t.Leads path other := by
  -- adding to a file makes no directory and removes none, and paths only ask for directories
  have same : ∀ other, (t.added place text).node? other = some .directory ↔
      t.node? other = some .directory := by
    intro other
    rw [node?_added (ne_root h)]
    split_ifs with hother
    · rw [hother]
      simpa using h
    · exact Iff.rfl
  have hplace : (t.added place text).placeOf path = .ok other ↔ t.placeOf path = .ok other := by
    unfold placeOf
    split_ifs
    · simp
    · simp
    · exact walk_eq_ok_iff same _ _ _
    · exact walk_eq_ok_iff same _ _ _
  unfold Leads
  rw [hplace, ne_eq, same]

theorem open_added (h : t.node? place ≠ some .directory) (hopen : t.Open place) (text : String)
    (other : List String) : (t.added place text).Open other ↔ t.Open other := by
  unfold Open
  simp only [node?_added (ne_root h)]
  split_ifs with hother
  · rw [hother]
    exact iff_of_true (by simp) hopen
  · exact Iff.rfl

end

/-! ## Reading and adding -/

theorem read_eq_ok_iff {t : Tree} {path : String} {bytes : ByteArray} :
    t.read path = .ok bytes ↔ ∃ place, t.Leads path place ∧ t.contents place = some bytes := by
  unfold read Leads contents
  cases t.placeOf path with
  | error fault => simp
  | ok place =>
    cases hnode : t.node? place with
    | none => simp [hnode, and_assoc]
    | some node => cases node <;> simp [hnode, and_assoc]

theorem append_eq_ok_iff {t t' : Tree} {path text : String} :
    t.append path text = .ok t' ↔
      ∃ place, t.Leads path place ∧ t.Open place ∧ t' = t.added place text := by
  unfold append Leads Open
  cases t.placeOf path with
  | error fault => simp
  | ok place =>
    cases hnode : t.node? place with
    | none => simp [hnode, and_assoc, eq_comm (a := t')]
    | some node =>
      cases node with
      | directory => simp [hnode, and_assoc]
      | file bytes writable => cases writable <;> simp [hnode, and_assoc, eq_comm (a := t')]

theorem isOk_append_iff {t : Tree} {path text : String} :
    (t.append path text).isOk = true ↔ ∃ place, t.Leads path place ∧ t.Open place := by
  rw [isOk_eq_true_iff]
  simp only [append_eq_ok_iff]
  exact ⟨fun ⟨_, place, hleads, hopen, _⟩ => ⟨place, hleads, hopen⟩,
    fun ⟨place, hleads, hopen⟩ => ⟨_, place, hleads, hopen, rfl⟩⟩

/-- Files are told apart by their places. -/
instance : LawfulFileSystem Tree where
  File := List String
  contents := contents
  Leads := Leads
  leads_unique hf hg := Except.ok.inj (hf.1.symm.trans hg.1)
  read_eq_ok := read_eq_ok_iff.1
  append_eq_ok h := by
    obtain ⟨place, hleads, -, rfl⟩ := append_eq_ok_iff.1 h
    refine ⟨place, hleads, ?_, fun other hne => ?_⟩
    · rw [contents, node?_added (ne_root hleads.2), if_pos rfl]
    · rw [contents, node?_added (ne_root hleads.2), if_neg hne, contents]
  leads_append h := by
    obtain ⟨place, hleads, -, rfl⟩ := append_eq_ok_iff.1 h
    exact leads_added hleads.2 _ _ _
  append_append h other more := by
    obtain ⟨place, hleads, hopen, rfl⟩ := append_eq_ok_iff.1 h
    rw [Bool.eq_iff_iff]
    refine isOk_append_iff.trans (Iff.trans ?_ isOk_append_iff.symm)
    simp only [leads_added hleads.2, open_added hleads.2 hopen]
  read_append h other same := by
    obtain ⟨place, hleads, -, rfl⟩ := append_eq_ok_iff.1 h
    refine Option.ext fun bytes => ?_
    rw [toOption_eq_some_iff, toOption_eq_some_iff]
    refine read_eq_ok_iff.trans (Iff.trans (exists_congr fun f => ?_) read_eq_ok_iff.symm)
    rw [leads_added hleads.2]
    exact and_congr_right fun hf => by rw [same f hf]

theorem apart_of_ne {t : Tree} {path other : String} {f g : List String} (hf : t.Leads path f)
    (hg : t.Leads other g) (hne : f ≠ g) : FileSystem.Apart t path other := by
  intro place hpath hother
  have hf' : place = f := LawfulFileSystem.leads_unique hpath hf
  have hg' : place = g := LawfulFileSystem.leads_unique hother hg
  exact hne (hf'.symm.trans hg')

end Tree

end Slowdown
