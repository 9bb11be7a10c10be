/-
Laws of file systems: paths lead to files, a text goes to the end of the file that its path leads
to, and all else stays as it was. What a system refuses for reasons that are not in the files, as
a full disk or a lost device, is a denial that a run meets with.
-/
import Slowdown.FileSystem

namespace Slowdown

/-! ## What succeeds -/

section

variable {ε α : Type} {x : Except ε α}

theorem toOption_eq_some_iff {a : α} : x.toOption = some a ↔ x = .ok a := by
  cases x <;> simp [Except.toOption]

theorem toOption_eq_none_iff : x.toOption = none ↔ ∃ e, x = .error e := by
  cases x <;> simp [Except.toOption]

theorem isOk_eq_true_iff : x.isOk = true ↔ ∃ a, x = .ok a := by
  cases x <;> simp [Except.isOk, Except.toBool]

end

theorem decodeText_toUTF8 (text : String) : decodeText text.toUTF8 = .ok text := by
  have hdecode : String.fromUTF8? text.toUTF8 = some text := by
    unfold String.fromUTF8?
    rw [String.toUTF8_eq_toByteArray, dif_pos text.isValidUTF8]
    rfl
  rw [decodeText, hdecode]

/-! ## Laws -/

/-- A file system whose paths lead to one file at most. A text goes to the end of the file that its
path leads to, and changes neither other files nor where paths lead, what can be added to, and what
can be read from other files. -/
class LawfulFileSystem (σ : Type) [FileSystem σ] where
  /-- Files, by whatever paths they are found. -/
  File : Type
  /-- What a file holds, if there is one. -/
  contents : σ → File → Option ByteArray
  /-- A path leads to a file, which may still have to be made. -/
  Leads : σ → String → File → Prop
  leads_unique : ∀ {s : σ} {path : String} {f g : File}, Leads s path f → Leads s path g → f = g
  read_eq_ok : ∀ {s : σ} {path : String} {bytes : ByteArray},
    FileSystem.read s path = .ok bytes → ∃ f, Leads s path f ∧ contents s f = some bytes
  append_eq_ok : ∀ {s s' : σ} {path text : String}, FileSystem.append s path text = .ok s' →
    ∃ f, Leads s path f ∧
      contents s' f = some ((contents s f).getD .empty ++ text.toUTF8) ∧
      ∀ other, other ≠ f → contents s' other = contents s other
  leads_append : ∀ {s s' : σ} {path text : String}, FileSystem.append s path text = .ok s' →
    ∀ {other : String} {f : File}, Leads s' other f ↔ Leads s other f
  append_append : ∀ {s s' : σ} {path text : String}, FileSystem.append s path text = .ok s' →
    ∀ other more, (FileSystem.append s' other more).isOk = (FileSystem.append s other more).isOk
  read_append : ∀ {s s' : σ} {path text : String}, FileSystem.append s path text = .ok s' →
    ∀ {other : String}, (∀ f, Leads s other f → contents s' f = contents s f) →
      (FileSystem.read s' other).toOption = (FileSystem.read s other).toOption

/-- Two paths that do not lead to the same file. -/
def FileSystem.Apart {σ : Type} [FileSystem σ] [LawfulFileSystem σ] (s : σ)
    (path other : String) : Prop :=
  ∀ f, LawfulFileSystem.Leads s path f → ¬ LawfulFileSystem.Leads s other f

/-! ## Denials -/

/-- What the system denies a run although the files would allow it, and with which fault. -/
structure Denial where
  read : String → Option FileFault
  append : String → Option FileFault

/-- Nothing is denied. -/
def Denial.none : Denial := ⟨fun _ => .none, fun _ => .none⟩

/-- Files as a run finds them that meets with a denial. -/
structure Denied (σ : Type) where
  state : σ
  denial : Denial

namespace Denied

variable {σ : Type} [FileSystem σ]

/-- What is denied ends in its fault, and all else is as the files have it. -/
instance : FileSystem (Denied σ) where
  read s path :=
    match s.denial.read path with
    | some fault => .error fault
    | none => FileSystem.read s.state path
  append s path text :=
    match s.denial.append path with
    | some fault => .error fault
    | none => (FileSystem.append s.state path text).map (⟨·, s.denial⟩)

/-- A denial does not depend on the files. -/
theorem toOption_read_eq {s s' : σ} {path : String}
    (h : (FileSystem.read s' path).toOption = (FileSystem.read s path).toOption)
    (denial : Denial) :
    (FileSystem.read (⟨s', denial⟩ : Denied σ) path).toOption =
      (FileSystem.read (⟨s, denial⟩ : Denied σ) path).toOption := by
  simp only [FileSystem.read]
  cases denial.read path with
  | none => exact h
  | some fault => rfl

theorem isOk_append_eq {s s' : σ} {path text : String}
    (h : (FileSystem.append s' path text).isOk = (FileSystem.append s path text).isOk)
    (denial : Denial) :
    (FileSystem.append (⟨s', denial⟩ : Denied σ) path text).isOk =
      (FileSystem.append (⟨s, denial⟩ : Denied σ) path text).isOk := by
  simp only [FileSystem.append]
  cases denial.append path with
  | none =>
    revert h
    cases FileSystem.append s' path text <;> cases FileSystem.append s path text <;> exact id
  | some fault => rfl

/-- A text that is added is added to the files. -/
theorem append_state {s s' : Denied σ} {path text : String}
    (h : FileSystem.append s path text = .ok s') :
    FileSystem.append s.state path text = .ok s'.state := by
  simp only [FileSystem.append] at h
  cases hdenial : s.denial.append path with
  | some fault => simp [hdenial] at h
  | none =>
    rw [hdenial] at h
    cases happend : FileSystem.append s.state path text with
    | error fault => simp [happend, Except.map] at h
    | ok after =>
      rw [happend] at h
      cases h
      rfl

end Denied

end Slowdown
