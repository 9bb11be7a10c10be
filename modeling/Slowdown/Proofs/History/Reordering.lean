/-
Runs whose measurements come in another order. What is under a name depends on the measurements
of that name alone, so as long as these keep their order the history is the same, and with it
everything a check makes of it.
-/
import Slowdown.Proofs.Command.Course
import Slowdown.Proofs.History.Log

namespace Slowdown

/-! ## Measurements of one name -/

/-- The same measurements in another order, in which those of one name follow each other as
before. -/
structure Run.Reordered (r r' : Run) : Prop where
  perm : r'.measurements.Perm r.measurements
  ordered : ∀ name, r'.measurements.filter (fun m => m.name == name) =
    r.measurements.filter fun m => m.name == name

theorem Run.Reordered.refl (r : Run) : r.Reordered r := ⟨.refl _, fun _ => rfl⟩

/-- Two neighbours of different names may change places. -/
theorem Run.Reordered.swap (before after : List Measurement) {a b : Measurement}
    (hne : a.name ≠ b.name) :
    Run.Reordered ⟨before ++ a :: b :: after⟩ ⟨before ++ b :: a :: after⟩ := by
  refine ⟨(List.Perm.swap a b after).append_left before, fun name => ?_⟩
  simp only [List.filter_append, List.filter_cons, beq_iff_eq]
  split_ifs with hb ha
  · exact absurd (ha.trans hb.symm) hne
  · rfl
  · rfl
  · rfl

namespace History

/-- Measurements of other names leave what is under a name alone. -/
theorem find?_pushMeasurements_filter (h : History) (ms : List Measurement) (name : String) :
    (ms.foldl pushMeasurement h).find? name =
      ((ms.filter fun m => m.name == name).foldl pushMeasurement h).find? name := by
  induction ms using List.reverseRecOn with
  | nil => rfl
  | append_singleton ms m ih =>
    rw [List.foldl_append, List.foldl_cons, List.foldl_nil, find?_pushMeasurement,
      List.filter_append]
    by_cases hm : m.name = name
    · subst hm
      rw [List.filter_cons_of_pos (by simp), List.filter_nil, List.foldl_append, List.foldl_cons,
        List.foldl_nil, find?_pushMeasurement, if_pos rfl, if_pos rfl, ih]
    · rw [List.filter_cons_of_neg (by simpa using hm), List.filter_nil, List.append_nil,
        if_neg (Ne.symm hm), ih]

/-- Measurements may be pushed in any order that keeps that of each name. -/
theorem foldl_pushMeasurement_congr (h : History) {ms ms' : List Measurement}
    (hms : ∀ name, ms'.filter (fun m => m.name == name) = ms.filter fun m => m.name == name) :
    ms'.foldl pushMeasurement h = ms.foldl pushMeasurement h := by
  have hfind (name : String) : (ms'.foldl pushMeasurement h).find? name =
      (ms.foldl pushMeasurement h).find? name := by
    rw [find?_pushMeasurements_filter, hms, ← find?_pushMeasurements_filter]
  have hseries := NameMap.ext_find? hfind
  generalize ms'.foldl pushMeasurement h = left at hseries ⊢
  generalize ms.foldl pushMeasurement h = right at hseries ⊢
  cases left
  cases right
  exact congrArg History.mk hseries

/-- The measurements of a name are the same in all runs together if they are in each. -/
theorem filter_measurements_of_reordered {runs runs' : List Run}
    (h : List.Forall₂ Run.Reordered runs runs') (name : String) :
    (runs'.flatMap (·.measurements)).filter (fun m => m.name == name) =
      (runs.flatMap (·.measurements)).filter fun m => m.name == name := by
  induction h with
  | nil => rfl
  | cons hrun _ ih =>
    rw [List.flatMap_cons, List.flatMap_cons, List.filter_append, List.filter_append,
      hrun.ordered, ih]

theorem ofRuns_eq_of_reordered {runs runs' : List Run}
    (h : List.Forall₂ Run.Reordered runs runs') : ofRuns runs' = ofRuns runs :=
  foldl_pushMeasurement_congr empty (filter_measurements_of_reordered h)

/-! ## Checks -/

/-- Runs with their measurements reordered have the same history, and under every policy the same
verdicts, the same report and the same rest of a check: its status, its lines and its summary. -/
theorem reordered_runs_agree {runs runs' : List Run} (h : List.Forall₂ Run.Reordered runs runs') :
    ofRuns runs' = ofRuns runs ∧
    ∀ p : Policy, (ofRuns runs').assess p = (ofRuns runs).assess p ∧
      Command.reportOn p runs' = Command.reportOn p runs ∧
      ∀ (files : Command.Files) (setting : Option String) (call : Command.Invocation)
        (before : List Command.Line),
        Command.withHistory files setting call p runs' before =
          Command.withHistory files setting call p runs before := by
  have hhistory := ofRuns_eq_of_reordered h
  refine ⟨hhistory, fun p => ⟨by rw [hhistory], ?_, fun files setting call before => ?_⟩⟩
  · rw [Command.reportOn, Command.reportOn, hhistory]
  · -- a check tells the number of runs besides
    rw [Command.withHistory, Command.withHistory, hhistory, h.length_eq]

/-- One benchmark is measured twice in a run, the second time in another unit. -/
theorem reordered_runs_agree_repeated :
    List.Forall₂ Run.Reordered
      [⟨[⟨"fib", 1, some "ns"⟩, ⟨"gcd", 5, none⟩, ⟨"fib", 2, some "ms"⟩]⟩, ⟨[⟨"gcd", 6, none⟩]⟩]
      [⟨[⟨"gcd", 5, none⟩, ⟨"fib", 1, some "ns"⟩, ⟨"fib", 2, some "ms"⟩]⟩, ⟨[⟨"gcd", 6, none⟩]⟩] ∧
    ofRuns [⟨[⟨"gcd", 5, none⟩, ⟨"fib", 1, some "ns"⟩, ⟨"fib", 2, some "ms"⟩]⟩,
        ⟨[⟨"gcd", 6, none⟩]⟩] =
      ofRuns [⟨[⟨"fib", 1, some "ns"⟩, ⟨"gcd", 5, none⟩, ⟨"fib", 2, some "ms"⟩]⟩,
        ⟨[⟨"gcd", 6, none⟩]⟩] := by
  have reordered : List.Forall₂ Run.Reordered
      [⟨[⟨"fib", 1, some "ns"⟩, ⟨"gcd", 5, none⟩, ⟨"fib", 2, some "ms"⟩]⟩, ⟨[⟨"gcd", 6, none⟩]⟩]
      [⟨[⟨"gcd", 5, none⟩, ⟨"fib", 1, some "ns"⟩, ⟨"fib", 2, some "ms"⟩]⟩, ⟨[⟨"gcd", 6, none⟩]⟩] :=
    .cons (.swap [] [⟨"fib", 2, some "ms"⟩] (by decide)) (.cons (.refl _) .nil)
  exact ⟨reordered, (reordered_runs_agree reordered).1⟩

end History

end Slowdown
