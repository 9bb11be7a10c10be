/-
A history against the log of what was done to it: under each name it holds what the log tells
about that name since everything was last discarded.
-/
import Slowdown.History
import Slowdown.Proofs.NameMap
import Mathlib.Data.Finset.Card

namespace Slowdown

/-! ## Operations -/

/-- What can be done to a history. -/
inductive Operation where
  | push (name : String) (value : Double) (unit : Option String)
  | reset
  | rebuild (pairs : List (String × List Double))
  | extract (runs : List Run)

namespace Operation

/-- What an operation does to a history. -/
def apply (h : History) : Operation → History
  | push name value unit => h.push name value unit
  | reset => .empty
  | rebuild pairs => .ofPairs pairs
  | extract runs => .ofRuns runs

/-- Whether an operation discards what was there. -/
def restarts : Operation → Bool
  | push .. => false
  | reset | rebuild _ | extract _ => true

/-- The series an operation puts in place. -/
def pairs : Operation → List (String × List Double)
  | rebuild pairs => pairs
  | push .. | reset | extract _ => []

/-- The measurements an operation adds, oldest first. -/
def pushed : Operation → List Measurement
  | push name value unit => [⟨name, value, unit⟩]
  | extract runs => runs.flatMap (·.measurements)
  | reset | rebuild _ => []

end Operation

/-- A new history after all operations of a log. -/
def History.run (log : List Operation) : History := log.foldl Operation.apply .empty

/-! ## What a log tells -/

namespace Log

/-- The operations since the last that discards what was there, that one included. -/
def current : List Operation → List Operation
  | [] => []
  | op :: log => if log.any (·.restarts) then current log else op :: log

/-- The lists given to the last rebuild, if nothing restarted the log after it. -/
def pairs (log : List Operation) : List (String × List Double) := (current log).flatMap (·.pairs)

/-- The measurements from the last restart on, oldest first. -/
def pushed (log : List Operation) : List Measurement := (current log).flatMap (·.pushed)

/-- The names mentioned. -/
def names (pairs : List (String × List Double)) (pushed : List Measurement) : List String :=
  pairs.map (·.1) ++ pushed.map (·.name)

/-- The last list given for a name, then the values added later. -/
def values (pairs : List (String × List Double)) (pushed : List Measurement) (name : String) :
    List Double :=
  (((pairs.filter fun pair => pair.1 == name).getLast?).map (·.2)).getD [] ++
    (pushed.filter fun m => m.name == name).map (·.value)

/-- The last unit given for a name that is not empty. -/
def unit (pushed : List Measurement) (name : String) : Option String :=
  ((pushed.filter fun m => m.name == name).filterMap fun m => m.unit.filter (· ≠ "")).getLast?

/-- What there has to be under a name. -/
def told (pairs : List (String × List Double)) (pushed : List Measurement) (name : String) :
    Option Series :=
  if name ∈ names pairs pushed then some ⟨values pairs pushed name, unit pushed name⟩ else none

theorem unit_ne_empty (pushed : List Measurement) (name : String) : unit pushed name ≠ some "" := by
  intro h
  obtain ⟨m, -, hm⟩ := List.mem_filterMap.1 (List.mem_of_getLast? h)
  simp at hm

theorem filters_eq_nil {pairs : List (String × List Double)} {pushed : List Measurement}
    {name : String} (h : name ∉ names pairs pushed) :
    pairs.filter (fun pair => pair.1 == name) = [] ∧
      pushed.filter (fun m => m.name == name) = [] := by
  rw [names, List.mem_append, not_or] at h
  rw [List.filter_eq_nil_iff, List.filter_eq_nil_iff]
  refine ⟨fun pair hp he => h.1 ?_, fun m hm he => h.2 ?_⟩
  · exact List.mem_map.2 ⟨pair, hp, beq_iff_eq.1 he⟩
  · exact List.mem_map.2 ⟨m, hm, beq_iff_eq.1 he⟩

/-- What is told of a name never mentioned is that of an empty series. -/
theorem told_getD (pairs : List (String × List Double)) (pushed : List Measurement)
    (name : String) :
    (told pairs pushed name).getD .empty = ⟨values pairs pushed name, unit pushed name⟩ := by
  unfold told
  split_ifs with h
  · rfl
  · obtain ⟨hpairs, hpushed⟩ := filters_eq_nil h
    rw [values, unit, hpairs, hpushed]
    rfl

/-- A further measurement adds itself to what is told of its name. -/
theorem told_append (pairs : List (String × List Double)) (pushed : List Measurement)
    (m : Measurement) (name : String) :
    told pairs (pushed ++ [m]) name =
      if name = m.name then some (((told pairs pushed m.name).getD .empty).push m.value m.unit)
      else told pairs pushed name := by
  have hnames : names pairs (pushed ++ [m]) = names pairs pushed ++ [m.name] := by
    simp [names]
  split_ifs with hm
  · -- from now on the name is mentioned, if it was not before
    subst hm
    rw [told_getD, told, hnames, if_pos (by simp), Series.push]
    simp [values, unit, List.filterMap_append, List.getLast?_append]
  · have hfilter : (pushed ++ [m]).filter (fun m => m.name == name) =
        pushed.filter fun m => m.name == name := by
      rw [List.filter_append]
      simp [Ne.symm hm]
    rw [told, told, hnames, values, values, unit, unit, hfilter]
    simp [hm]

theorem current_append (log : List Operation) (op : Operation) :
    current (log ++ [op]) = if op.restarts then [op] else current log ++ [op] := by
  induction log with
  | nil => cases h : op.restarts <;> simp [current]
  | cons first log ih =>
    rw [List.cons_append, current, current, ih, List.any_append]
    cases h : op.restarts <;> cases h' : log.any (·.restarts) <;> simp [h]

theorem pairs_append (log : List Operation) (op : Operation) :
    pairs (log ++ [op]) = if op.restarts then op.pairs else pairs log ++ op.pairs := by
  rw [pairs, current_append]
  cases op.restarts <;> simp [pairs]

theorem pushed_append (log : List Operation) (op : Operation) :
    pushed (log ++ [op]) = if op.restarts then op.pushed else pushed log ++ op.pushed := by
  rw [pushed, current_append]
  cases op.restarts <;> simp [pushed]

end Log

/-! ## One operation -/

namespace History

open Log

theorem find?_empty (name : String) : empty.find? name = told [] [] name := rfl

theorem find?_ofPairs (pairs : List (String × List Double)) (name : String) :
    (ofPairs pairs).find? name = told pairs [] name := by
  have hfind : (ofPairs pairs).find? name =
      ((pairs.filter fun pair => pair.1 == name).getLast?).map fun pair => ⟨pair.2, none⟩ := by
    rw [find?, ofPairs, NameMap.find?_ofList, List.filter_map, List.getLast?_map, Option.map_map]
    rfl
  rw [hfind, told]
  split_ifs with hn
  · obtain ⟨pair, hpair, hname⟩ : ∃ pair ∈ pairs, pair.1 = name := by simpa [names] using hn
    have hne : pairs.filter (fun pair => pair.1 == name) ≠ [] :=
      List.ne_nil_of_mem (List.mem_filter.2 ⟨hpair, beq_iff_eq.2 hname⟩)
    rw [values, List.getLast?_eq_some_getLast hne]
    simp only [Option.map_some, Option.getD_some, List.filter_nil, List.map_nil, List.append_nil]
    rfl
  · rw [(filters_eq_nil hn).1]
    rfl

theorem find?_pushMeasurement (h : History) (m : Measurement) (name : String) :
    (h.pushMeasurement m).find? name =
      if name = m.name then some (((h.find? m.name).getD .empty).push m.value m.unit)
      else h.find? name :=
  NameMap.find?_update ..

theorem find?_pushMeasurements {h : History} {pairs : List (String × List Double)}
    {pushed : List Measurement} (hh : ∀ name, h.find? name = told pairs pushed name)
    (ms : List Measurement) (name : String) :
    (ms.foldl pushMeasurement h).find? name = told pairs (pushed ++ ms) name := by
  induction ms using List.reverseRecOn generalizing name with
  | nil => simpa using hh name
  | append_singleton ms m ih =>
    rw [List.foldl_append, List.foldl_cons, List.foldl_nil, find?_pushMeasurement,
      ← List.append_assoc, told_append, ih, ih]

/-! ## Whole logs -/

theorem run_append (log : List Operation) (op : Operation) :
    run (log ++ [op]) = op.apply (run log) := by
  rw [run, List.foldl_append]
  rfl

/-- What an operation does to what is under each name, if it was what the log tells. -/
theorem find?_apply {log : List Operation}
    (h : ∀ name, (run log).find? name = told (pairs log) (pushed log) name) (op : Operation)
    (name : String) :
    (op.apply (run log)).find? name = told (pairs (log ++ [op])) (pushed (log ++ [op])) name := by
  rw [pairs_append, pushed_append]
  cases op with
  | push other value unit =>
    -- the only operation that leaves the earlier log in force
    simp only [Operation.restarts, Operation.pairs, Bool.false_eq_true, if_false, List.append_nil]
    exact find?_pushMeasurements h [⟨other, value, unit⟩] name
  | reset => rfl
  | rebuild given => exact find?_ofPairs given name
  | extract runs => exact find?_pushMeasurements find?_empty (runs.flatMap (·.measurements)) name

theorem find?_run (log : List Operation) (name : String) :
    (run log).find? name = told (pairs log) (pushed log) name := by
  induction log using List.reverseRecOn generalizing name with
  | nil => rfl
  | append_singleton log op ih =>
    rw [run_append]
    exact find?_apply ih op name

/-- A history of more runs is that of the first ones with the later measurements added. -/
theorem ofRuns_append (older newer : List Run) :
    ofRuns (older ++ newer) =
      (newer.flatMap (·.measurements)).foldl pushMeasurement (ofRuns older) := by
  rw [ofRuns, List.flatMap_append, List.foldl_append]
  rfl

theorem names_run (log : List Operation) (name : String) :
    name ∈ (run log).series.names ↔ name ∈ names (pairs log) (pushed log) := by
  rw [NameMap.mem_names_iff]
  have h := find?_run log name
  unfold told at h
  rw [← find?, h]
  split_ifs with hn <;> simp [hn]

/-- After any operations a history holds exactly what the log tells about each name, lists each
name mentioned once in order of its UTF-8 bytes, and has no empty unit; and runs can be added
one at a time. -/
theorem run_refines_log (log : List Operation) :
    (∀ name, (run log).find? name =
      if name ∈ names (pairs log) (pushed log) then
        some ⟨values (pairs log) (pushed log) name, unit (pushed log) name⟩
      else none) ∧
    (∀ name s, (run log).find? name = some s → s.unit ≠ some "") ∧
    ((run log).toList.Pairwise fun a b => utf8Bytes a.1 < utf8Bytes b.1) ∧
    (∀ name s, (name, s) ∈ (run log).toList ↔ (run log).find? name = some s) ∧
    (run log).size = (names (pairs log) (pushed log)).toFinset.card ∧
    ∀ older newer, ofRuns (older ++ newer) =
      (newer.flatMap (·.measurements)).foldl pushMeasurement (ofRuns older) := by
  refine ⟨find?_run log, fun name s hs => ?_, ?_, fun name s => ?_, ?_, ofRuns_append⟩
  · rw [find?_run, told] at hs
    split_ifs at hs
    cases hs
    exact unit_ne_empty _ _
  · exact (run log).series.ascending.imp utf8Bytes_lt_iff.2
  · exact NameMap.find?_eq_some_iff.symm
  · -- the names of the map are distinct, so their number is that of the set mentioned in the log
    have hnames : (run log).series.names.toFinset = (names (pairs log) (pushed log)).toFinset := by
      ext name
      rw [List.mem_toFinset, List.mem_toFinset, names_run]
    rw [← hnames, List.toFinset_card_of_nodup (run log).series.nodup_names, size, NameMap.size,
      NameMap.names, List.length_map]

end History

/-! ## Runs -/

/-- The series that some measurements make. -/
def Series.ofMeasurements (ms : List Measurement) : Series :=
  ⟨ms.map (·.value), (ms.filterMap fun m => m.unit.filter (· ≠ "")).getLast?⟩

theorem Series.length_values (ms : List Measurement) :
    (ofMeasurements ms).values.length = ms.length :=
  List.length_map _

theorem Series.values_drop (ms : List Measurement) (n : Nat) :
    (ofMeasurements (ms.drop n)).values = (ofMeasurements ms).values.drop n :=
  List.map_drop

theorem Series.values_append (older newer : List Measurement) :
    (ofMeasurements (older ++ newer)).values =
      (ofMeasurements older).values ++ (ofMeasurements newer).values :=
  List.map_append

/-- A unit given later replaces those before it. -/
theorem Series.unit_ofMeasurements_append (older : List Measurement) {newer : List Measurement}
    (h : ∃ m ∈ newer, ∃ u, m.unit = some u ∧ u ≠ "") :
    (ofMeasurements (older ++ newer)).unit = (ofMeasurements newer).unit := by
  have hne : newer.filterMap (fun m => m.unit.filter (· ≠ "")) ≠ [] := by
    obtain ⟨m, hm, u, hu, hnonempty⟩ := h
    have hfilter : m.unit.filter (· ≠ "") = some u := by simp [hu, hnonempty]
    exact List.ne_nil_of_mem (List.mem_filterMap.2 ⟨m, hm, hfilter⟩)
  simp only [ofMeasurements, List.filterMap_append]
  rw [List.getLast?_append_of_ne_nil _ hne]

namespace History

/-- What was measured under a name, oldest first. -/
def measured (runs : List Run) (name : String) : List Measurement :=
  (runs.flatMap (·.measurements)).filter fun m => m.name == name

theorem measured_append (older newer : List Run) (name : String) :
    measured (older ++ newer) name = measured older name ++ measured newer name := by
  rw [measured, List.flatMap_append, List.filter_append]
  rfl

/-- Under each name is what was measured under it. -/
theorem find?_ofRuns (runs : List Run) (name : String) :
    (ofRuns runs).find? name =
      if measured runs name = [] then none else some (.ofMeasurements (measured runs name)) := by
  have hfind := find?_pushMeasurements find?_empty (runs.flatMap (·.measurements)) name
  have hnames : name ∈ Log.names [] (runs.flatMap (·.measurements)) ↔ measured runs name ≠ [] := by
    unfold measured
    generalize runs.flatMap (·.measurements) = ms
    simp [Log.names, List.filter_eq_nil_iff]
  rw [← ofRuns, List.nil_append, Log.told] at hfind
  simp only [hnames] at hfind
  rw [hfind, ite_not]
  rfl

end History

end Slowdown
