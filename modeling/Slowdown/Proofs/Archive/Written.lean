/-
Runs written into a history file. The text of a list of runs, put under the name of a suite, is
read as these runs, wrapped or not, as far as JSON can write their values: infinities and NaN
become null, and the suite is then refused.
-/
import Slowdown.Proofs.Archive.Grammar
import Slowdown.Proofs.Archive.Wrapper
import Slowdown.Proofs.Report.Reading

namespace Slowdown

/-! ## Values -/

/-- The double that the numeral of a double is read as. -/
def Double.reread (x : Double) : Double :=
  (Json.Number.ofNumeral (Json.layout.numeral x)).toDouble

/-- The JSON text of a double is that of a number, which is read as the same double. -/
def Double.ReadsBack (x : Double) : Prop :=
  ∃ n, Json.ofText (Json.ofDouble x).compact = .ok (.number n) ∧
    (Json.Number.ofNumeral n).toDouble = x

/-- A printed tree within the limits of the reader is read as it is. -/
theorem Json.ofText_compact {v : Json} (printable : Printable v) (readable : Readable maxDepth v) :
    ofText v.compact = .ok v :=
  ofText_eq_ok_iff.2 ⟨readable, tokens_compact printable⟩

theorem Double.readsBack_iff {x : Double} :
    x.ReadsBack ↔ x.isFinite = true ∧ x.reread = x := by
  have hread : Json.ofText (Json.ofDouble x).compact = .ok (Json.ofDouble x) :=
    Json.ofText_compact (@Json.Closed.double _ Json.closed_printable 0 (some x))
      (Json.closed_readable.double (some x))
  rw [ReadsBack, hread, Json.ofDouble]
  split_ifs with hx
  · simp [hx, reread]
  · simp [hx]

/-- The reader rounds more than once, so not every double is read back. -/
example : (3 / 2 : Double).reread = 3 / 2 ∧
    (Double.ofDecimal 1 23).reread ≠ Double.ofDecimal 1 23 := by
  decide +kernel

/-- A measurement with the value that its text is read as. -/
def Measurement.reread (m : Measurement) : Measurement := { m with value := m.value.reread }

/-- A run with the values that their texts are read as. -/
def Run.reread (r : Run) : Run := ⟨r.measurements.map Measurement.reread⟩

/-- All values of a run fulfil a condition. -/
def Run.AllValues (P : Double → Prop) (r : Run) : Prop := ∀ m ∈ r.measurements, P m.value

namespace Archive

/-! ## What written runs are read as -/

/-- The failure that a null in the place of a value leads to. -/
def nullValue : Mismatch := .wrongType .null .value

/-- A result that depends on whether all values can be written. -/
structure ReadIf {α : Type} (P : Prop) (result : Except Mismatch α) (a : α) : Prop where
  ok : P → result = .ok a
  refused : ¬P → result = .error nullValue

theorem ReadIf.map {α β : Type} {P : Prop} {result : Except Mismatch α} {a : α}
    (h : ReadIf P result a) (f : α → β) : ReadIf P (f <$> result) (f a) where
  ok hP := by rw [h.ok hP]; rfl
  refused hP := by rw [h.refused hP]; rfl

/-- A list is read if each item is; the first that cannot be read settles the failure. -/
theorem ReadIf.mapM {α β γ : Type} {P : α → Prop} {write : α → β} {read : β → Except Mismatch γ}
    {again : α → γ} {as : List α} (h : ∀ a ∈ as, ReadIf (P a) (read (write a)) (again a)) :
    ReadIf (∀ a ∈ as, P a) ((as.map write).mapM read) (as.map again) := by
  induction as with
  | nil => exact ⟨fun _ => rfl, fun hP => absurd (List.forall_mem_nil P) hP⟩
  | cons a as ih =>
    have first := h a List.mem_cons_self
    have rest := ih fun b hb => h b (List.mem_cons_of_mem a hb)
    rw [List.map_cons, List.mapM_cons, List.forall_mem_cons]
    refine ⟨fun ⟨ha, has⟩ => ?_, fun hP => ?_⟩
    · rw [first.ok ha, rest.ok has]
      rfl
    · by_cases ha : P a
      · rw [first.ok ha, rest.refused fun has => hP ⟨ha, has⟩]
        rfl
      · rw [first.refused ha]
        rfl

theorem readIf_valueOf (x : Double) :
    ReadIf (x.isFinite = true) (valueOf (.ofDouble x)) x.reread where
  ok hx := by rw [Json.ofDouble, if_pos hx]; rfl
  refused hx := by rw [Json.ofDouble, if_neg hx]; rfl

theorem measurementOf_toJson (m : Measurement) :
    measurementOf m.toJson = (fun x => ⟨m.name, x, m.unit⟩) <$> valueOf (.ofDouble m.value) := by
  obtain ⟨name, value, unit⟩ := m
  generalize hms : [("name", Json.string name), ("value", Json.ofDouble value)]
    ++ (unit.map fun unit => ("unit", Json.string unit)).toList = ms
  have hname : Json.member? ms "name" = some (.string name) := by
    subst hms
    cases unit <;> rfl
  have hvalue : Json.member? ms "value" = some (.ofDouble value) := by
    subst hms
    cases unit <;> rfl
  have hunit : (Json.member? ms "unit").bind unitOf = unit := by
    subst hms
    cases unit <;> rfl
  rw [Measurement.toJson, hms, measurementOf, hname, hvalue, hunit, Option.mapM_some,
    Option.mapM_some, nameOf]
  cases valueOf (.ofDouble value) <;> rfl

theorem readIf_measurementOf (m : Measurement) :
    ReadIf (m.value.isFinite = true) (measurementOf m.toJson) m.reread := by
  rw [measurementOf_toJson]
  exact (readIf_valueOf m.value).map _

theorem readIf_runOf (r : Run) :
    ReadIf (r.AllValues fun x => x.isFinite = true) (runOf r.toJson) r.reread :=
  (ReadIf.mapM fun m _ => readIf_measurementOf m).map Run.mk

theorem readIf_runsOf (runs : List Run) :
    ReadIf (∀ r ∈ runs, r.AllValues fun x => x.isFinite = true) (runsOf (runsToJson runs))
      (runs.map Run.reread) :=
  ReadIf.mapM fun r _ => readIf_runOf r

theorem map_eq_self_iff {α : Type} {f : α → α} {as : List α} :
    as.map f = as ↔ ∀ a ∈ as, f a = a := by
  simpa using List.map_inj_left (l := as) (f := f) (g := id)

/-- Runs stay the same exactly if each value does. -/
theorem map_reread_eq_iff {runs : List Run} :
    runs.map Run.reread = runs ↔ ∀ r ∈ runs, r.AllValues fun x => x.reread = x := by
  have hmeasurement (m : Measurement) : m.reread = m ↔ m.value.reread = m.value := by
    obtain ⟨name, value, unit⟩ := m
    simp [Measurement.reread]
  have hrun (r : Run) : r.reread = r ↔ r.AllValues fun x => x.reread = x := by
    obtain ⟨measurements⟩ := r
    simp only [Run.reread, Run.mk.injEq, map_eq_self_iff, hmeasurement, Run.AllValues]
  simp only [map_eq_self_iff, hrun]

/-- Runs are read as they were written exactly if each value is read back. -/
theorem runsOf_runsToJson_eq_ok_iff {runs : List Run} :
    runsOf (runsToJson runs) = .ok runs ↔ ∀ r ∈ runs, r.AllValues Double.ReadsBack := by
  have h := readIf_runsOf runs
  by_cases hfinite : ∀ r ∈ runs, r.AllValues fun x => x.isFinite = true
  · rw [h.ok hfinite, Except.ok.injEq, map_reread_eq_iff]
    refine forall₂_congr fun r hr => forall₂_congr fun m hm => ?_
    rw [Double.readsBack_iff, and_iff_right (hfinite r hr m hm)]
  · rw [h.refused hfinite]
    refine iff_of_false nofun fun hback => hfinite fun r hr m hm => ?_
    exact (Double.readsBack_iff.1 (hback r hr m hm)).1

theorem runsOf_runsToJson_eq_error_iff {runs : List Run} :
    runsOf (runsToJson runs) = .error nullValue ↔
      ∃ r ∈ runs, ∃ m ∈ r.measurements, m.value.isFinite = false := by
  have h := readIf_runsOf runs
  by_cases hfinite : ∀ r ∈ runs, r.AllValues fun x => x.isFinite = true
  · rw [h.ok hfinite]
    refine iff_of_false nofun ?_
    rintro ⟨r, hr, m, hm, hinfinite⟩
    exact Bool.false_ne_true (hinfinite.symm.trans (hfinite r hr m hm))
  · rw [h.refused hfinite]
    simpa [Run.AllValues] using hfinite

/-! ## Documents -/

/-- The document of one suite, whose text is given. -/
def documentText (suite text : String) : String :=
  "\x7b\"entries\":\x7b" ++ (Json.string suite).compactText ++ ":" ++ text ++ "\x7d\x7d"

/-- A document as it stands in a script: an assignment in front, a semicolon behind, or neither. -/
def wrapped (assigned closed : Bool) (text : String) : String :=
  (if assigned then "window.BENCHMARK_DATA = " else "") ++ text ++ if closed then ";" else ""

theorem toList_wrapped (assigned closed : Bool) (text : String) :
    (wrapped assigned closed text).toList =
      (if assigned then assignment else []) ++ (text.toList ++ if closed then [';'] else []) := by
  rw [wrapped, String.toList_append, String.toList_append, apply_ite String.toList,
    apply_ite String.toList, List.append_assoc]
  rfl

/-- Of a document that is an object, its wrapper is taken off and nothing else. -/
theorem unwrap_wrapped (assigned closed : Bool) {text : String} {inner : List Char}
    (htext : text.toList = '{' :: inner ++ ['}']) :
    unwrap (wrapped assigned closed text).toList = text.toList := by
  have bracketed : IsBracketed text.toList := by
    rw [htext]
    exact isBracketed_of_ends (.inl rfl) (.inl rfl) rfl
  have haround : (wrapped assigned closed text).toList =
      Wrapper.around ⟨assigned, [], [], closed, [], rfl, rfl, rfl⟩ text.toList := by
    simp [toList_wrapped, Wrapper.around, Wrapper.front, Wrapper.tail]
  rw [haround, unwrap_around _ bracketed.isCore, ite_self, List.append_nil]
  -- without an assignment of its own the text begins with a brace
  rintro rfl ⟨rest, hrest⟩
  rw [htext] at hrest
  cases hrest

/-- The document of the runs of a suite as a tree. -/
def documentTree (suite : String) (runs : List Run) : Json :=
  .object [(entriesName, .object [(suite, runsToJson runs)])]

theorem toList_documentText (suite : String) (runs : List Run) :
    (documentText suite (runsToJson runs).compactText).toList =
      (documentTree suite runs).compact := by
  have hname : Json.stringText entriesName = "\"entries\"".toList := by decide
  simp [documentText, documentTree, Json.compact, Json.compactMembers, Json.compactText, hname]

/-- The document goes six levels deep, however many runs and whatever names and units there are. -/
theorem closed_documentTree {P : Nat → Json → Prop} (closed : Json.Closed P) {room : Nat}
    (suite : String) (runs : List Run) : P (room + 6) (documentTree suite runs) := by
  -- a level of depth for every array or object around a value
  have hmeasurement (m : Measurement) : P (room + 1) m.toJson := by
    refine closed.object fun member hmember => ?_
    simp only [List.cons_append, List.nil_append, List.mem_cons, Option.mem_toList,
      Option.map_eq_some_iff] at hmember
    obtain rfl | rfl | ⟨unit, -, rfl⟩ := hmember
    · exact closed.string m.name
    · exact closed.double (some m.value)
    · exact closed.string unit
  have hrun (r : Run) : P (room + 3) r.toJson := by
    refine closed.object fun member hmember => ?_
    obtain rfl := List.mem_singleton.1 hmember
    exact closed.array (List.forall_mem_map.2 fun m _ => hmeasurement m)
  refine closed.object fun member hmember => ?_
  obtain rfl := List.mem_singleton.1 hmember
  refine closed.object fun member hmember => ?_
  obtain rfl := List.mem_singleton.1 hmember
  exact closed.array (List.forall_mem_map.2 fun r _ => hrun r)

theorem parse_wrapped (assigned closed : Bool) (suite : String) (runs : List Run) :
    parse (wrapped assigned closed (documentText suite (runsToJson runs).compactText)) =
      .ok ⟨.ofList [(suite, runsToJson runs)]⟩ := by
  have hwrapper := unwrap_wrapped assigned closed (toList_documentText suite runs)
  have hread : Json.ofText (documentTree suite runs).compact = .ok (documentTree suite runs) :=
    Json.ofText_compact (@closed_documentTree _ Json.closed_printable 0 suite runs)
      (closed_documentTree Json.closed_readable suite runs)
  rw [← toList_documentText, ← hwrapper] at hread
  exact parse_of_tree hread (List.nodup_singleton entriesName) rfl

/-- The text of a list of runs, as the one suite of a document and wrapped in any way, is read as
these runs exactly if the JSON text of each value is read as this value. If a value is infinite or
NaN, and only then, the document is read but the suite refused for a null. -/
theorem written_runs_read_back (runs : List Run) (suite : String) (assigned closed : Bool) :
    ∃ a, parse (wrapped assigned closed (documentText suite (runsToJson runs).compactText)) =
        .ok a ∧
      (a.suiteRuns suite = .ok (some runs) ↔ ∀ r ∈ runs, r.AllValues Double.ReadsBack) ∧
      (a.suiteRuns suite = .error (.badSuite suite nullValue) ↔
        ∃ r ∈ runs, ∃ m ∈ r.measurements, m.value.isFinite = false) := by
  have hmember : Json.member? [(suite, runsToJson runs)] suite = some (runsToJson runs) := by
    simp [Json.member?]
  refine ⟨_, parse_wrapped assigned closed suite runs, ?_, ?_⟩
  · rw [suiteRuns_of_present hmember, ← runsOf_runsToJson_eq_ok_iff]
    cases runsOf (runsToJson runs) <;> simp [Except.map, Except.mapError]
  · rw [suiteRuns_of_present hmember, ← runsOf_runsToJson_eq_error_iff]
    cases runsOf (runsToJson runs) <;> simp [Except.map, Except.mapError]

end Archive

end Slowdown
