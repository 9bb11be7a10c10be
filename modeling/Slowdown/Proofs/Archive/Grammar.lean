/-
The grammar of a suite: which JSON values write measurements, runs and lists of runs, and what
they write. The runs of a suite can be had exactly if its value is of this grammar, and are then
what the value writes.
-/
import Slowdown.Archive.File
import Slowdown.Proofs.Archive.Document
import Slowdown.Proofs.Json.Number
import Mathlib.Data.List.Forall2

namespace Slowdown

namespace Archive

/-! ## The grammar -/

/-- A unit is written by a string. Whatever else stands in its place, or nothing, writes none. -/
def WritesUnit (place : Option Json) (unit : Option String) : Prop :=
  ∀ s, unit = some s ↔ place = some (.string s)

/-- A measurement is written by an object with its members, or by the list of their values, from
which the unit can be absent. -/
inductive WritesMeasurement : Json → Measurement → Prop where
  | members {ms : List (String × Json)} {name : String} {n : Numeral} {unit : Option String}
      (hname : Json.member? ms "name" = some (.string name))
      (hvalue : Json.member? ms "value" = some (.number n))
      (hunit : WritesUnit (Json.member? ms "unit") unit) :
      WritesMeasurement (.object ms) ⟨name, (Json.Number.ofNumeral n).toDouble, unit⟩
  | pair {name : String} {n : Numeral} :
      WritesMeasurement (.array [.string name, .number n])
        ⟨name, (Json.Number.ofNumeral n).toDouble, none⟩
  | triple {name : String} {n : Numeral} {place : Json} {unit : Option String}
      (hunit : WritesUnit (some place) unit) :
      WritesMeasurement (.array [.string name, .number n, place])
        ⟨name, (Json.Number.ofNumeral n).toDouble, unit⟩

/-- A list is written by an array, item by item. -/
inductive WritesList {α : Type} (Writes : Json → α → Prop) : Json → List α → Prop where
  | items {items : List Json} {xs : List α} (h : List.Forall₂ Writes items xs) :
      WritesList Writes (.array items) xs

/-- A run is written by an object or by the list of its one member, which can be absent. -/
inductive WritesRun : Json → Run → Prop where
  | bare {ms : List (String × Json)} (hbenches : Json.member? ms "benches" = none) :
      WritesRun (.object ms) ⟨[]⟩
  | members {ms : List (String × Json)} {v : Json} {benches : List Measurement}
      (hbenches : Json.member? ms "benches" = some v)
      (h : WritesList WritesMeasurement v benches) : WritesRun (.object ms) ⟨benches⟩
  | empty : WritesRun (.array []) ⟨[]⟩
  | single {v : Json} {benches : List Measurement}
      (h : WritesList WritesMeasurement v benches) : WritesRun (.array [v]) ⟨benches⟩

/-- The runs of a suite are written by a list of runs. -/
abbrev WritesRuns : Json → List Run → Prop := WritesList WritesRun

/-! ## Results -/

section

variable {α β ε : Type} {x : Except ε α} {b : β}

theorem bind_eq_ok_iff {f : α → Except ε β} : x >>= f = .ok b ↔ ∃ a, x = .ok a ∧ f a = .ok b := by
  cases x <;> simp [bind, Except.bind]

theorem map_eq_ok_iff {f : α → β} : f <$> x = .ok b ↔ ∃ a, x = .ok a ∧ f a = b := by
  cases x <;> simp [Functor.map, Except.map]

theorem option_mapM_eq_ok_iff {f : α → Except ε β} {o : Option α} :
    o.mapM f = .ok (some b) ↔ ∃ a, o = some a ∧ f a = .ok b := by
  cases o with
  | none => simp [Option.mapM_none, pure, Except.pure]
  | some a => simp [Option.mapM_some, map_eq_ok_iff]

/-- A list is mapped exactly if each of its items is. -/
theorem mapM_eq_ok_iff {f : α → Except ε β} {R : α → β → Prop}
    (hf : ∀ a b, f a = .ok b ↔ R a b) {as : List α} {bs : List β} :
    as.mapM f = .ok bs ↔ List.Forall₂ R as bs := by
  induction as generalizing bs with
  | nil => simp [pure, Except.pure, eq_comm]
  | cons a as ih =>
    rw [List.mapM_cons, List.forall₂_cons_left_iff]
    simp only [bind_eq_ok_iff, hf, ih, pure, Except.pure, Except.ok.injEq]
    constructor
    · rintro ⟨b, hb, rest, hrest, rfl⟩
      exact ⟨b, rest, hb, hrest, rfl⟩
    · rintro ⟨b, rest, hb, hrest, rfl⟩
      exact ⟨b, hb, rest, hrest, rfl⟩

end

/-! ## Measurements -/

theorem nameOf_eq_ok_iff {v : Json} {name : String} : nameOf v = .ok name ↔ v = .string name := by
  cases v <;> simp [nameOf]

theorem valueOf_eq_ok_iff {v : Json} {x : Double} :
    valueOf v = .ok x ↔ ∃ n, v = .number n ∧ x = (Json.Number.ofNumeral n).toDouble := by
  cases v <;> simp [valueOf, eq_comm]

theorem writesUnit_iff {place : Option Json} {unit : Option String} :
    WritesUnit place unit ↔ unit = place.bind unitOf := by
  have reads : WritesUnit place (place.bind unitOf) := by
    intro s
    cases place with
    | none => simp
    | some v => cases v <;> simp [unitOf]
  constructor
  · intro h
    exact Option.ext fun s => (h s).trans (reads s).symm
  · rintro rfl
    exact reads

theorem measurementOf_of_writes {v : Json} {m : Measurement} (h : WritesMeasurement v m) :
    measurementOf v = .ok m := by
  cases h with
  | members hname hvalue hunit =>
    rw [writesUnit_iff.1 hunit]
    simp [measurementOf, hname, hvalue, nameOf, valueOf, Option.mapM_some, Functor.map,
      Except.map, bind, Except.bind]
  | pair => rfl
  | triple hunit =>
    rw [writesUnit_iff.1 hunit]
    rfl

theorem writes_of_measurementOf {v : Json} {m : Measurement} (h : measurementOf v = .ok m) :
    WritesMeasurement v m := by
  -- of an object name and value are looked at before either is missed
  unfold measurementOf at h
  split at h
  · rename_i ms
    obtain ⟨name, hname, h⟩ := bind_eq_ok_iff.1 h
    obtain ⟨value, hvalue, h⟩ := bind_eq_ok_iff.1 h
    split at h
    · cases h
    · cases h
    · cases h
      obtain ⟨u, hu, hname⟩ := option_mapM_eq_ok_iff.1 hname
      obtain ⟨v, hv, hvalue⟩ := option_mapM_eq_ok_iff.1 hvalue
      obtain rfl := nameOf_eq_ok_iff.1 hname
      obtain ⟨n, rfl, rfl⟩ := valueOf_eq_ok_iff.1 hvalue
      exact .members hu hv (writesUnit_iff.2 rfl)
  · cases h
  · obtain ⟨_, -, h⟩ := bind_eq_ok_iff.1 h
    cases h
  · rename_i u v more
    obtain ⟨name, hname, h⟩ := bind_eq_ok_iff.1 h
    obtain ⟨value, hvalue, h⟩ := bind_eq_ok_iff.1 h
    obtain rfl := nameOf_eq_ok_iff.1 hname
    obtain ⟨n, rfl, rfl⟩ := valueOf_eq_ok_iff.1 hvalue
    split at h
    · cases h
      exact .pair
    · cases h
      exact .triple (writesUnit_iff.2 rfl)
    · cases h
  · cases h

/-- The values taken as measurements are those that write one. -/
theorem measurementOf_eq_ok_iff (v : Json) (m : Measurement) :
    measurementOf v = .ok m ↔ WritesMeasurement v m :=
  ⟨writes_of_measurementOf, measurementOf_of_writes⟩

theorem measurementsOf_eq_ok_iff {v : Json} {ms : List Measurement} :
    measurementsOf v = .ok ms ↔ WritesList WritesMeasurement v ms := by
  constructor
  · intro h
    unfold measurementsOf at h
    split at h
    · exact .items ((mapM_eq_ok_iff measurementOf_eq_ok_iff).1 h)
    · cases h
  · rintro ⟨h⟩
    exact (mapM_eq_ok_iff measurementOf_eq_ok_iff).2 h

/-! ## Runs -/

theorem runOf_of_writes {v : Json} {r : Run} (h : WritesRun v r) : runOf v = .ok r := by
  cases h with
  | bare hbenches => simp [runOf, hbenches]
  | members hbenches h =>
    simp [runOf, hbenches, measurementsOf_eq_ok_iff.2 h, Functor.map, Except.map]
  | empty => rfl
  | single h => simp [runOf, measurementsOf_eq_ok_iff.2 h, bind, Except.bind]

theorem writes_of_runOf {v : Json} {r : Run} (h : runOf v = .ok r) : WritesRun v r := by
  unfold runOf at h
  split at h
  · split at h
    · rename_i habsent
      cases h
      exact .bare habsent
    · rename_i v hbenches
      obtain ⟨benches, hv, rfl⟩ := map_eq_ok_iff.1 h
      exact .members hbenches (measurementsOf_eq_ok_iff.1 hv)
  · cases h
    exact .empty
  · obtain ⟨benches, hv, hrun⟩ := bind_eq_ok_iff.1 h
    split at hrun
    · rename_i hmore
      subst hmore
      cases hrun
      exact .single (measurementsOf_eq_ok_iff.1 hv)
    · cases hrun
  · cases h

/-- The values taken as runs are those that write one. -/
theorem runOf_eq_ok_iff (v : Json) (r : Run) : runOf v = .ok r ↔ WritesRun v r :=
  ⟨writes_of_runOf, runOf_of_writes⟩

theorem runsOf_eq_ok_iff {v : Json} {runs : List Run} :
    runsOf v = .ok runs ↔ WritesRuns v runs := by
  constructor
  · intro h
    unfold runsOf at h
    split at h
    · exact .items ((mapM_eq_ok_iff runOf_eq_ok_iff).1 h)
    · cases h
  · rintro ⟨h⟩
    exact (mapM_eq_ok_iff runOf_eq_ok_iff).2 h

/-! ## Suites -/

theorem suite?_ofList {suites : List (String × Json)} {name : String} :
    suite? ⟨.ofList suites⟩ name = (Json.member? suites name).mapM runsOf := by
  rw [suite?, NameMap.find?_ofMembers]

theorem suiteRuns_of_absent {suites : List (String × Json)} {name : String}
    (h : Json.member? suites name = none) : suiteRuns ⟨.ofList suites⟩ name = .ok none := by
  rw [suiteRuns, suite?_ofList, h]
  rfl

theorem suiteRuns_of_present {suites : List (String × Json)} {name : String} {v : Json}
    (h : Json.member? suites name = some v) :
    suiteRuns ⟨.ofList suites⟩ name = ((runsOf v).map some).mapError (.badSuite name) := by
  rw [suiteRuns, suite?_ofList, h]
  rfl

theorem mem_suiteNames {suites : List (String × Json)} {name : String} :
    name ∈ suiteNames ⟨.ofList suites⟩ ↔ name ∈ suites.map (·.1) := by
  rw [suiteNames, NameMap.mem_names_iff, NameMap.find?_ofMembers, ← not_iff_not,
    ← Json.member?_eq_none_iff, Bool.not_eq_true, Option.isSome_eq_false_iff,
    Option.isNone_iff_eq_none]

/-- What an archive made of the members of a document has to tell of each suite. -/
structure Tells (a : Archive) (suites : List (String × Json)) : Prop where
  /-- The names of the suites, each once and in order of their UTF-8 bytes. -/
  ascending : a.suiteNames.Pairwise fun s t => utf8Bytes s < utf8Bytes t
  named : ∀ name, name ∈ a.suiteNames ↔ name ∈ suites.map (·.1)
  absent : ∀ name, Json.member? suites name = none → a.suiteRuns name = .ok none
  /-- Of a value of the grammar, what it writes. -/
  written : ∀ name v, Json.member? suites name = some v →
    ∀ runs, a.suiteRuns name = .ok (some runs) ↔ WritesRuns v runs
  /-- Of any other value, a failure that names the suite. -/
  refused : ∀ name v, Json.member? suites name = some v → (¬∃ runs, WritesRuns v runs) →
    ∃ mismatch, a.suiteRuns name = .error (.badSuite name mismatch)

theorem tells_ofList (suites : List (String × Json)) : Tells ⟨.ofList suites⟩ suites where
  ascending := (NameMap.names_ascending _).imp utf8Bytes_lt_iff.2
  named _ := mem_suiteNames
  absent _ := suiteRuns_of_absent
  written name v hv runs := by
    rw [suiteRuns_of_present hv, ← runsOf_eq_ok_iff]
    cases runsOf v <;> simp [Except.map, Except.mapError]
  refused name v hv hnone := by
    rw [suiteRuns_of_present hv]
    cases hruns : runsOf v with
    | error mismatch => exact ⟨mismatch, rfl⟩
    | ok runs => exact absurd ⟨runs, runsOf_eq_ok_iff.1 hruns⟩ hnone

/-- An archive tells of each suite of its document what the value under its name, the last one,
writes: nothing but the grammar decides. In a document that is a tree the suites are the members
of its one object of that name. A number that is read as an integer becomes the nearest double. -/
theorem suites_by_grammar {text : String} {a : Archive} (h : parse text = .ok a) :
    ∃ suites, document (Json.tokens (unwrap text.toList)) = .ok (suites, []) ∧
      a.Tells suites ∧
      (∀ top members, Json.ofText (unwrap text.toList) = .ok (.object top) →
        (top.map (·.1)).Nodup → Json.member? top entriesName = some (.object members) →
        suites = members) ∧
      ∀ (n : Numeral) (k : Int), Json.Number.ofNumeral n = .whole k →
        n.whole? = some k ∧
          (Json.Number.ofNumeral n).toDouble.IsNearest (k * Double.unitsPerOne) 1 := by
  obtain ⟨suites, hdocument, rfl⟩ := parse_eq_ok_iff.1 h
  refine ⟨suites, hdocument, tells_ofList suites, fun top members holds unique hmembers => ?_,
    fun _ _ => Json.Number.isNearest_of_whole⟩
  obtain ⟨within, htokens⟩ := Json.ofText_eq_ok_iff.1 holds
  rw [htokens, document_spelling unique hmembers within] at hdocument
  cases hdocument
  rfl

/-- A document with a suite that holds a run of each form, and one that is no list of runs. -/
def mixedText : String :=
  "window.BENCHMARK_DATA = \x7b\"entries\":\x7b\"fast\":[\x7b\"date\":0,\"benches\":["
    ++ "\x7b\"name\":\"fib\",\"value\":3,\"unit\":\"ms\"\x7d,[\"gcd\",5]]\x7d,[]],"
    ++ "\"slow\":[7]\x7d\x7d;"

/-- Runs in both notations, and a suite that is none. -/
def mixedSuites : List (String × Json) :=
  [("fast", .array [
      .object [("date", .number (.ofNat 0)), ("benches", .array [
        .object [("name", .string "fib"), ("value", .number (.ofNat 3)), ("unit", .string "ms")],
        .array [.string "gcd", .number (.ofNat 5)]])],
      .array []]),
    ("slow", .array [.number (.ofNat 7)])]

theorem suites_by_grammar_mixed :
    ∃ a, parse mixedText = .ok a ∧
      a.suiteRuns "fast" = .ok (some [⟨[⟨"fib", 3, some "ms"⟩, ⟨"gcd", 5, none⟩]⟩, ⟨[]⟩]) ∧
      (∃ mismatch, a.suiteRuns "slow" = .error (.badSuite "slow" mismatch)) ∧
      a.suiteRuns "none" = .ok none := by
  have hdocument : document (Json.tokens (unwrap mixedText.toList)) = .ok (mixedSuites, []) := by
    cbv
  have holds := parse_eq_ok_iff.2 ⟨_, hdocument, rfl⟩
  obtain ⟨suites, hdocument', tells, -⟩ := suites_by_grammar holds
  obtain rfl : mixedSuites = suites := by
    rw [hdocument] at hdocument'
    cases hdocument'
    rfl
  have three : (3 : Double) = (Json.Number.ofNumeral (.ofNat 3)).toDouble := by decide +kernel
  have five : (5 : Double) = (Json.Number.ofNumeral (.ofNat 5)).toDouble := by decide +kernel
  refine ⟨_, holds, ?_, ?_, tells.absent "none" rfl⟩
  · rw [tells.written "fast" _ rfl, three, five]
    refine ⟨.cons (.members rfl ⟨.cons ?_ (.cons .pair .nil)⟩) (.cons .empty .nil)⟩
    exact .members rfl rfl (writesUnit_iff.2 rfl)
  · refine tells.refused "slow" _ rfl ?_
    rintro ⟨_, ⟨_ | ⟨⟨⟩, _⟩⟩⟩

end Archive

end Slowdown
