/-
What a check does not read: documents that are alike in one suite, whatever else they hold, give
the same runs of that suite, or the same failure, and the same check.
-/
import Slowdown.Command.Check
import Slowdown.Proofs.Archive.Grammar
import Slowdown.Proofs.FileSystem
import Mathlib.Data.List.Forall2
import Mathlib.Data.Option.Basic

namespace Slowdown

/-! ## Alike documents -/

namespace Json

/-- Objects in which the same stands under some names. -/
def AgreeOn (names : List String) (ms ms' : List (String × Json)) : Prop :=
  ∀ name ∈ names, member? ms name = member? ms' name

/-- Equal values, or arrays whose items are alike one by one. -/
inductive ItemsAlike (Alike : Json → Json → Prop) : Json → Json → Prop where
  | refl {v : Json} : ItemsAlike Alike v v
  | items {vs vs' : List Json} (h : List.Forall₂ Alike vs vs') :
      ItemsAlike Alike (.array vs) (.array vs')

end Json

namespace Archive

/-- Equal values, or objects that agree on the members of a measurement. -/
inductive MeasurementsAlike : Json → Json → Prop where
  | refl {v : Json} : MeasurementsAlike v v
  | members {ms ms' : List (String × Json)} (h : Json.AgreeOn ["name", "value", "unit"] ms ms') :
      MeasurementsAlike (.object ms) (.object ms')

/-- Equal values, or objects whose measurements are alike. -/
inductive RunsAlike : Json → Json → Prop where
  | refl {v : Json} : RunsAlike v v
  | members {ms ms' : List (String × Json)}
      (h : Option.Rel (Json.ItemsAlike MeasurementsAlike)
        (Json.member? ms "benches") (Json.member? ms' "benches")) :
      RunsAlike (.object ms) (.object ms')

/-- Documents that both have a suite, with runs that are alike. -/
inductive AlikeIn (suite : String) : List (String × Json) → List (String × Json) → Prop where
  | entries {top top' suites suites' : List (String × Json)} {v v' : Json}
      (hsuites : Json.member? top entriesName = some (.object suites))
      (hsuites' : Json.member? top' entriesName = some (.object suites'))
      (hv : Json.member? suites suite = some v) (hv' : Json.member? suites' suite = some v')
      (h : Json.ItemsAlike RunsAlike v v') : AlikeIn suite top top'

/-! ## Equal runs -/

theorem mapM_eq_of_forall₂ {α β ε : Type} {f : α → Except ε β} {as bs : List α}
    (h : List.Forall₂ (fun a b => f a = f b) as bs) : as.mapM f = bs.mapM f := by
  induction h with
  | nil => rfl
  | cons hab _ ih => rw [List.mapM_cons, List.mapM_cons, hab, ih]

theorem measurementOf_eq {v v' : Json} (h : MeasurementsAlike v v') :
    measurementOf v = measurementOf v' := by
  cases h with
  | refl => rfl
  | members h =>
    have hname := h "name" (by simp)
    have hvalue := h "value" (by simp)
    have hunit := h "unit" (by simp)
    simp only [measurementOf, hname, hvalue, hunit]

theorem measurementsOf_eq {v v' : Json} (h : Json.ItemsAlike MeasurementsAlike v v') :
    measurementsOf v = measurementsOf v' := by
  cases h with
  | refl => rfl
  | items h => exact mapM_eq_of_forall₂ (h.imp fun _ _ => measurementOf_eq)

/-- Of an object only its measurements count. -/
theorem runOf_object (ms : List (String × Json)) :
    runOf (.object ms) =
      (Json.member? ms "benches").elim (.ok ⟨[]⟩) fun v => Run.mk <$> measurementsOf v := by
  rw [runOf]
  cases Json.member? ms "benches" <;> rfl

theorem runOf_eq {v v' : Json} (h : RunsAlike v v') : runOf v = runOf v' := by
  cases h with
  | refl => rfl
  | @members ms ms' h =>
    rw [runOf_object, runOf_object]
    -- from here on only what the two look-ups find matters
    generalize Json.member? ms "benches" = benches at h ⊢
    generalize Json.member? ms' "benches" = benches' at h ⊢
    cases h with
    | none => rfl
    | some h => rw [Option.elim_some, Option.elim_some, measurementsOf_eq h]

theorem runsOf_eq {v v' : Json} (h : Json.ItemsAlike RunsAlike v v') : runsOf v = runsOf v' := by
  cases h with
  | refl => rfl
  | items h => exact mapM_eq_of_forall₂ (h.imp fun _ _ => runOf_eq)

/-! ## Equal checks -/

/-- The archives of two alike documents tell the same of the suite. -/
theorem suiteRuns_eq_of_alike {text text' suite : String} {top top' : List (String × Json)}
    (holds : Json.ofText (unwrap text.toList) = .ok (.object top))
    (holds' : Json.ofText (unwrap text'.toList) = .ok (.object top'))
    (unique : (top.map (·.1)).Nodup) (unique' : (top'.map (·.1)).Nodup)
    (alike : AlikeIn suite top top') :
    ∃ a a', parse text = .ok a ∧ parse text' = .ok a' ∧
      a.suiteRuns suite = a'.suiteRuns suite ∧ a.suiteRuns suite ≠ .ok none := by
  obtain ⟨hsuites, hsuites', hv, hv', h⟩ := alike
  refine ⟨_, _, parse_of_tree holds unique hsuites, parse_of_tree holds' unique' hsuites', ?_, ?_⟩
  · rw [suiteRuns_of_present hv, suiteRuns_of_present hv', runsOf_eq h]
  · rw [suiteRuns_of_present hv]
    generalize runsOf _ = runs
    cases runs <;> exact nofun

end Archive

namespace Command

/-- Files of which one holds a text. -/
def Files.holding (files : Files) (path text : String) : Files :=
  { files with read := fun other => if other = path then .ok text.toUTF8 else files.read other }

theorem ofFile_holding {files : Files} {path text : String} {a : Archive}
    (hparse : Archive.parse text = .ok a) :
    Archive.ofFile path ((files.holding path text).read path) = .ok a := by
  have hread : (files.holding path text).read path = .ok text.toUTF8 := if_pos rfl
  simp only [Archive.ofFile, hread, Except.bind, decodeText_toUTF8, hparse]

/-- A check looks at a history file by way of the runs of its suite, unless the suite is absent. -/
theorem check_holding {files : Files} {setting : Option String} {call : Invocation}
    {text : String} {a : Archive} (hparse : Archive.parse text = .ok a)
    (hpresent : a.suiteRuns call.suite ≠ .ok none) :
    check (files.holding call.dataFile text) setting call =
      match policyOf (files.holding call.dataFile text) call with
      | .error f => failed [] f
      | .ok p =>
        let said := progress call.format ["Loading benchmark data from " ++ call.dataFile]
        match a.suiteRuns call.suite with
        | .error f => failed said (failureOfArchive f)
        | .ok runs => withHistory files setting call p (runs.getD []) said := by
  rw [check, ofFile_holding hparse]
  -- the policy is read first, whatever the data file holds
  cases policyOf (files.holding call.dataFile text) call with
  | error f => rfl
  | ok p =>
    cases hruns : a.suiteRuns call.suite with
    | error f => simp only [hruns]
    | ok runs =>
      cases runs with
      | none => exact absurd hruns hpresent
      | some runs =>
        simp only [hruns]
        rfl

/-- Documents that are alike in a suite give the same runs of it, or the same failure, and under
the same policy the same check: its status, its lines and its summary. -/
theorem check_eq_of_alike {text text' suite : String} {top top' : List (String × Json)}
    (holds : Json.ofText (Archive.unwrap text.toList) = .ok (.object top))
    (holds' : Json.ofText (Archive.unwrap text'.toList) = .ok (.object top'))
    (unique : (top.map (·.1)).Nodup) (unique' : (top'.map (·.1)).Nodup)
    (alike : Archive.AlikeIn suite top top') :
    (∃ a a', Archive.parse text = .ok a ∧ Archive.parse text' = .ok a' ∧
      a.suiteRuns suite = a'.suiteRuns suite) ∧
    ∀ (files : Files) (setting : Option String) (call : Invocation), call.suite = suite →
      policyOf (files.holding call.dataFile text) call =
        policyOf (files.holding call.dataFile text') call →
      check (files.holding call.dataFile text) setting call =
        check (files.holding call.dataFile text') setting call := by
  obtain ⟨a, a', ha, ha', hruns, hpresent⟩ :=
    Archive.suiteRuns_eq_of_alike holds holds' unique unique' alike
  refine ⟨⟨a, a', ha, ha', hruns⟩, ?_⟩
  rintro files setting call rfl hpolicy
  have hpresent' : a'.suiteRuns call.suite ≠ .ok none := hruns ▸ hpresent
  -- both checks are now the same function of policy and runs
  rw [check_holding ha hpresent, check_holding ha' hpresent', hpolicy, hruns]

/-- A document of one run, and one with more in it at every level. -/
def plainText : String :=
  "\x7b\"entries\":\x7b\"fast\":[\x7b\"benches\":["
    ++ "\x7b\"name\":\"fib\",\"value\":3\x7d]\x7d]\x7d\x7d"

/-- A suite with one measurement and nothing else. -/
def plainTree : List (String × Json) :=
  [("entries", .object [("fast", .array [.object [("benches", .array [
    .object [("name", .string "fib"), ("value", .number (.ofNat 3))]])]])])]

/-- The same measurement among members that are not read, and a second suite that is none. -/
def crowdedText : String :=
  "\x7b\"tool\":[null],\"entries\":\x7b\"slow\":7,\"fast\":[\x7b\"date\":\"\",\"benches\":["
    ++ "\x7b\"range\":\x7b\x7d,\"value\":3,\"name\":\"fib\"\x7d]\x7d]\x7d\x7d"

/-- The tree of that text. -/
def crowdedTree : List (String × Json) :=
  [("tool", .array [.null]),
    ("entries", .object [("slow", .number (.ofNat 7)),
      ("fast", .array [.object [("date", .string ""), ("benches", .array [
        .object [("range", .object []), ("value", .number (.ofNat 3)),
          ("name", .string "fib")]])]])])]

theorem check_eq_of_alike_crowded :
    (∃ a a', Archive.parse plainText = .ok a ∧ Archive.parse crowdedText = .ok a' ∧
      a.suiteRuns "fast" = a'.suiteRuns "fast") ∧
    check (Files.holding ⟨fun _ => .error .missing, fun _ _ => none⟩ "data.js" plainText)
        (some "summary.md") ⟨"data.js", "fast", none, .standard, .json, true⟩ =
      check (Files.holding ⟨fun _ => .error .missing, fun _ _ => none⟩ "data.js" crowdedText)
        (some "summary.md") ⟨"data.js", "fast", none, .standard, .json, true⟩ := by
  have plain : Json.ofText (Archive.unwrap plainText.toList) = .ok (.object plainTree) := by cbv
  have crowded : Json.ofText (Archive.unwrap crowdedText.toList) = .ok (.object crowdedTree) := by
    cbv
  have alike : Archive.AlikeIn "fast" plainTree crowdedTree := by
    refine .entries rfl rfl rfl rfl (.items (.cons (.members (.some ?_)) .nil))
    refine .items (.cons (.members fun name hname => ?_) .nil)
    fin_cases hname <;> rfl
  obtain ⟨same, h⟩ := check_eq_of_alike plain crowded (by decide) (by decide) alike
  refine ⟨same, h ⟨fun _ => .error .missing, fun _ _ => none⟩ (some "summary.md")
    ⟨"data.js", "fast", none, .standard, .json, true⟩ rfl ?_⟩
  simp only [policyOf]

end Command

end Slowdown
