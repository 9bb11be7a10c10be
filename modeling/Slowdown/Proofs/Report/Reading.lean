/-
The document of a report as a reader finds it: the printed text is read as an object with a
member for each fact about the report, in a fixed order, and one object for each verdict.
-/
import Slowdown.Proofs.Json.Printing
import Slowdown.Proofs.Json.Range
import Slowdown.Proofs.Report.Views

namespace Slowdown

open Json

/-! ## What documents are made of -/

namespace Json

/-- A property of trees inside so many arrays and objects that goes from parts to the whole, and
holds of texts, doubles and sizes. -/
structure Closed (P : Nat → Json → Prop) : Prop where
  bool : ∀ {room : Nat} (b : Bool), P room (.bool b)
  string : ∀ {room : Nat} (s : String), P room (.string s)
  size : ∀ {room : Nat} (n : Size), P room (.ofNat n.toNat)
  double : ∀ {room : Nat} (x : Option Double), P room (.ofDouble? x)
  array : ∀ {room : Nat} {items : List Json}, (∀ v ∈ items, P room v) → P (room + 1) (.array items)
  object : ∀ {room : Nat} {members : List (String × Json)}, (∀ m ∈ members, P room m.2) →
    P (room + 1) (.object members)

theorem closed_printable : Closed fun _ => Printable where
  bool _ := .bool
  string _ := .string
  size _ := .number (Numeral.isWritten_ofNat _)
  double x := by
    cases x with
    | none => exact .null
    | some x =>
      rw [ofDouble?, ofDouble]
      split_ifs
      · exact .number (Decimal.isWritten_numeral layout x)
      · exact .null
  array := .array
  object := .object

theorem closed_readable : Closed Readable where
  bool _ := .bool
  string _ := .string
  size n := .number (Number.isFinite_ofNumeral_ofNat n.toNat_lt)
  double x := by
    cases x with
    | none => exact .null
    | some x =>
      rw [ofDouble?, ofDouble]
      split_ifs with hx
      · exact .number (Number.isFinite_ofNumeral_layout hx)
      · exact .null
  array := .array
  object := .object

end Json

section

variable {P : Nat → Json → Prop} (closed : Closed P) {room : Nat}

include closed

theorem Json.Closed.skipReason (reason : SkipReason) : P (room + 1) reason.toJson := by
  cases reason with
  | insufficientHistory points required =>
    refine closed.object fun m hm => ?_
    fin_cases hm
    · exact closed.string _
    · exact closed.size points
    · exact closed.size required
  | nonPositiveBaseline =>
    refine closed.object fun m hm => ?_
    fin_cases hm
    exact closed.string _

theorem Json.Closed.verdict (v : Verdict) : P (room + 2) v.toJson := by
  refine closed.object fun m hm => ?_
  simp only [List.mem_append, List.mem_cons, List.not_mem_nil, or_false, Option.mem_toList,
    Option.map_eq_some_iff] at hm
  obtain ((rfl | rfl | rfl | rfl | rfl) | ⟨reason, -, rfl⟩) | ⟨unit, -, rfl⟩ := hm
  · exact closed.string _
  · exact closed.string _
  · exact closed.double (some v.current)
  · exact closed.double _
  · exact closed.double _
  · exact closed.skipReason reason
  · exact closed.string _

theorem Json.Closed.policy (p : Policy) : P (room + 1) p.toJson := by
  refine closed.object fun m hm => ?_
  fin_cases hm
  · exact closed.size p.windowSize
  · exact closed.double (some p.threshold)
  · exact closed.size p.minHistory

/-- The count is all that is asked of a report, as the number of its verdicts is not bounded. -/
theorem Json.Closed.documentOf {r : Report} (hcount : P (room + 3) (.ofNat r.regressionCount))
    (suite : String) (found : Bool) : P (room + 4) (Report.documentOf suite found r) := by
  refine closed.object fun m hm => ?_
  fin_cases hm
  · exact closed.string _
  · exact closed.bool _
  · exact closed.policy r.policy
  · exact hcount
  · exact closed.bool _
  · refine closed.array fun item hitem => ?_
    obtain ⟨v, -, rfl⟩ := List.mem_map.1 hitem
    exact closed.verdict v

end

theorem Report.printable_documentOf (r : Report) (suite : String) (found : Bool) :
    Printable (documentOf suite found r) :=
  @Closed.documentOf _ closed_printable 0 r (.number (Numeral.isWritten_ofNat _)) suite found

/-- The text of a document is the text of one JSON value. -/
theorem Report.tokens_documentOf (r : Report) (suite : String) (found : Bool) :
    tokens (documentOf suite found r).indentedText.toList =
      (documentOf suite found r).spelling := by
  rw [indentedText, String.toList_ofList]
  exact tokens_indented (r.printable_documentOf suite found) 0

/-- A document whose count has 64 bits is read as the tree that was printed. -/
theorem Report.ofText_documentOf {r : Report} (hcount : r.regressionCount < 2 ^ 64)
    (suite : String) (found : Bool) :
    ofText (documentOf suite found r).indentedText.toList = .ok (documentOf suite found r) := by
  refine ofText_eq_ok_iff.2 ⟨?_, r.tokens_documentOf suite found⟩
  exact closed_readable.documentOf (.number (Number.isFinite_ofNumeral_ofNat hcount)) suite found

/-! ## What documents say -/

namespace Json

/-- A count is told by its digits, which are read as a whole number. -/
def TellsCount (n : Nat) (v : Json) : Prop :=
  ∃ numeral, v = .number numeral ∧ Number.ofNumeral numeral = .whole n

/-- A double is told by the text of its shortest digits; what has no such text, or is absent, by
`null`. -/
inductive TellsDouble : Option Double → Json → Prop
  | finite {x : Double} (h : x.isFinite = true) :
    TellsDouble (some x) (.number (layout.numeral x))
  | nonFinite {x : Double} (h : x.isFinite = false) : TellsDouble (some x) .null
  | absent : TellsDouble none .null

theorem tellsCount_ofNat {n : Nat} (h : n < 2 ^ 64) : TellsCount n (ofNat n) := by
  refine ⟨_, rfl, Number.ofNumeral_eq_whole_iff.2 ⟨?_, by omega, by omega, nofun⟩⟩
  simp [Numeral.whole?, Numeral.ofNat]

theorem tellsDouble_ofDouble (x : Double) : TellsDouble (some x) (ofDouble x) := by
  unfold ofDouble
  cases hx : x.isFinite with
  | true => exact .finite hx
  | false => exact .nonFinite hx

theorem tellsDouble_ofDouble? (x : Option Double) : TellsDouble x (ofDouble? x) := by
  cases x with
  | none => exact .absent
  | some x => exact tellsDouble_ofDouble x

/-- An object whose status is that of a regression. -/
def saysRegression : Json → Bool
  | object members =>
    match member? members "status" with
    | some (string s) => s = "REGRESSION"
    | _ => false
  | _ => false

end Json

/-- What the members of a document say of the settings. -/
structure Policy.Told (p : Policy) (members : List (String × Json)) : Prop where
  names : members.map (·.1) = ["window_size", "threshold", "min_history"]
  windowSize : ∃ v, member? members "window_size" = some v ∧ TellsCount p.windowSize.toNat v
  threshold : ∃ v, member? members "threshold" = some v ∧ TellsDouble (some p.threshold) v
  minHistory : ∃ v, member? members "min_history" = some v ∧ TellsCount p.minHistory.toNat v

/-- What the members of a document say of a reason. -/
def SkipReason.Told (members : List (String × Json)) : SkipReason → Prop
  | insufficientHistory points required =>
    members.map (·.1) = ["kind", "points", "required"] ∧
      member? members "kind" = some (.string "insufficient_history") ∧
      (∃ v, member? members "points" = some v ∧ TellsCount points.toNat v) ∧
      ∃ v, member? members "required" = some v ∧ TellsCount required.toNat v
  | nonPositiveBaseline => members = [("kind", .string "non_positive_baseline")]

/-- The members for the reason and the unit are there exactly if the verdict has them. -/
structure Verdict.Told (v : Verdict) (members : List (String × Json)) : Prop where
  names : members.map (·.1) = ["name", "status", "current", "baseline", "ratio"]
    ++ (if v.reason.isSome then ["reason"] else []) ++ (if v.unit.isSome then ["unit"] else [])
  name : member? members "name" = some (.string v.name)
  status : member? members "status" = some (.string v.status.text)
  current : ∃ x, member? members "current" = some x ∧ TellsDouble (some v.current) x
  baseline : ∃ x, member? members "baseline" = some x ∧ TellsDouble v.baseline x
  ratio : ∃ x, member? members "ratio" = some x ∧ TellsDouble v.ratio x
  reason : ∀ reason ∈ v.reason, ∃ inner, member? members "reason" = some (.object inner) ∧
    reason.Told inner
  unit : ∀ unit ∈ v.unit, member? members "unit" = some (.string unit)

/-- What the members of a document say of a report: every member, and nothing besides. -/
structure Report.Told (r : Report) (suite : String) (members : List (String × Json)) : Prop where
  names : members.map (·.1) =
    ["suite", "history_found", "config", "regression_count", "passed", "verdicts"]
  suite : member? members "suite" = some (.string suite)
  found : member? members "history_found" = some (.bool true)
  config : ∃ inner, member? members "config" = some (.object inner) ∧ r.policy.Told inner
  /-- One object for each verdict, in the order of the report, and as many that say a regression as
  the count says. -/
  verdicts : ∃ items, member? members "verdicts" = some (.array items) ∧
    List.Forall₂ (fun v item => ∃ inner, item = .object inner ∧ v.Told inner) r.verdicts items ∧
    (∃ x, member? members "regression_count" = some x ∧
      TellsCount (items.countP saysRegression) x) ∧
    member? members "passed" = some (.bool (items.countP saysRegression = 0))

theorem Policy.told_toJson (p : Policy) : ∃ inner, p.toJson = .object inner ∧ p.Told inner :=
  ⟨_, rfl, rfl, ⟨_, rfl, tellsCount_ofNat p.windowSize.toNat_lt⟩, ⟨_, rfl, tellsDouble_ofDouble _⟩,
    ⟨_, rfl, tellsCount_ofNat p.minHistory.toNat_lt⟩⟩

theorem SkipReason.told_toJson (reason : SkipReason) :
    ∃ inner, reason.toJson = .object inner ∧ reason.Told inner := by
  cases reason with
  | insufficientHistory points required =>
    exact ⟨_, rfl, rfl, rfl, ⟨_, rfl, tellsCount_ofNat points.toNat_lt⟩,
      ⟨_, rfl, tellsCount_ofNat required.toNat_lt⟩⟩
  | nonPositiveBaseline => exact ⟨_, rfl, rfl⟩

theorem Verdict.told_toJson (v : Verdict) : ∃ inner, v.toJson = .object inner ∧ v.Told inner := by
  refine ⟨_, rfl, ?_⟩
  obtain ⟨name, status, current, baseline, ratio, reason, unit⟩ := v
  -- which members there are decides where they are found
  cases reason <;> cases unit
  all_goals
    refine ⟨rfl, rfl, rfl, ⟨_, rfl, tellsDouble_ofDouble _⟩, ⟨_, rfl, tellsDouble_ofDouble? _⟩,
      ⟨_, rfl, tellsDouble_ofDouble? _⟩, ?_, ?_⟩
    · rintro r ⟨⟩
      all_goals
        obtain ⟨inner, htext, told⟩ := SkipReason.told_toJson _
        exact ⟨inner, congrArg some htext, told⟩
    · rintro _ ⟨⟩
      all_goals rfl

theorem Verdict.Told.saysRegression {v : Verdict} {inner : List (String × Json)}
    (told : v.Told inner) : Json.saysRegression (.object inner) = v.isRegression := by
  rw [Json.saysRegression, told.status, Verdict.isRegression]
  cases v.status <;> rfl

namespace Report

/-- The objects of a document that say a regression are those of the regressions. -/
theorem countP_saysRegression (vs : List Verdict) :
    (vs.map Verdict.toJson).countP saysRegression = vs.countP Verdict.isRegression := by
  rw [List.countP_map]
  refine List.countP_congr fun v _ => ?_
  obtain ⟨inner, htext, told⟩ := v.told_toJson
  rw [Function.comp_apply, htext, told.saysRegression]

/-- The printed document of a report with less than `2^64` regressions is read as an object that
tells the report. -/
theorem document_reads_back (r : Report) (suite : String) (hcount : r.regressionCount < 2 ^ 64) :
    ∃ members, Json.ofText (r.document suite).indentedText.toList = .ok (.object members) ∧
      r.Told suite members := by
  have hmarked := countP_saysRegression r.verdicts
  refine ⟨_, ofText_documentOf hcount suite true, rfl, rfl, rfl, ?_, ?_⟩
  · obtain ⟨inner, htext, told⟩ := r.policy.told_toJson
    exact ⟨inner, congrArg some htext, told⟩
  · refine ⟨r.verdicts.map Verdict.toJson, rfl, ?_, ⟨_, rfl, ?_⟩, ?_⟩
    · rw [List.forall₂_map_right_iff]
      exact List.forall₂_same.2 fun v _ => v.told_toJson
    · rw [hmarked, ← regressionCount_eq]
      exact tellsCount_ofNat hcount
    · rw [hmarked, ← regressionCount_eq]
      rfl

/-- A benchmark that regressed, and one without a number that has too little history. -/
def mixedReport : Report where
  verdicts := [⟨"fib", .regression, 3, some 1, some 3, none, some "ms"⟩,
    ⟨"gcd", .skip, .nan, none, none, some (.insufficientHistory 2 3), none⟩]
  policy := ⟨5, .ofDecimal 20 2, 3⟩

theorem document_reads_back_mixed :
    ∃ members, Json.ofText (mixedReport.document "a \"b\"\n").indentedText.toList =
        .ok (.object members) ∧ mixedReport.Told "a \"b\"\n" members :=
  document_reads_back mixedReport _ (by decide)

end Report

end Slowdown
