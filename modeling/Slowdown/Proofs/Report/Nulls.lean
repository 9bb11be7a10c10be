/-
Where null stands in the document of a report on a text. It stands for what is absent, and for
the two numbers that can leave the finite range: a ratio, and the mean of two middle values.
-/
import Slowdown.Proofs.Double.Range
import Slowdown.Proofs.Report.Reading
import Slowdown.Proofs.Verdict.Numbers

namespace Slowdown

open Double Json

/-! ## Leaving the finite range -/

/-- A finite divisor into which the dividend goes `2^1024 - 2^970` times or more, so that the
quotient rounds to an infinity. -/
def QuotientOverflows (x y : Double) : Prop :=
  y.isFinite = true ∧ overflowUnits * y.units.natAbs ≤ x.units.natAbs * unitsPerOne

/-- The size is even and the two middle values add up to a magnitude of `2^1024 - 2^970` or more,
so that their sum rounds to an infinity. -/
def Sample.MiddleLeavesRange (values : List Double) : Prop :=
  values.length % 2 = 0 ∧ ∃ low high, (sort values)[values.length / 2 - 1]? = some low ∧
    (sort values)[values.length / 2]? = some high ∧
    overflowUnits ≤ (low.units + high.units).natAbs

/-- A ratio to a positive baseline is infinite only if the quotient overflows. -/
theorem isFinite_ratio_iff {x y : Double} (hx : x.isFinite = true) (hy : 0 < y) :
    (x / y).isFinite = false ↔ QuotientOverflows x y := by
  obtain ⟨hnan, hpos⟩ := zero_lt_iff.1 hy
  cases hfinite : y.isFinite with
  | true =>
    rw [← Bool.not_eq_true, isFinite_div_iff hx hfinite hpos.ne', Nat.not_lt, QuotientOverflows,
      and_iff_right hfinite]
  | false =>
    -- the baseline is infinite, and the ratio zero
    have hinfinite := isInfinite_of_not hnan hfinite
    have hy' : y = infinity false := eq_infinity hinfinite (zero_le_iff.2 ⟨hnan, hpos.le⟩)
    have hzero : (zero x.negative).isFinite = true := rfl
    rw [hy', div_infinity hx, hzero]
    exact iff_of_false nofun fun h => Bool.false_ne_true h.1

/-- The median of finite values is finite unless its middle leaves the range. -/
theorem Sample.isFinite_median? {values : List Double} (h : ∀ v ∈ values, v.isFinite = true)
    (hne : values ≠ []) :
    ∃ m, median? values = some m ∧ (m.isFinite = false ↔ MiddleLeavesRange values) := by
  have hlen := length_sort values
  have hpos := List.length_pos_iff.2 hne
  obtain ⟨low, high, hlow, hhigh, hcases⟩ :=
    middle?_eq (s := sort values) (List.length_pos_iff.1 (by omega))
  have hfl := h low (mem_sort.1 (mem_of_rank hlow))
  have hfh := h high (mem_sort.1 (mem_of_rank hhigh))
  rw [hlen] at hlow hhigh hcases
  -- only the sum of two middle values can leave the range
  rcases hcases with ⟨hodd, rfl, hmiddle⟩ | ⟨heven, hmiddle⟩
  · refine ⟨low, hmiddle, iff_of_false (by simp [hfl]) ?_⟩
    rintro ⟨heven, -⟩
    omega
  · refine ⟨(low + high) / 2, hmiddle, ?_⟩
    rw [isFinite_half (isNaN_add hfl hfh), ← Bool.not_eq_true, isFinite_add hfl hfh, Nat.not_lt]
    rw [show (values.length - 1) / 2 = values.length / 2 - 1 by omega] at hlow
    constructor
    · intro hover
      exact ⟨heven, low, high, hlow, hhigh, hover⟩
    · rintro ⟨-, _, _, hl, hh, hover⟩
      obtain rfl := Option.some.inj (hlow.symm.trans hl)
      obtain rfl := Option.some.inj (hhigh.symm.trans hh)
      exact hover

theorem Window.isFinite_baseline_iff {w : Window} (h : ∀ v ∈ w.values, v.isFinite = true) :
    w.baseline.isFinite = false ↔ Sample.MiddleLeavesRange w.retained := by
  have hretained : ∀ v ∈ w.retained, v.isFinite = true := fun v hv =>
    h v (w.mem_values_of_mem_candidates (w.retained_sublist.subset hv))
  rw [Window.baseline]
  by_cases hne : w.retained = []
  · rw [hne, Sample.median?, Sample.MiddleLeavesRange, sort_nil]
    refine iff_of_false (by decide +kernel) ?_
    rintro ⟨-, low, -, hlow, -⟩
    cases hlow
  · obtain ⟨m, hm, hiff⟩ := Sample.isFinite_median? hretained hne
    rw [hm]
    exact hiff

/-! ## The numbers of a verdict -/

/-- Which numbers of a verdict on a window are absent, and which are infinite. -/
structure Verdict.Ranged (v : Verdict) (w : Window) : Prop where
  current : v.current.isFinite = true
  lacking : v.baseline = none ↔ v.LacksHistory
  baseline : ∀ b, v.baseline = some b → (b.isFinite = false ↔ Sample.MiddleLeavesRange w.retained)
  skipped : v.ratio = none ↔ v.status = .skip
  ratio : ∀ q, v.ratio = some q →
    ∃ b, v.baseline = some b ∧ (q.isFinite = false ↔ QuotientOverflows v.current b)

theorem Series.ranged_verdict? {s : Series} {name : String} {p : Policy} {v : Verdict}
    (hfinite : ∀ x ∈ s.values, x.isFinite = true) (h : s.verdict? name p = some v) :
    ∃ w, Window.ofValues? s.values p.windowSize.toNat = some w ∧ v.Ranged w := by
  have sound := Series.sound_verdict? hfinite h
  obtain ⟨w, hw, rfl⟩ := Option.map_eq_some_iff.1 h
  have hvalues : ∀ x ∈ w.values, x.isFinite = true := fun x hx =>
    hfinite x (Window.mem_of_ofValues? hw hx)
  have hbaseline := Window.isFinite_baseline_iff hvalues
  refine ⟨w, hw, ?_⟩
  -- too few values, a baseline that says nothing, or a judgement
  rcases w.estimate_cases p with ⟨-, _, -, he⟩ | ⟨-, -, he⟩ | ⟨-, -, he⟩
  · rw [he] at sound ⊢
    exact ⟨sound.current, iff_of_true rfl ⟨_, _, rfl⟩, nofun, iff_of_true rfl rfl, nofun⟩
  · rw [he] at sound ⊢
    refine ⟨sound.current, iff_of_false nofun nofun, ?_, iff_of_true rfl rfl, nofun⟩
    rintro _ ⟨⟩
    exact hbaseline
  · rw [he] at sound ⊢
    have hjudged : (classify w.current w.baseline p.threshold).2 ≠ .skip := classify_ne_skip _ _ _
    obtain ⟨_, _, ⟨⟩, hpos, -⟩ := sound.judged hjudged
    refine ⟨sound.current, iff_of_false nofun nofun, ?_, iff_of_false nofun hjudged, ?_⟩
    · rintro _ ⟨⟩
      exact hbaseline
    · rintro _ ⟨⟩
      exact ⟨_, rfl, isFinite_ratio_iff sound.current hpos⟩

/-! ## The object of a verdict -/

namespace Json

/-- A number stands at a place, but null exactly under a condition. -/
def NumberUnless (absent : Prop) (place : Option Json) : Prop :=
  (absent → place = some .null) ∧ (¬absent → ∃ n, place = some (.number n))

theorem numberUnless_ofDouble? (x : Option Double) :
    NumberUnless (x = none ∨ ∃ y, x = some y ∧ y.isFinite = false) (some (ofDouble? x)) := by
  cases x with
  | none => exact ⟨fun _ => rfl, fun h => absurd (.inl rfl) h⟩
  | some y =>
    rw [ofDouble?, ofDouble]
    cases hy : y.isFinite with
    | true => exact ⟨by simp [hy], fun _ => ⟨_, rfl⟩⟩
    | false => exact ⟨fun _ => rfl, fun h => absurd (.inr ⟨y, rfl, hy⟩) h⟩

/-- The members of an object give a reason of a kind. -/
def GivesReason (kind : String) (members : List (String × Json)) : Prop :=
  ∃ inner, member? members "reason" = some (.object inner) ∧
    member? inner "kind" = some (.string kind)

end Json

/-- Where null stands in the object of a verdict on a window. Whether it stands for a baseline
whose middle leaves the range is left open. -/
structure Verdict.NullsIn (v : Verdict) (w : Window) (members : List (String × Json)) : Prop where
  current : ∃ n, member? members "current" = some (.number n)
  lacking : GivesReason "insufficient_history" members → member? members "baseline" = some .null
  baseline : ¬Sample.MiddleLeavesRange w.retained →
    NumberUnless (GivesReason "insufficient_history" members) (member? members "baseline")
  ratio : NumberUnless
    (member? members "status" = some (.string "SKIP") ∨
      ∃ b, v.baseline = some b ∧ QuotientOverflows v.current b)
    (member? members "ratio")

/-- What stands in the object of a verdict. -/
theorem Verdict.exists_members (v : Verdict) :
    ∃ members, v.toJson = .object members ∧
      member? members "status" = some (.string v.status.text) ∧
      member? members "current" = some (.ofDouble? (some v.current)) ∧
      member? members "baseline" = some (.ofDouble? v.baseline) ∧
      member? members "ratio" = some (.ofDouble? v.ratio) ∧
      member? members "reason" = v.reason.map SkipReason.toJson := by
  obtain ⟨name, status, current, baseline, ratio, reason, unit⟩ := v
  cases reason <;> cases unit <;> exact ⟨_, rfl, rfl, rfl, rfl, rfl, rfl⟩

theorem Verdict.givesReason_iff {v : Verdict} {members : List (String × Json)}
    (h : member? members "reason" = v.reason.map SkipReason.toJson) :
    GivesReason "insufficient_history" members ↔ v.LacksHistory := by
  rw [GivesReason, LacksHistory, h]
  cases v.reason with
  | none => simp
  | some reason =>
    cases reason with
    | insufficientHistory points required => exact iff_of_true ⟨_, rfl, rfl⟩ ⟨_, _, rfl⟩
    | nonPositiveBaseline =>
      refine iff_of_false ?_ ?_
      · rintro ⟨_, ⟨⟩, hkind⟩
        simp [member?] at hkind
      · rintro ⟨_, _, ⟨⟩⟩

theorem Verdict.saysSkip_iff {v : Verdict} {members : List (String × Json)}
    (h : member? members "status" = some (.string v.status.text)) :
    member? members "status" = some (.string "SKIP") ↔ v.status = .skip := by
  rw [h]
  cases v.status <;> simp [Status.text]

theorem Verdict.Ranged.nullsIn {v : Verdict} {w : Window} (ranged : v.Ranged w) :
    ∃ members, v.toJson = .object members ∧ v.NullsIn w members := by
  obtain ⟨members, hobject, hstatus, hcurrent, hbaseline, hratio, hreason⟩ := v.exists_members
  have hlacks := v.givesReason_iff hreason
  refine ⟨members, hobject, ?_, fun hgives => ?_, fun hrange => ?_, ?_⟩
  · rw [hcurrent]
    exact (numberUnless_ofDouble? _).2 (by simp [ranged.current])
  · rw [hbaseline]
    exact (numberUnless_ofDouble? _).1 (.inl (ranged.lacking.2 (hlacks.1 hgives)))
  · -- a baseline that is there is finite
    have habsent : v.baseline = none ∨ (∃ b, v.baseline = some b ∧ b.isFinite = false) ↔
        v.baseline = none := by
      refine or_iff_left ?_
      rintro ⟨b, hb, hinfinite⟩
      exact hrange ((ranged.baseline b hb).1 hinfinite)
    rw [hbaseline, hlacks, ← ranged.lacking, ← habsent]
    exact numberUnless_ofDouble? _
  · -- a ratio that is there is infinite exactly if it overflows
    have habsent : v.ratio = none ∨ (∃ q, v.ratio = some q ∧ q.isFinite = false) ↔
        v.ratio = none ∨ ∃ b, v.baseline = some b ∧ QuotientOverflows v.current b := by
      cases hq : v.ratio with
      | none => simp
      | some q =>
        obtain ⟨b, hb, hiff⟩ := ranged.ratio q hq
        simp [hb, hiff]
    rw [hratio, v.saysSkip_iff hstatus, ← ranged.skipped, ← habsent]
    exact numberUnless_ofDouble? _

/-! ## Documents -/

/-- In the document of a report on a text a number stands for each newest value. Null stands for a
ratio exactly if the benchmark is skipped or the quotient overflows, and for a baseline if there
are too few values, and only then unless the two middle candidates leave the range. -/
theorem Report.nulls_of_text {text suite : String} {p : Policy} {a : Archive} {runs : List Run}
    {vs : List Verdict} (hparse : Archive.parse text = .ok a)
    (hruns : a.suiteRuns suite = .ok (some runs))
    (hassess : (History.ofRuns runs).assess p = .ok vs) :
    Json.tokens ((Report.ofVerdicts vs p).document suite).indentedText.toList =
      ((Report.ofVerdicts vs p).document suite).spelling ∧
    ∃ members items, (Report.ofVerdicts vs p).document suite = .object members ∧
      member? members "verdicts" = some (.array items) ∧
      List.Forall₂ (fun v item => ∃ s w inner, (History.ofRuns runs).find? v.name = some s ∧
        Window.ofValues? s.values p.windowSize.toNat = some w ∧ item = .object inner ∧
        v.NullsIn w inner)
        (Report.ofVerdicts vs p).verdicts items := by
  refine ⟨tokens_documentOf _ _ _, _, _, rfl, rfl, ?_⟩
  rw [List.forall₂_map_right_iff]
  refine List.forall₂_same.2 fun v hv => ?_
  obtain ⟨s, hs, hverdict⟩ := History.mem_assess hassess ((perm_ofVerdicts vs p).mem_iff.1 hv)
  -- values of a text that has been read are in range
  have hfinite : ∀ x ∈ s.values, x.isFinite = true := by
    intro x hx
    obtain ⟨r, hr, m, hm, rfl⟩ := History.exists_measurement hs hx
    exact Archive.isFinite_of_suiteRuns hparse hruns r hr m hm
  obtain ⟨w, hw, ranged⟩ := Series.ranged_verdict? hfinite hverdict
  obtain ⟨inner, hobject, hnulls⟩ := ranged.nullsIn
  exact ⟨s, w, inner, hs, hw, hobject, hnulls⟩

/-! ## A document with infinite numbers -/

/-- Three runs of two benchmarks. The last value of the first is `10^600` times each other, and any
two values of the second add up to `2 * 10^308`. -/
def extremeText : String :=
  "\x7b\"entries\":\x7b\"fast\":[[[[\"fib\",1e-300],[\"gcd\",1e308]]],"
    ++ "[[[\"fib\",1e-300],[\"gcd\",1e308]]],[[[\"fib\",1e300],[\"gcd\",1e308]]]]\x7d\x7d"

/-- The numeral `1e-300`. -/
def tinyNumeral : Numeral := ⟨false, Digit.ofNat 1, [], some ⟨true, Digit.ofNat 300⟩⟩

/-- The numeral `1e300`. Its ratio to the tiny one is beyond the range. -/
def largeNumeral : Numeral := ⟨false, Digit.ofNat 1, [], some ⟨false, Digit.ofNat 300⟩⟩

/-- The numeral `1e308`. The sum of two of these is beyond the range. -/
def hugeNumeral : Numeral := ⟨false, Digit.ofNat 1, [], some ⟨false, Digit.ofNat 308⟩⟩

/-- A run of two benchmarks as it stands in a text. -/
def runTree (fib gcd : Numeral) : Json :=
  .array [.array [.array [.string "fib", .number fib], .array [.string "gcd", .number gcd]]]

/-- Three such runs in one suite. -/
def extremeSuites : List (String × Json) :=
  [("fast", .array [runTree tinyNumeral hugeNumeral, runTree tinyNumeral hugeNumeral,
    runTree largeNumeral hugeNumeral])]

/-- The run that is read from such a tree. -/
def writtenRun (fib gcd : Numeral) : Run :=
  ⟨[⟨"fib", (Number.ofNumeral fib).toDouble, none⟩, ⟨"gcd", (Number.ofNumeral gcd).toDouble, none⟩]⟩

/-- The runs of that suite. -/
def extremeRuns : List Run :=
  [writtenRun tinyNumeral hugeNumeral, writtenRun tinyNumeral hugeNumeral,
    writtenRun largeNumeral hugeNumeral]

/-- Settings that three runs are enough for. -/
def extremePolicy : Policy := ⟨5, .ofDecimal 20 2, 3⟩

theorem readable_runTree {fib gcd : Numeral} (hfib : (Number.ofNumeral fib).isFinite = true)
    (hgcd : (Number.ofNumeral gcd).isFinite = true) (room : Nat) :
    Readable (room + 3) (runTree fib gcd) := by
  have measured (name : String) {n : Numeral} (hn : (Number.ofNumeral n).isFinite = true) :
      Readable (room + 1) (.array [.string name, .number n]) := by
    refine .array fun v hv => ?_
    fin_cases hv
    · exact .string
    · exact .number hn
  refine .array (List.forall_mem_singleton.2 (.array fun v hv => ?_))
  fin_cases hv
  · exact measured "fib" hfib
  · exact measured "gcd" hgcd

theorem parse_extreme : Archive.parse extremeText = .ok ⟨.ofList extremeSuites⟩ := by
  have htokens : Json.tokens (Archive.unwrap extremeText.toList) =
      (Json.object [("entries", .object extremeSuites)]).spelling := by cbv
  have htiny : (Number.ofNumeral tinyNumeral).isFinite = true := by decide +kernel
  have hlarge : (Number.ofNumeral largeNumeral).isFinite = true := by decide +kernel
  have hhuge : (Number.ofNumeral hugeNumeral).isFinite = true := by decide +kernel
  have readable : Readable maxDepth (.object [("entries", .object extremeSuites)]) := by
    refine .object (List.forall_mem_singleton.2 (.object (List.forall_mem_singleton.2
      (.array fun v hv => ?_))))
    fin_cases hv
    · exact readable_runTree htiny hhuge _
    · exact readable_runTree htiny hhuge _
    · exact readable_runTree hlarge hhuge _
  exact Archive.parse_of_tree (Json.ofText_eq_ok_iff.2 ⟨readable, htokens⟩) (by decide) rfl

theorem suiteRuns_extreme :
    Archive.suiteRuns ⟨.ofList extremeSuites⟩ "fast" = .ok (some extremeRuns) := by
  have writes (fib gcd : Numeral) : Archive.WritesRun (runTree fib gcd) (writtenRun fib gcd) :=
    .single ⟨.cons .pair (.cons .pair .nil)⟩
  rw [(Archive.tells_ofList extremeSuites).written "fast" _ rfl]
  exact ⟨.cons (writes _ _) (.cons (writes _ _) (.cons (writes _ _) .nil))⟩

theorem flaw?_extreme : extremePolicy.flaw? = none := by decide +kernel

/-- Both ways for null to stand for an infinite number are there. -/
theorem Report.nulls_of_text_extreme :
    ∃ a vs members items, Archive.parse extremeText = .ok a ∧
      a.suiteRuns "fast" = .ok (some extremeRuns) ∧
      (History.ofRuns extremeRuns).assess extremePolicy = .ok vs ∧
      (Report.ofVerdicts vs extremePolicy).document "fast" = .object members ∧
      member? members "verdicts" = some (.array items) ∧
      List.Forall₂ (fun v item => ∃ w inner, item = .object inner ∧ v.NullsIn w inner)
        (Report.ofVerdicts vs extremePolicy).verdicts items := by
  obtain ⟨vs, hvs⟩ := (History.ofRuns extremeRuns).exists_assess flaw?_extreme
  obtain ⟨-, members, items, hdocument, hitems, h⟩ :=
    Report.nulls_of_text parse_extreme suiteRuns_extreme hvs
  exact ⟨_, vs, members, items, parse_extreme, suiteRuns_extreme, hvs, hdocument, hitems,
    h.imp fun _ _ ⟨_, w, inner, _, _, hitem, hnulls⟩ => ⟨w, inner, hitem, hnulls⟩⟩

/-- The mean of two equal values is the baseline, finite or not. -/
theorem Window.baseline_twice (x y : Double) :
    Window.baseline ⟨[x, x, y], by simp⟩ = (x + x) / 2 :=
  Window.baseline_of_few (by simp [Window.candidates, Sample.leastForQuartiles])
    (by simp [Window.candidates]) (by simp [Window.candidates, Sample.middle?])

theorem Series.verdict?_twice {x : Double} (y : Double) (name : String) {p : Policy}
    (hwindow : 3 ≤ p.windowSize.toNat) (henough : p.minHistory.toNat ≤ 3) (hb : ¬(x + x) / 2 ≤ 0) :
    Series.verdict? ⟨[x, x, y], none⟩ name p = some
      ⟨name, (classify y ((x + x) / 2) p.threshold).2, y, some ((x + x) / 2),
        some (y / ((x + x) / 2)), none, none⟩ := by
  have hw : Window.ofValues? [x, x, y] p.windowSize.toNat = some ⟨[x, x, y], by simp⟩ := by
    have hall : 3 - max p.windowSize.toNat 1 = 0 := by omega
    simp [Window.ofValues?, hall]
  have hbaseline := Window.baseline_twice x y
  have h : Series.verdict? ⟨[x, x, y], none⟩ name p = _ :=
    Series.verdict?_of_pos hw henough (hbaseline ▸ hb)
  rw [hbaseline] at h
  exact h

/-- The object of each verdict is among those of the document. -/
theorem Report.toJson_mem {h : History} {p : Policy} {vs : List Verdict} (hvs : h.assess p = .ok vs)
    {name : String} {s : Series} {v : Verdict} (hs : (name, s) ∈ h.toList)
    (hv : s.verdict? name p = some v) :
    v.toJson ∈ (Report.ofVerdicts vs p).verdicts.map Verdict.toJson := by
  obtain ⟨-, rfl⟩ := History.assess_eq_ok_iff.1 hvs
  refine List.mem_map.2 ⟨v, (perm_ofVerdicts _ p).mem_iff.2 ?_, rfl⟩
  exact List.mem_filterMap.2 ⟨(name, s), hs, hv⟩

/-- The double that the tiny numeral is read as. -/
def tiny : Double := (Number.ofNumeral tinyNumeral).toDouble

/-- The double that the large numeral is read as. -/
def large : Double := (Number.ofNumeral largeNumeral).toDouble

/-- The double that the huge numeral is read as. -/
def huge : Double := (Number.ofNumeral hugeNumeral).toDouble

theorem toList_extreme : (History.ofRuns extremeRuns).toList =
    [("fib", ⟨[tiny, tiny, large], none⟩), ("gcd", ⟨[huge, huge, huge], none⟩)] := rfl

/-- Null stands for the ratio of a regression, and for a baseline on sufficient history. -/
theorem Report.null_of_overflow :
    ∃ a vs members items, Archive.parse extremeText = .ok a ∧
      a.suiteRuns "fast" = .ok (some extremeRuns) ∧
      (History.ofRuns extremeRuns).assess extremePolicy = .ok vs ∧
      (Report.ofVerdicts vs extremePolicy).document "fast" = .object members ∧
      member? members "verdicts" = some (.array items) ∧
      (∃ inner, .object inner ∈ items ∧ member? inner "status" = some (.string "REGRESSION") ∧
        member? inner "ratio" = some .null) ∧
      ∃ inner, .object inner ∈ items ∧ ¬GivesReason "insufficient_history" inner ∧
        member? inner "baseline" = some .null := by
  obtain ⟨vs, hvs⟩ := (History.ofRuns extremeRuns).exists_assess flaw?_extreme
  refine ⟨_, vs, _, _, parse_extreme, suiteRuns_extreme, hvs, rfl, rfl, ?_, ?_⟩
  · -- the ratio is infinite
    have hpos : ¬(tiny + tiny) / 2 ≤ 0 := by decide +kernel
    have hverdict :=
      Series.verdict?_twice (p := extremePolicy) large "fib" (by decide) (by decide) hpos
    have hseries : ("fib", ⟨[tiny, tiny, large], none⟩) ∈ (History.ofRuns extremeRuns).toList := by
      simp [toList_extreme]
    have hmem := Report.toJson_mem hvs hseries hverdict
    obtain ⟨inner, hobject, hstatus, -, -, hratio, -⟩ := Verdict.exists_members _
    rw [hobject] at hmem
    refine ⟨inner, hmem, ?_, ?_⟩
    · rw [hstatus]
      dsimp only
      rw [classify_eq_regression_iff.2 (by decide +kernel)]
      rfl
    · rw [hratio]
      exact (numberUnless_ofDouble? _).1 (.inr ⟨_, rfl, by decide +kernel⟩)
  · -- the baseline is infinite
    have hpos : ¬(huge + huge) / 2 ≤ 0 := by decide +kernel
    have hverdict :=
      Series.verdict?_twice (p := extremePolicy) huge "gcd" (by decide) (by decide) hpos
    have hseries : ("gcd", ⟨[huge, huge, huge], none⟩) ∈ (History.ofRuns extremeRuns).toList := by
      simp [toList_extreme]
    have hmem := Report.toJson_mem hvs hseries hverdict
    obtain ⟨inner, hobject, -, -, hbaseline, -, hreason⟩ := Verdict.exists_members _
    rw [hobject] at hmem
    refine ⟨inner, hmem, ?_, ?_⟩
    · rw [Verdict.givesReason_iff hreason]
      exact nofun
    · rw [hbaseline]
      exact (numberUnless_ofDouble? _).1 (.inr ⟨_, rfl, by decide +kernel⟩)

end Slowdown
