/-
Two policies of which one is looser: it looks at as many values, tolerates no less and needs no
fewer values. Under it each benchmark is either short of values or told of by the same numbers
as before, and nothing becomes a regression that was none.
-/
import Slowdown.Proofs.Command.Session

namespace Slowdown

open Double

/-! ## Looser policies -/

/-- The second policy looks at as many values, tolerates no less and needs no fewer values. -/
structure Policy.Looser (p p' : Policy) : Prop where
  window : p'.windowSize = p.windowSize
  threshold : p.threshold ≤ p'.threshold
  history : p.minHistory.toNat ≤ p'.minHistory.toNat

section

variable {p p' : Policy} (valid : p.flaw? = none) (valid' : p'.flaw? = none)
  (looser : p.Looser p')

include valid valid' looser

theorem Policy.Looser.ratioLimit_le : p.ratioLimit ≤ p'.ratioLimit := by
  obtain ⟨-, -, hfinite, -⟩ := Policy.flaw?_eq_none_iff.1 valid
  obtain ⟨-, -, hfinite', -⟩ := Policy.flaw?_eq_none_iff.1 valid'
  exact add_le_add_left isFinite_one hfinite hfinite' looser.threshold

/-- A regression under the looser policy is one under the other, whatever the two numbers are. -/
theorem classify_regression_of_looser {c b : Double}
    (h : (classify c b p'.threshold).2 = .regression) :
    (classify c b p.threshold).2 = .regression := by
  rw [classify_eq_regression_iff] at h ⊢
  exact lt_of_le_of_lt (looser.ratioLimit_le valid valid') h

end

/-! ## One benchmark -/

/-- A verdict, and the one under a looser policy: either this lacks values, or it says the same
but that a regression may have become none. -/
structure Verdict.Loosened (v v' : Verdict) : Prop where
  name : v'.name = v.name
  current : v'.current = v.current
  judged :
    (v'.status = .skip ∧
      ∃ points required, v'.reason = some (.insufficientHistory points required)) ∨
    (v'.baseline = v.baseline ∧ v'.ratio = v.ratio ∧ v'.reason = v.reason ∧
      (v'.status = .regression → v.status = .regression))

theorem Verdict.Loosened.regression {v v' : Verdict} (h : v.Loosened v')
    (hv' : v'.status = .regression) : v.status = .regression := by
  rcases h.judged with ⟨hskip, -⟩ | ⟨-, -, -, himp⟩
  · rw [hv'] at hskip
    cases hskip
  · exact himp hv'

/-- A policy decides only whether there are values enough for an estimate. -/
theorem Window.estimate_eq {w : Window} {p p' : Policy} (h : p.minHistory.toNat ≤ w.size)
    (h' : p'.minHistory.toNat ≤ w.size) : w.estimate p' = w.estimate p := by
  rw [estimate, estimate, dif_neg (Nat.not_lt.2 h), dif_neg (Nat.not_lt.2 h')]

section

variable {p p' : Policy} (valid : p.flaw? = none) (valid' : p'.flaw? = none)
  (looser : p.Looser p')

include valid valid' looser

/-- The same estimate, turned into verdicts under both policies. -/
theorem Estimate.loosened_verdict (e : Estimate) (name : String) (unit : Option String) :
    (e.verdict name unit p).Loosened (e.verdict name unit p') := by
  cases e with
  | skipped current baseline reason => exact ⟨rfl, rfl, .inr ⟨rfl, rfl, rfl, id⟩⟩
  | ready current baseline candidates retained =>
    exact ⟨rfl, rfl, .inr ⟨rfl, rfl, rfl, classify_regression_of_looser valid valid' looser⟩⟩

theorem Window.loosened_verdict (w : Window) (name : String) (unit : Option String) :
    ((w.estimate p).verdict name unit p).Loosened ((w.estimate p').verdict name unit p') := by
  have hname := Estimate.name_verdict (w.estimate p) name unit p
  have hcurrent := w.current_verdict name unit p
  rcases w.estimate_cases p' with ⟨-, _, -, he⟩ | hrest
  · -- what the stricter policy says is open here, but for the name and the newest value
    rw [he]
    exact ⟨hname.symm, hcurrent.symm, .inl ⟨rfl, _, _, rfl⟩⟩
  · have henough : p'.minHistory.toNat ≤ w.size := by
      rcases hrest with ⟨h, -⟩ | ⟨h, -⟩ <;> exact h
    rw [Window.estimate_eq (Nat.le_trans looser.history henough) henough]
    exact Estimate.loosened_verdict valid valid' looser _ name unit

theorem Series.loosened_verdict? (s : Series) (name : String) :
    Option.Rel Verdict.Loosened (s.verdict? name p) (s.verdict? name p') := by
  unfold Series.verdict?
  rw [looser.window]
  cases Window.ofValues? s.values p.windowSize.toNat with
  | none => exact .none
  | some w => exact .some (w.loosened_verdict valid valid' looser name s.unit)

/-! ## Whole histories -/

/-- The verdicts on a history under both policies are about the same benchmarks. -/
theorem History.loosened_assess {h : History} {vs vs' : List Verdict} (hvs : h.assess p = .ok vs)
    (hvs' : h.assess p' = .ok vs') : List.Forall₂ Verdict.Loosened vs vs' := by
  obtain ⟨-, rfl⟩ := History.assess_eq_ok_iff.1 hvs
  obtain ⟨-, rfl⟩ := History.assess_eq_ok_iff.1 hvs'
  refine List.rel_filterMap (R := Eq) ?_ (List.forall₂_same.2 fun _ _ => rfl)
  rintro ⟨name, s⟩ _ rfl
  exact s.loosened_verdict? valid valid' looser name

end

/-- What is a regression under a looser policy was one before. -/
theorem exists_regression_of_loosened {vs vs' : List Verdict}
    (h : List.Forall₂ Verdict.Loosened vs vs') {v' : Verdict} (hv' : v' ∈ vs')
    (hstatus : v'.status = .regression) :
    ∃ v ∈ vs, v.name = v'.name ∧ v.status = .regression := by
  induction h with
  | nil => cases hv'
  | @cons v w vs vs' hvw _ ih =>
    rcases List.mem_cons.1 hv' with rfl | hmem
    · exact ⟨v, List.mem_cons_self, hvw.name.symm, hvw.regression hstatus⟩
    · obtain ⟨u, hu, hname⟩ := ih hmem
      exact ⟨u, List.mem_cons_of_mem _ hu, hname⟩

namespace Report

variable {vs vs' : List Verdict} {p p' : Policy}

theorem mem_regressions {v : Verdict} :
    v ∈ (ofVerdicts vs p).regressions ↔ v ∈ vs ∧ v.status = .regression := by
  rw [regressions, List.mem_filter, (perm_ofVerdicts vs p).mem_iff, Verdict.isRegression,
    decide_eq_true_iff]

theorem regressions_subset_of_loosened (h : List.Forall₂ Verdict.Loosened vs vs') :
    (ofVerdicts vs' p').regressions.map (·.name) ⊆ (ofVerdicts vs p).regressions.map (·.name) := by
  intro name hname
  obtain ⟨v', hv', rfl⟩ := List.mem_map.1 hname
  obtain ⟨hmem, hstatus⟩ := mem_regressions.1 hv'
  obtain ⟨v, hv, hname, hregression⟩ := exists_regression_of_loosened h hmem hstatus
  exact List.mem_map.2 ⟨v, mem_regressions.2 ⟨hv, hregression⟩, hname⟩

theorem exitCode_eq_one_iff :
    (ofVerdicts vs p).outcome.exitCode = 1 ↔ ∃ v ∈ vs, v.status = .regression := by
  simp only [exitCode_eq, ite_eq_left_iff, zero_ne_one, imp_false, not_not,
    (perm_ofVerdicts vs p).mem_iff]

theorem exitCode_of_loosened (h : List.Forall₂ Verdict.Loosened vs vs')
    (hexit : (ofVerdicts vs' p').outcome.exitCode = 1) :
    (ofVerdicts vs p).outcome.exitCode = 1 := by
  rw [exitCode_eq_one_iff] at hexit ⊢
  obtain ⟨v', hv', hstatus⟩ := hexit
  obtain ⟨v, hv, -, hregression⟩ := exists_regression_of_loosened h hv' hstatus
  exact ⟨v, hv, hregression⟩

end Report

/-! ## Two checks -/

namespace Command

variable {files : Files} {call call' : Invocation} {p p' : Policy}

/-- Two checks of one suite under different policies come to reports on the same runs. -/
theorem reports_of_same_suite (hdata : call'.dataFile = call.dataFile)
    (hsuite : call'.suite = call.suite) (hp : policyOf files call = .ok p)
    (hp' : policyOf files call' = .ok p') {r' : Report} (h : report? files call' = some r') :
    ∃ runs, r' = reportOn p' runs ∧ report? files call = some (reportOn p runs) := by
  rw [report?_eq] at h ⊢
  unfold course at h ⊢
  rw [hp', hdata, hsuite] at h
  rw [hp]
  dsimp only at h ⊢
  -- the policy decides nothing about the archive, so both runs meet the same one
  generalize Archive.ofFile call.dataFile (files.read call.dataFile) = file at h ⊢
  cases file with
  | error f => cases h
  | ok archive =>
    dsimp only at h ⊢
    generalize archive.suiteRuns call.suite = runs at h ⊢
    match runs, h with
    | .ok (some runs), h =>
      cases h
      exact ⟨runs, rfl, rfl⟩

/-- A check ends with one if another, under a looser policy, finds a regression in its suite. -/
theorem status_of_looser (looser : p.Looser p') (hdata : call'.dataFile = call.dataFile)
    (hsuite : call'.suite = call.suite) (hp : policyOf files call = .ok p)
    (hp' : policyOf files call' = .ok p') {r' : Report} (h : report? files call' = some r')
    (hregression : ∃ v ∈ r'.verdicts, v.status = .regression) (setting : Option String) :
    (check files setting call).status = 1 := by
  obtain ⟨runs, rfl, hreport⟩ := reports_of_same_suite hdata hsuite hp hp' h
  have hloosened := History.loosened_assess (flaw?_of_policyOf hp) (flaw?_of_policyOf hp') looser
    (assess_of_policyOf hp runs) (assess_of_policyOf hp' runs)
  obtain ⟨v', hv', hstatus⟩ := hregression
  obtain ⟨v, hv, -, hv'⟩ := exists_regression_of_loosened hloosened
    ((Report.perm_ofVerdicts _ p').mem_iff.1 hv') hstatus
  refine (check_spec files setting call).1.2 (.inr (.inr ⟨_, hreport, v, ?_, hv'⟩))
  exact (Report.perm_ofVerdicts _ p).mem_iff.2 hv

end Command

/-- Under a looser policy the same benchmarks have verdicts on the same newest values. Each either
lacks values or says the same but for the decision, and the regressions are among those found
before; so where a check under it ends with one for a regression, the other check does too. -/
theorem History.assess_looser (h : History) (p p' : Policy) (valid : p.flaw? = none)
    (valid' : p'.flaw? = none) (looser : p.Looser p') :
    (∃ vs vs', h.assess p = .ok vs ∧ h.assess p' = .ok vs' ∧
      List.Forall₂ Verdict.Loosened vs vs' ∧
      (Report.ofVerdicts vs' p').regressions.map (·.name) ⊆
        (Report.ofVerdicts vs p).regressions.map (·.name) ∧
      ((Report.ofVerdicts vs' p').outcome.exitCode = 1 →
        (Report.ofVerdicts vs p).outcome.exitCode = 1)) ∧
    ∀ (files : Command.Files) (setting : Option String) (call call' : Command.Invocation),
      call'.dataFile = call.dataFile → call'.suite = call.suite →
      Command.policyOf files call = .ok p → Command.policyOf files call' = .ok p' →
      (∃ r', Command.report? files call' = some r' ∧ ∃ v ∈ r'.verdicts, v.status = .regression) →
      (Command.check files setting call).status = 1 := by
  obtain ⟨vs, hvs⟩ := h.exists_assess valid
  obtain ⟨vs', hvs'⟩ := h.exists_assess valid'
  have hloosened := History.loosened_assess valid valid' looser hvs hvs'
  refine ⟨⟨vs, vs', hvs, hvs', hloosened, Report.regressions_subset_of_loosened hloosened,
    Report.exitCode_of_loosened hloosened⟩, ?_⟩
  rintro files setting call call' hdata hsuite hp hp' ⟨r', hr', hregression⟩
  exact Command.status_of_looser looser hdata hsuite hp hp' hr' hregression setting

/-- Under the looser policy one of two benchmarks lacks values and the other is no regression. -/
theorem History.assess_looser_mixed :
    Policy.flaw? ⟨5, .ofDecimal 10 2, 2⟩ = none ∧ Policy.flaw? ⟨5, .ofDecimal 50 2, 3⟩ = none ∧
    Policy.Looser ⟨5, .ofDecimal 10 2, 2⟩ ⟨5, .ofDecimal 50 2, 3⟩ ∧
    ∃ vs vs', (History.ofPairs [("fib", [4, 4, 5]), ("gcd", [1, 2])]).assess
        ⟨5, .ofDecimal 10 2, 2⟩ = .ok vs ∧
      (History.ofPairs [("fib", [4, 4, 5]), ("gcd", [1, 2])]).assess
        ⟨5, .ofDecimal 50 2, 3⟩ = .ok vs' ∧
      List.Forall₂ Verdict.Loosened vs vs' := by
  have valid : Policy.flaw? ⟨5, .ofDecimal 10 2, 2⟩ = none := by decide +kernel
  have valid' : Policy.flaw? ⟨5, .ofDecimal 50 2, 3⟩ = none := by decide +kernel
  have looser : Policy.Looser ⟨5, .ofDecimal 10 2, 2⟩ ⟨5, .ofDecimal 50 2, 3⟩ :=
    ⟨rfl, by decide +kernel, by decide⟩
  obtain ⟨⟨vs, vs', hvs, hvs', hloosened, -⟩, -⟩ := History.assess_looser
    (History.ofPairs [("fib", [4, 4, 5]), ("gcd", [1, 2])]) _ _ valid valid' looser
  exact ⟨valid, valid', looser, vs, vs', hvs, hvs', hloosened⟩

end Slowdown
