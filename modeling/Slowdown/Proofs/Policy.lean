/-
When a policy has no flaw: the sizes fit together and the threshold is finite and not negative.
-/
import Slowdown.Policy
import Slowdown.Proofs.Double.Arith

namespace Slowdown

namespace Policy

open Double

theorem not_lt_zero_iff {x : Double} (hx : x.isFinite = true) : ¬ x < 0 ↔ 0 ≤ x := by
  rw [lt_iff, le_iff, zero_eq, units_zero]
  have hn := isNaN_of_isFinite hx
  have hz : (zero false).isNaN = false := rfl
  simp only [hn, hz, true_and, Int.not_lt]

/-- A policy without flaw, in one line for every rule. -/
theorem flaw?_eq_none_iff {p : Policy} :
    p.flaw? = none ↔ 1 ≤ p.minHistory.toNat ∧ p.minHistory.toNat ≤ p.windowSize.toNat ∧
      p.threshold.isFinite = true ∧ 0 ≤ p.threshold := by
  unfold flaw?
  split_ifs with h1 h2 h3 h4
  · simp; omega
  · simp; omega
  · simp; omega
  · simp only [false_iff]
    rintro ⟨-, -, hf, h0⟩
    rw [← not_lt_zero_iff hf] at h0
    rcases h4 with h4 | h4
    · rw [hf] at h4; cases h4
    · exact h0 h4
  · simp only [true_iff]
    rw [not_or, Bool.not_eq_false] at h4
    exact ⟨by omega, by omega, h4.1, (not_lt_zero_iff h4.1).1 h4.2⟩

end Policy

end Slowdown
