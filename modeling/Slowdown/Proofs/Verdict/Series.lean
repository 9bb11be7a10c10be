/-
Classifications, and the verdict on one series: when there is one, under which name, and what it
says of a window with a positive baseline.
-/
import Slowdown.Verdict
import Slowdown.Proofs.Baseline.Window

namespace Slowdown

/-! ## Classification -/

theorem classify_eq_regression_iff {c b t : Double} :
    (classify c b t).2 = .regression ↔ 1 + t < c / b := by
  unfold classify
  dsimp only
  split <;> simp_all

theorem classify_eq_ok_iff {c b t : Double} : (classify c b t).2 = .ok ↔ ¬ 1 + t < c / b := by
  unfold classify
  dsimp only
  split <;> simp_all

theorem classify_ne_skip (c b t : Double) : (classify c b t).2 ≠ .skip := by
  by_cases h : 1 + t < c / b
  · rw [classify_eq_regression_iff.2 h]; exact nofun
  · rw [classify_eq_ok_iff.2 h]; exact nofun

/-! ## The verdict on a series -/

theorem Estimate.name_verdict (e : Estimate) (name : String) (unit : Option String)
    (p : Policy) : (e.verdict name unit p).name = name := by
  cases e <;> rfl

theorem Window.current_verdict (w : Window) (name : String) (unit : Option String)
    (p : Policy) : ((w.estimate p).verdict name unit p).current = w.current := by
  rcases w.estimate_cases p with ⟨-, _, -, he⟩ | ⟨-, -, he⟩ | ⟨-, -, he⟩ <;> rw [he] <;> rfl

theorem Series.verdict?_eq_none_iff {s : Series} {name : String} {p : Policy} :
    s.verdict? name p = none ↔ s.values = [] := by
  rw [Series.verdict?, Option.map_eq_none_iff, Window.ofValues?_eq_none_iff]

theorem Series.name_verdict? {s : Series} {name : String} {p : Policy} {v : Verdict}
    (h : s.verdict? name p = some v) : v.name = name := by
  obtain ⟨w, -, rfl⟩ := Option.map_eq_some_iff.1 h
  exact Estimate.name_verdict _ name s.unit p

/-- The verdict on a window with enough values and a positive baseline is its classification. -/
theorem Series.verdict?_of_pos {s : Series} {name : String} {p : Policy} {w : Window}
    (hw : Window.ofValues? s.values p.windowSize.toNat = some w)
    (hsize : p.minHistory.toNat ≤ w.size) (hb : ¬ w.baseline ≤ 0) :
    s.verdict? name p = some
      ⟨name, (classify w.current w.baseline p.threshold).2, w.current, some w.baseline,
        some (w.current / w.baseline), none, s.unit⟩ := by
  rcases Window.estimate_cases w p with ⟨h, -⟩ | ⟨-, h, -⟩ | ⟨-, -, he⟩
  · omega
  · exact absurd h hb
  · rw [Series.verdict?, hw, Option.map_some, he]
    simp only [Estimate.verdict, classify]

end Slowdown
