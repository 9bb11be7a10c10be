/-
Rounding intervals: the rationals that round to a code are those between the midpoints with its
neighbours, the midpoints taken in if the code is even.
-/
import Slowdown.Proofs.Double.Exact

namespace Slowdown

namespace Double

/-- The exact value of a code; infinity stands for `2^1024`. -/
def valueOfCode (code : Nat) : ℚ := unitsOfCode code / unitsPerOne

/-- Halfway from a code to the next. -/
def halfway (code : Nat) : ℚ := (valueOfCode code + valueOfCode (code + 1)) / 2

/-- What rounds to a code above zero. -/
def InInterval (code : Nat) (q : ℚ) : Prop :=
  if code % 2 = 0 then halfway (code - 1) ≤ q ∧ q ≤ halfway code
  else halfway (code - 1) < q ∧ q < halfway code

/-! ## Values of codes -/

theorem valueOfCode_strictMono : StrictMono valueOfCode := fun _ _ h =>
  div_lt_div_of_pos_right (by exact_mod_cast unitsOfCode_strictMono h) unitsPerOne_pos_rat

theorem valueOfCode_pos {code : Nat} (hcode : 0 < code) : 0 < valueOfCode code := by
  have hzero : valueOfCode 0 = 0 := by simp [valueOfCode]
  exact hzero ▸ valueOfCode_strictMono hcode

theorem valueOfCode_lt_halfway (code : Nat) : valueOfCode code < halfway code := by
  have := valueOfCode_strictMono (Nat.lt_succ_self code)
  unfold halfway
  linarith

theorem halfway_lt_valueOfCode {code : Nat} (hcode : 0 < code) :
    halfway (code - 1) < valueOfCode code := by
  obtain ⟨below, rfl⟩ : ∃ below, code = below + 1 := ⟨code - 1, by omega⟩
  have := valueOfCode_strictMono (Nat.lt_succ_self below)
  rw [Nat.add_sub_cancel, halfway]
  linarith

theorem halfway_mono : Monotone halfway := fun c d h => by
  have := valueOfCode_strictMono.monotone h
  have := valueOfCode_strictMono.monotone (Nat.succ_le_succ h)
  unfold halfway
  linarith

theorem halfway_pos (code : Nat) : 0 < halfway code := by
  have := valueOfCode_pos (Nat.succ_pos code)
  have hcode : 0 ≤ valueOfCode code := div_nonneg (by positivity) unitsPerOne_pos_rat.le
  unfold halfway
  linarith

/-! ## The interval -/

section

variable {code : Nat} {p q r : ℚ}

theorem InInterval.bounds (h : InInterval code q) :
    halfway (code - 1) ≤ q ∧ q ≤ halfway code := by
  unfold InInterval at h
  split_ifs at h
  · exact h
  · exact ⟨h.1.le, h.2.le⟩

theorem InInterval.pos (h : InInterval code q) : 0 < q := (halfway_pos _).trans_le h.bounds.1

theorem inInterval_of_between (hlow : halfway (code - 1) < q) (hhigh : q < halfway code) :
    InInterval code q := by
  unfold InInterval
  split_ifs
  · exact ⟨hlow.le, hhigh.le⟩
  · exact ⟨hlow, hhigh⟩

theorem inInterval_valueOfCode (hcode : 0 < code) : InInterval code (valueOfCode code) :=
  inInterval_of_between (halfway_lt_valueOfCode hcode) (valueOfCode_lt_halfway code)

theorem InInterval.convex (hp : InInterval code p) (hr : InInterval code r) (hpq : p ≤ q)
    (hqr : q ≤ r) : InInterval code q := by
  unfold InInterval at *
  split_ifs at *
  · exact ⟨hp.1.trans hpq, hqr.trans hr.2⟩
  · exact ⟨hp.1.trans_le hpq, hqr.trans_lt hr.2⟩

end

/-! ## Its width -/

/-- The neighbours of a code are more than `2 · 10^-16` of it apart. -/
theorem neighbours_apart {code : Nat} (hcode : 0 < code) :
    2 * unitsOfCode code + 10 ^ 16 * unitsOfCode (code - 1) <
      10 ^ 16 * unitsOfCode (code + 1) := by
  have hbinade : 2 * binade < 10 ^ 16 := by decide
  rcases Nat.lt_or_ge code binade with h | h
  · -- the least exponent: codes are the units themselves
    rw [unitsOfCode_of_le (by omega), unitsOfCode_of_le (by omega), unitsOfCode_of_le (by omega)]
    omega
  · obtain ⟨s, r, rfl, hr, hr'⟩ := exists_exponent h
    have hpos : 0 < 2 ^ s := Nat.two_pow_pos s
    have hself : unitsOfCode (s * binade + r) = r * 2 ^ s :=
      unitsOfCode_shifted (by omega) (.inr hr)
    have habove : unitsOfCode (s * binade + r + 1) = (r + 1) * 2 ^ s := by
      rw [Nat.add_assoc, unitsOfCode_shifted (by omega) (.inr (by omega))]
    rw [hself, habove]
    rcases Nat.eq_or_lt_of_le hr with rfl | hr
    · -- the first code of an exponent: the gap above it is wide enough
      have hbelow : unitsOfCode (s * binade + binade - 1) ≤ binade * 2 ^ s := by
        rw [← hself, unitsOfCode_le]
        omega
      calc 2 * (binade * 2 ^ s) + 10 ^ 16 * unitsOfCode (s * binade + binade - 1)
          ≤ 2 * binade * 2 ^ s + 10 ^ 16 * (binade * 2 ^ s) := by
            rw [Nat.mul_assoc]
            exact Nat.add_le_add_left (Nat.mul_le_mul_left _ hbelow) _
        _ < 10 ^ 16 * 2 ^ s + 10 ^ 16 * (binade * 2 ^ s) :=
            Nat.add_lt_add_right (Nat.mul_lt_mul_of_pos_right hbinade hpos) _
        _ = 10 ^ 16 * ((binade + 1) * 2 ^ s) := by ring
    · -- both gaps are units of its exponent
      have hbelow : unitsOfCode (s * binade + r - 1) = (r - 1) * 2 ^ s := by
        rw [Nat.add_sub_assoc (by omega), unitsOfCode_shifted (by omega) (.inr (by omega))]
      obtain ⟨k, rfl⟩ : ∃ k, r = k + 1 := ⟨r - 1, by omega⟩
      rw [hbelow, Nat.add_sub_cancel]
      calc 2 * ((k + 1) * 2 ^ s) + 10 ^ 16 * (k * 2 ^ s)
          = (2 * (k + 1)) * 2 ^ s + 10 ^ 16 * (k * 2 ^ s) := by ring
        _ < (2 * 10 ^ 16) * 2 ^ s + 10 ^ 16 * (k * 2 ^ s) :=
            Nat.add_lt_add_right (Nat.mul_lt_mul_of_pos_right (by omega) hpos) _
        _ = 10 ^ 16 * ((k + 1 + 1) * 2 ^ s) := by ring

theorem valueOfCode_lt_width {code : Nat} (hcode : 0 < code) :
    valueOfCode code < 10 ^ 16 * (halfway code - halfway (code - 1)) := by
  have hapart := neighbours_apart hcode
  obtain ⟨below, rfl⟩ : ∃ below, code = below + 1 := ⟨code - 1, by omega⟩
  rw [Nat.add_sub_cancel] at hapart ⊢
  have hone := unitsPerOne_pos_rat
  unfold halfway valueOfCode
  generalize unitsPerOne = one at *
  have hcast : (2 * unitsOfCode (below + 1) + 10 ^ 16 * unitsOfCode below : ℚ) <
      10 ^ 16 * unitsOfCode (below + 1 + 1) := by exact_mod_cast hapart
  rw [← mul_lt_mul_iff_of_pos_right hone]
  field_simp
  linarith

/-! ## Rounding into it -/

section

variable {a d : Nat} (hd : 0 < d)

include hd

/-- A quotient is compared with a midpoint as integers are. -/
theorem quotient_halfway (code : Nat) :
    ((a / d : ℚ) / unitsPerOne < halfway code ↔
      2 * a < (unitsOfCode code + unitsOfCode (code + 1)) * d) ∧
    ((a / d : ℚ) / unitsPerOne = halfway code ↔
      2 * a = (unitsOfCode code + unitsOfCode (code + 1)) * d) := by
  have hone := unitsPerOne_pos_rat
  have hd : (0 : ℚ) < d := by exact_mod_cast hd
  unfold halfway valueOfCode
  generalize unitsPerOne = one at *
  -- twice the divisor, in units, makes integers of both sides
  have hscale : 0 < 2 * (d * (one : ℚ)) := by positivity
  have hmid : ((unitsOfCode code / one + unitsOfCode (code + 1) / one) / 2 : ℚ) * (2 * (d * one)) =
      ((unitsOfCode code + unitsOfCode (code + 1)) * d : Nat) := by
    push_cast
    field_simp
  have hquotient : (a / d : ℚ) / one * (2 * (d * one)) = (2 * a : Nat) := by
    push_cast
    field_simp
  rw [← mul_lt_mul_iff_of_pos_right hscale, ← mul_left_inj' hscale.ne', hmid, hquotient,
    Nat.cast_lt, Nat.cast_inj]
  exact ⟨Iff.rfl, Iff.rfl⟩

/-- A quotient rounds to the code in whose interval it lies. -/
theorem nearestCode_eq_iff {code : Nat} (hcode : 0 < code) (hfinite : code < infinityCode) :
    nearestCode a d = code ↔ InInterval code ((a / d : ℚ) / unitsPerOne) := by
  obtain ⟨below, rfl⟩ : ∃ below, code = below + 1 := ⟨code - 1, by omega⟩
  have hup := nearestCode_le_iff (a := a) hd hfinite
  have hdown := nearestCode_le_iff (a := a) (c := below) hd (by omega)
  rw [← (quotient_halfway hd _).1, ← (quotient_halfway hd _).2] at hup hdown
  unfold InInterval
  rw [Nat.add_sub_cancel]
  generalize (a / d : ℚ) / unitsPerOne = q at *
  -- the code is at most `below + 1`, and not at most `below`
  have hsplit : nearestCode a d = below + 1 ↔
      nearestCode a d ≤ below + 1 ∧ ¬ nearestCode a d ≤ below := by omega
  rw [hsplit, hup, hdown]
  rcases Nat.mod_two_eq_zero_or_one (below + 1) with heven | hodd
  · rw [if_pos heven, and_iff_left heven, ← le_iff_lt_or_eq,
      or_iff_left (fun h : q = halfway below ∧ below % 2 = 0 => by omega), not_lt, and_comm]
  · rw [if_neg (by omega), or_iff_left (fun h : q = halfway (below + 1) ∧ _ => by omega),
      and_iff_left (show below % 2 = 0 by omega), ← le_iff_lt_or_eq, not_le, and_comm]

end

end Double

end Slowdown
