/-
The shortest decimals of doubles: the search finds a decimal that rounds to the double, seventeen
digits always suffice for one, no decimal of fewer digits rounds to it, and none of as many digits
that does is nearer.
-/
import Slowdown.Decimal.Shortest
import Slowdown.Proofs.Decimal.Digits
import Slowdown.Proofs.Double.Interval

namespace Slowdown

open Double

theorem cast_tenTo (n : Nat) : (tenTo n : ℚ) = 10 ^ n := by
  have h : tenTo n = 10 ^ n := rfl
  exact_mod_cast congrArg (Nat.cast : Nat → ℚ) h

/-- A power of ten as a quotient of two whole ones. -/
theorem zpow_mul_tenTo (power : Int) :
    (10 : ℚ) ^ power * tenTo (-power).toNat = tenTo power.toNat := by
  rw [cast_tenTo, cast_tenTo, ← zpow_natCast, ← zpow_natCast, ← zpow_add₀ (by norm_num)]
  congr 1
  omega

namespace Decimal

theorem ten_zpow_pos (power : Int) : (0 : ℚ) < 10 ^ power := zpow_pos (by norm_num) power

theorem ten_zpow_mul_pow {power shifted : Int} {n : Nat} (h : power + n = shifted) :
    (10 : ℚ) ^ power * 10 ^ n = 10 ^ shifted := by
  rw [← h, zpow_add₀ (by norm_num), zpow_natCast]

/-! ## Decimals -/

/-- The number that a decimal denotes. -/
def Scientific.value (s : Scientific) : ℚ := s.digits * (10 : ℚ) ^ s.exponent

/-- How many digits a decimal has. -/
def Scientific.length (s : Scientific) : Nat := (Digit.ofNat s.digits).length

/-- The power of ten of the first digit. -/
def Scientific.power (s : Scientific) : Int := s.exponent + s.length - 1

@[simp] theorem value_stripped (s : Scientific) : s.stripped.value = s.value := by
  induction s using Scientific.stripped.induct with
  | case1 s h ih =>
    rw [Scientific.stripped, dif_pos h, ih]
    have hdigits : s.digits = s.digits / 10 * 10 := by omega
    rw [Scientific.value, Scientific.value, zpow_add₀ (by norm_num), zpow_one]
    nth_rewrite 2 [hdigits]
    push_cast
    ring
  | case2 s h => rw [Scientific.stripped, dif_neg h]

/-! ## The grid -/

section

variable {code m n : Nat} {power : Int}

/-- Half units are compared with a multiple of a power of ten as integers are. -/
theorem compare_scaled (n m : Nat) (power : Int) :
    (n * tenTo (-power).toNat ≤ m * (tenTo power.toNat * (2 * unitsPerOne)) ↔
      (n / (2 * unitsPerOne) : ℚ) ≤ m * 10 ^ power) ∧
    (m * (tenTo power.toNat * (2 * unitsPerOne)) ≤ n * tenTo (-power).toNat ↔
      (m * 10 ^ power : ℚ) ≤ n / (2 * unitsPerOne)) := by
  have hpower := zpow_mul_tenTo power
  have hscale : (0 : ℚ) < tenTo (-power).toNat := by exact_mod_cast tenTo_pos _
  have hone := unitsPerOne_pos_rat
  generalize unitsPerOne = one at *
  -- both sides, times what clears the denominators
  have hcommon : 0 < tenTo (-power).toNat * (2 * (one : ℚ)) := by positivity
  have hleft : (n / (2 * one) : ℚ) * (tenTo (-power).toNat * (2 * one)) =
      (n * tenTo (-power).toNat : Nat) := by
    push_cast
    field_simp
  have hright : (m * 10 ^ power : ℚ) * (tenTo (-power).toNat * (2 * one)) =
      (m * (tenTo power.toNat * (2 * one)) : Nat) := by
    push_cast
    rw [← hpower]
    ring
  constructor
  · rw [← mul_le_mul_iff_of_pos_right hcommon, hleft, hright, Nat.cast_le]
  · rw [← mul_le_mul_iff_of_pos_right hcommon, hleft, hright, Nat.cast_le]

theorem halfway_eq (code : Nat) :
    halfway code = (unitsOfCode code + unitsOfCode (code + 1) : Nat) / (2 * unitsPerOne) := by
  have hone := unitsPerOne_pos_rat
  unfold halfway valueOfCode
  generalize unitsPerOne = one at *
  push_cast
  field_simp

theorem valueOfCode_eq (code : Nat) :
    valueOfCode code = (2 * unitsOfCode code : Nat) / (2 * unitsPerOne) := by
  have hone := unitsPerOne_pos_rat
  unfold valueOfCode
  generalize unitsPerOne = one at *
  push_cast
  field_simp

/-- The test of the search is whether a multiple rounds to the double. -/
theorem inside_iff (hcode : 0 < code) (power : Int) (m : Nat) :
    inside code power m = true ↔ InInterval code (m * 10 ^ power) := by
  have hlow : halfway (code - 1) =
      (unitsOfCode (code - 1) + unitsOfCode code : Nat) / (2 * unitsPerOne) := by
    rw [halfway_eq, Nat.sub_add_cancel hcode]
  have low := compare_scaled (unitsOfCode (code - 1) + unitsOfCode code) m power
  have high := compare_scaled (unitsOfCode code + unitsOfCode (code + 1)) m power
  rw [← hlow] at low
  rw [← halfway_eq] at high
  unfold inside InInterval
  dsimp only
  split_ifs
  · rw [Bool.and_eq_true, decide_eq_true_eq, decide_eq_true_eq, low.1, high.2]
  · rw [Bool.and_eq_true, decide_eq_true_eq, decide_eq_true_eq, ← not_le, ← not_le, low.2, high.1,
      not_le, not_le]

/-- How the search on one grid ends: with one of the two multiples next to the value, which is the
nearer one if both round to the double, or with none if neither does. -/
theorem onGrid_cases (tie : Tie) (hcode : 0 < code) (power : Int) : ∃ below : Nat,
    below * (10 : ℚ) ^ power ≤ valueOfCode code ∧
    valueOfCode code < (below + 1 : Nat) * (10 : ℚ) ^ power ∧
    (onGrid tie code power = none ∧ ¬ InInterval code (below * 10 ^ power) ∧
        ¬ InInterval code ((below + 1 : Nat) * 10 ^ power) ∨
      onGrid tie code power = some below ∧ InInterval code (below * 10 ^ power) ∧
        (InInterval code ((below + 1 : Nat) * 10 ^ power) →
          2 * valueOfCode code ≤ (2 * below + 1) * 10 ^ power) ∨
      onGrid tie code power = some (below + 1) ∧
        InInterval code ((below + 1 : Nat) * 10 ^ power) ∧
        (InInterval code (below * 10 ^ power) →
          (2 * below + 1) * 10 ^ power ≤ 2 * valueOfCode code)) := by
  have hstep : 0 < tenTo power.toNat * (2 * unitsPerOne) :=
    Nat.mul_pos (tenTo_pos _) (Nat.mul_pos Nat.two_pos unitsPerOne_pos)
  unfold onGrid
  dsimp only
  have hbelow := Nat.div_mul_le_self (2 * unitsOfCode code * tenTo (-power).toNat)
    (tenTo power.toNat * (2 * unitsPerOne))
  have habove := Nat.lt_mul_div_succ (2 * unitsOfCode code * tenTo (-power).toNat) hstep
  generalize 2 * unitsOfCode code * tenTo (-power).toNat / (tenTo power.toNat * (2 * unitsPerOne)) =
    below at *
  rw [(compare_scaled _ _ power).2, ← valueOfCode_eq] at hbelow
  rw [Nat.mul_comm _ (below + 1), ← not_le, (compare_scaled _ _ power).2, ← valueOfCode_eq,
    not_le] at habove
  have hmiddle : ((2 * (2 * unitsOfCode code) : Nat) / (2 * unitsPerOne) : ℚ) =
      2 * valueOfCode code := by
    rw [valueOfCode_eq]
    push_cast
    ring
  have middle := compare_scaled (2 * (2 * unitsOfCode code)) (2 * below + 1) power
  rw [hmiddle, Nat.mul_assoc] at middle
  push_cast at middle
  refine ⟨below, hbelow, habove, ?_⟩
  rw [← inside_iff hcode, ← inside_iff hcode, ← middle.1, ← middle.2]
  cases hlow : inside code power below <;> cases hhigh : inside code power (below + 1)
  · exact .inl ⟨rfl, Bool.false_ne_true, Bool.false_ne_true⟩
  · exact .inr (.inr ⟨rfl, rfl, fun h => absurd h Bool.false_ne_true⟩)
  · exact .inr (.inl ⟨rfl, rfl, fun h => absurd h Bool.false_ne_true⟩)
  · -- both round to the double; halfway between them the choice does not matter
    dsimp only
    split_ifs with hnear hfar heven
    · exact .inr (.inl ⟨rfl, rfl, fun _ => hnear.le⟩)
    · exact .inr (.inr ⟨rfl, rfl, fun _ => hfar.le⟩)
    · cases tie
      · exact .inr (.inl ⟨rfl, rfl, fun _ => Nat.not_lt.1 hfar⟩)
      · exact .inr (.inr ⟨rfl, rfl, fun _ => Nat.not_lt.1 hnear⟩)
    · refine .inr (.inr ⟨?_, rfl, fun _ => Nat.not_lt.1 hnear⟩)
      cases tie <;> rfl

/-- There is no multiple between one and the next. -/
theorem multiple_le_or_succ_le (below m : Nat) (power : Int) :
    (m : ℚ) * 10 ^ power ≤ below * 10 ^ power ∨
      ((below + 1 : Nat) : ℚ) * 10 ^ power ≤ m * 10 ^ power := by
  have hpos := ten_zpow_pos power
  rcases Nat.lt_or_ge below m with h | h
  · exact .inr (mul_le_mul_of_nonneg_right (by exact_mod_cast h) hpos.le)
  · exact .inl (mul_le_mul_of_nonneg_right (by exact_mod_cast h) hpos.le)

/-- What the search finds rounds to the double, and no multiple that does is nearer. -/
theorem onGrid_some {tie : Tie} (hcode : 0 < code) (h : onGrid tie code power = some m) :
    InInterval code (m * 10 ^ power) ∧ ∀ c : Nat, InInterval code (c * 10 ^ power) →
      |m * 10 ^ power - valueOfCode code| ≤ |c * 10 ^ power - valueOfCode code| := by
  have hself := inInterval_valueOfCode hcode
  obtain ⟨below, hlow, hhigh, hnone | ⟨hsome, hinside, hnear⟩ | ⟨hsome, hinside, hnear⟩⟩ :=
    onGrid_cases tie hcode power
  · rw [h] at hnone
    exact absurd hnone.1 (Option.some_ne_none m)
  · obtain rfl : m = below := by rw [h] at hsome; exact Option.some.inj hsome
    refine ⟨hinside, fun c hc => ?_⟩
    rw [abs_of_nonpos (by linarith)]
    -- another multiple lies on one side of the value, beyond the neighbour there
    rcases multiple_le_or_succ_le m c power with hle | hge
    · rw [abs_of_nonpos (by linarith)]
      linarith
    · have := hnear (hself.convex hc hhigh.le hge)
      push_cast at *
      rw [abs_of_nonneg (by linarith)]
      linarith
  · obtain rfl : m = below + 1 := by rw [h] at hsome; exact Option.some.inj hsome
    refine ⟨hinside, fun c hc => ?_⟩
    rw [abs_of_nonneg (by linarith)]
    rcases multiple_le_or_succ_le below c power with hle | hge
    · have := hnear (hc.convex hself hle hlow)
      push_cast at *
      rw [abs_of_nonpos (by linarith)]
      linarith
    · rw [abs_of_nonneg (by linarith)]
      linarith

/-- If it finds none, no multiple rounds to the double. -/
theorem onGrid_none {tie : Tie} (hcode : 0 < code) (h : onGrid tie code power = none) (c : Nat) :
    ¬ InInterval code (c * 10 ^ power) := by
  have hself := inInterval_valueOfCode hcode
  obtain ⟨below, hlow, hhigh, ⟨-, hbelow, habove⟩ | hsome | hsome⟩ := onGrid_cases tie hcode power
  · intro hc
    rcases multiple_le_or_succ_le below c power with hle | hge
    · exact hbelow (hc.convex hself hle hlow)
    · exact habove (hself.convex hc hhigh.le hge)
  · rw [h] at hsome
    exact absurd hsome.1.symm (Option.some_ne_none _)
  · rw [h] at hsome
    exact absurd hsome.1.symm (Option.some_ne_none _)

/-- On a grid finer than the interval is wide a multiple is found. -/
theorem onGrid_isSome (tie : Tie) (hcode : 0 < code)
    (hfine : (10 : ℚ) ^ power < halfway code - halfway (code - 1)) :
    (onGrid tie code power).isSome = true := by
  by_contra hnone
  rw [Option.not_isSome_iff_eq_none] at hnone
  have hlow := halfway_lt_valueOfCode hcode
  have hhigh := valueOfCode_lt_halfway code
  obtain ⟨below, hle, hlt, -⟩ := onGrid_cases tie hcode power
  -- neither neighbour of the value is inside, so the whole interval lies between them
  have hbelow := mt (fun h => inInterval_of_between h (hle.trans_lt hhigh))
    (onGrid_none hcode hnone below)
  have habove := mt (inInterval_of_between (hlow.trans hlt)) (onGrid_none hcode hnone (below + 1))
  push_cast at *
  linarith

end

/-! ## The first digit -/

theorem length_bounds {n : Nat} (hn : 0 < n) :
    10 ^ ((Digit.ofNat n).length - 1) ≤ n ∧ n < 10 ^ (Digit.ofNat n).length := by
  obtain ⟨d, more, hdigits, hd⟩ := Digit.exists_ofNat hn
  have hlow := Digit.le_value_cons hd more
  have hhigh := Digit.value_lt (d :: more)
  rw [← hdigits, Digit.value_ofNat] at hlow hhigh
  rw [hdigits] at hhigh ⊢
  exact ⟨hlow, hhigh⟩

/-- A decimal is at least the power of ten of its first digit, and below the next. -/
theorem power_bounds {s : Scientific} (hs : 0 < s.digits) :
    (10 : ℚ) ^ s.power ≤ s.value ∧ s.value < 10 ^ (s.power + 1) := by
  obtain ⟨hlow, hhigh⟩ := length_bounds hs
  have hlength : 0 < s.length := List.length_pos_iff.2 (Digit.ofNat_ne_nil _)
  have hpos := ten_zpow_pos s.exponent
  have hfirst : (10 : ℚ) ^ s.exponent * 10 ^ (s.length - 1) = 10 ^ s.power :=
    ten_zpow_mul_pow (by unfold Scientific.power; omega)
  have hnext : (10 : ℚ) ^ s.exponent * 10 ^ s.length = 10 ^ (s.power + 1) :=
    ten_zpow_mul_pow (by unfold Scientific.power; omega)
  rw [← hfirst, ← hnext, Scientific.value, mul_comm (s.digits : ℚ)]
  exact ⟨mul_le_mul_of_nonneg_left (by exact_mod_cast hlow) hpos.le,
    mul_lt_mul_of_pos_left (by exact_mod_cast hhigh) hpos⟩

/-- The value of a code lies in the decade of its first digit. -/
theorem leadingPower_bounds {code : Nat} (hcode : 0 < code) :
    (10 : ℚ) ^ leadingPower code ≤ valueOfCode code ∧
      valueOfCode code < 10 ^ (leadingPower code + 1) := by
  have hunits : 0 < unitsOfCode code := Nat.pos_of_ne_zero fun h => by
    rw [unitsOfCode_eq_zero] at h
    omega
  have hroom : unitsPerOne ≤ tenTo manyPlaces := by decide +kernel
  have hone := unitsPerOne_pos
  have hlow := Nat.div_mul_le_self (unitsOfCode code * tenTo manyPlaces) unitsPerOne
  have hhigh := Nat.lt_mul_div_succ (unitsOfCode code * tenTo manyPlaces) hone
  have hpos : 0 < unitsOfCode code * tenTo manyPlaces / unitsPerOne :=
    Nat.div_pos (Nat.le_trans hroom (Nat.le_mul_of_pos_left _ hunits)) hone
  unfold leadingPower valueOfCode
  generalize unitsOfCode code * tenTo manyPlaces / unitsPerOne = shifted at *
  obtain ⟨hdigits, hdigits'⟩ := length_bounds hpos
  have hlength : 0 < (Digit.ofNat shifted).length := List.length_pos_iff.2 (Digit.ofNat_ne_nil _)
  generalize (Digit.ofNat shifted).length = length at *
  have hone : (0 : ℚ) < unitsPerOne := by exact_mod_cast hone
  -- both bounds, moved up by the places
  have hlow : ((10 ^ (length - 1) * unitsPerOne : Nat) : ℚ) ≤
      (unitsOfCode code * tenTo manyPlaces : Nat) :=
    Nat.cast_le.2 ((Nat.mul_le_mul_right _ hdigits).trans hlow)
  have hhigh : ((unitsOfCode code * tenTo manyPlaces : Nat) : ℚ) <
      (unitsPerOne * 10 ^ length : Nat) :=
    Nat.cast_lt.2 (hhigh.trans_le (Nat.mul_le_mul_left _ hdigits'))
  push_cast [cast_tenTo] at hlow hhigh
  have hplaces : (0 : ℚ) < 10 ^ manyPlaces := by positivity
  have hfirst : (10 : ℚ) ^ ((length : Int) - (manyPlaces + 1 : Nat)) * 10 ^ manyPlaces =
      10 ^ (length - 1) := by
    rw [← zpow_natCast _ (length - 1)]
    exact ten_zpow_mul_pow (by omega)
  have hnext : (10 : ℚ) ^ ((length : Int) - (manyPlaces + 1 : Nat) + 1) * 10 ^ manyPlaces =
      10 ^ length := by
    rw [← zpow_natCast _ length]
    exact ten_zpow_mul_pow (by omega)
  constructor
  · rw [le_div_iff₀ hone, ← mul_le_mul_iff_of_pos_right hplaces, mul_right_comm, hfirst]
    exact hlow
  · rw [div_lt_iff₀ hone, ← mul_lt_mul_iff_of_pos_right hplaces, mul_right_comm, hnext]
    exact hhigh.trans_eq (mul_comm _ _)

/-- What rounds to a double is no nearer than some multiple on the grid of its last digit, or on a
coarser one, that rounds to the double too. -/
theorem exists_multiple {code : Nat} (hcode : 0 < code) {t : Scientific}
    (ht : InInterval code t.value) : ∃ k < t.length, ∃ c : Nat,
    InInterval code (c * 10 ^ (leadingPower code - k)) ∧
      |c * 10 ^ (leadingPower code - k) - valueOfCode code| ≤ |t.value - valueOfCode code| := by
  have hself := inInterval_valueOfCode hcode
  have hdigits : 0 < t.digits := Nat.pos_of_ne_zero fun h => by
    have := ht.pos
    simp [Scientific.value, h] at this
  have hlength : 0 < t.length := List.length_pos_iff.2 (Digit.ofNat_ne_nil _)
  obtain ⟨hlow, hhigh⟩ := leadingPower_bounds hcode
  obtain ⟨hlow', hhigh'⟩ := power_bounds hdigits
  generalize leadingPower code = first at *
  have hone : (1 : ℚ) ≤ 10 := by norm_num
  rcases Int.lt_trichotomy t.power first with hlt | heq | hgt
  · -- below the decade of the value: its first power of ten is between them
    have hbetween : t.value < 10 ^ first :=
      hhigh'.trans_le (zpow_le_zpow_right₀ hone (by omega))
    refine ⟨0, hlength, 1, ?_⟩
    rw [Nat.cast_one, one_mul, Nat.cast_zero, sub_zero]
    refine ⟨ht.convex hself hbetween.le hlow, ?_⟩
    rw [abs_of_nonpos (by linarith), abs_of_nonpos (by linarith)]
    linarith
  · refine ⟨t.length - 1, by omega, t.digits, ?_⟩
    have hexponent : first - (t.length - 1 : Nat) = t.exponent := by
      unfold Scientific.power at heq
      omega
    rw [hexponent]
    exact ⟨ht, le_rfl⟩
  · -- above it: the next decade begins between them
    have hbetween : (10 : ℚ) ^ (first + 1) ≤ t.value :=
      (zpow_le_zpow_right₀ hone (by omega)).trans hlow'
    have hten : ((10 : Nat) : ℚ) * 10 ^ (first - (0 : Nat)) = 10 ^ (first + 1) := by
      rw [zpow_add₀ (by norm_num), zpow_one, Nat.cast_zero, sub_zero]
      ring
    refine ⟨0, hlength, 10, ?_⟩
    rw [hten]
    refine ⟨hself.convex ht hhigh.le hbetween, ?_⟩
    rw [abs_of_nonneg (by linarith), abs_of_nonneg (by linarith)]
    linarith

/-! ## The search -/

theorem length_stripped_le {s : Scientific} {n : Nat} (hn : 0 < n) (h : s.digits ≤ 10 ^ n) :
    s.stripped.length ≤ n := by
  induction s using Scientific.stripped.induct with
  | case1 s hs ih =>
    rw [Scientific.stripped, dif_pos hs]
    exact ih ((Nat.div_le_self _ _).trans h)
  | case2 s hs =>
    rw [Scientific.stripped, dif_neg hs]
    have hten : 10 ∣ 10 ^ n := dvd_pow_self 10 (by omega)
    -- only a power of ten could reach the bound, but it would have been stripped further
    have hlt : s.digits < 10 ^ n := by
      refine lt_of_le_of_ne h fun heq => hs ⟨?_, ?_⟩
      · rw [heq]
        positivity
      · rw [heq]
        exact Nat.mod_eq_zero_of_dvd hten
    rcases Nat.eq_zero_or_pos s.digits with hzero | hpos
    · rw [Scientific.length, hzero, Digit.ofNat_zero]
      exact hn
    · have := (Nat.pow_lt_pow_iff_right (by decide)).1 ((length_bounds hpos).1.trans_lt hlt)
      unfold Scientific.length
      omega

/-- What is found among the first numbers is found at the least that has it. -/
theorem first_of_findSome? {β : Type} {f : Nat → Option β} {n : Nat} {b : β}
    (h : (List.range n).findSome? f = some b) : ∃ k < n, f k = some b ∧ ∀ j < k, f j = none := by
  induction n with
  | zero => cases h
  | succ n ih =>
    rw [List.range_succ, List.findSome?_append] at h
    cases hn : (List.range n).findSome? f with
    | some c =>
      rw [hn] at h ih
      obtain ⟨k, hk, hfirst⟩ := ih h
      exact ⟨k, by omega, hfirst⟩
    | none =>
      rw [hn, Option.none_or] at h
      refine ⟨n, by omega, by simpa using h, fun j hj => ?_⟩
      exact List.findSome?_eq_none_iff.1 hn j (List.mem_range.2 hj)

/-- The search ends at the first grid of seventeen that has a multiple which rounds to the
double: seventeen digits always suffice. -/
theorem shortest_found (tie : Tie) {code : Nat} (hcode : 0 < code) : ∃ k m : Nat, k < 17 ∧
    onGrid tie code (leadingPower code - k) = some m ∧
      shortest tie code = Scientific.stripped ⟨m, leadingPower code - k⟩ ∧
      ∀ j < k, onGrid tie code (leadingPower code - j) = none := by
  -- the spacing at the seventeenth digit is less than the width of the interval
  have hfine : (10 : ℚ) ^ (leadingPower code - (16 : Nat)) <
      halfway code - halfway (code - 1) := by
    have hlow := (leadingPower_bounds hcode).1
    have hwidth := valueOfCode_lt_width hcode
    have hspread : (10 : ℚ) ^ 16 * 10 ^ (leadingPower code - (16 : Nat)) =
        10 ^ leadingPower code := by
      rw [mul_comm]
      exact ten_zpow_mul_pow (by omega)
    rw [← mul_lt_mul_iff_of_pos_left (show (0 : ℚ) < 10 ^ 16 by norm_num), hspread]
    exact hlow.trans_lt hwidth
  have hsome := onGrid_isSome tie hcode hfine
  unfold shortest
  dsimp only
  generalize hfound : List.findSome? _ (List.range 17) = found
  cases found with
  | none =>
    have hnone := List.findSome?_eq_none_iff.1 hfound 16 (by decide)
    rw [Option.map_eq_none_iff] at hnone
    rw [hnone] at hsome
    cases hsome
  | some s =>
    obtain ⟨k, hk, hfirst, hbefore⟩ := first_of_findSome? hfound
    obtain ⟨m, hm, rfl⟩ := Option.map_eq_some_iff.1 hfirst
    exact ⟨k, m, hk, hm, rfl, fun j hj => Option.map_eq_none_iff.1 (hbefore j hj)⟩

/-- A decimal rounds to a code, none of fewer digits does, and none of as many digits that does is
nearer. -/
structure IsShortest (code : Nat) (s : Scientific) : Prop where
  rounds : InInterval code s.value
  fewest : ∀ t : Scientific, InInterval code t.value → s.length ≤ t.length
  nearest : ∀ t : Scientific, InInterval code t.value → t.length = s.length →
    |s.value - valueOfCode code| ≤ |t.value - valueOfCode code|

theorem isShortest_shortest (tie : Tie) {code : Nat} (hcode : 0 < code) :
    IsShortest code (shortest tie code) := by
  obtain ⟨k, m, -, hm, hshortest, hcoarser⟩ := shortest_found tie hcode
  obtain ⟨hinside, hnearest⟩ := onGrid_some hcode hm
  have hvalue : (shortest tie code).value = m * 10 ^ (leadingPower code - k) := by
    rw [hshortest, value_stripped, Scientific.value]
  -- no more digits than the decade of the value has on this grid
  have hlength : (shortest tie code).length ≤ k + 1 := by
    rw [hshortest]
    refine length_stripped_le k.succ_pos (Nat.not_lt.1 fun hgreat => ?_)
    obtain ⟨hlow, hhigh⟩ := leadingPower_bounds hcode
    have hnext : ((10 ^ (k + 1) : Nat) : ℚ) * 10 ^ (leadingPower code - k) =
        10 ^ (leadingPower code + 1) := by
      rw [Nat.cast_pow, Nat.cast_ofNat, mul_comm]
      exact ten_zpow_mul_pow (by omega)
    have hless : ((10 ^ (k + 1) : Nat) : ℚ) * 10 ^ (leadingPower code - k) <
        m * 10 ^ (leadingPower code - k) :=
      mul_lt_mul_of_pos_right (by exact_mod_cast hgreat) (ten_zpow_pos _)
    have hnear := hnearest (10 ^ (k + 1)) ((inInterval_valueOfCode hcode).convex hinside
      (hnext ▸ hhigh.le) hless.le)
    rw [abs_of_nonneg (by linarith), abs_of_nonneg (by linarith)] at hnear
    linarith
  have hfinest : ∀ {t : Scientific}, InInterval code t.value → ∃ j, k ≤ j ∧ j < t.length ∧
      ∃ c : Nat, InInterval code (c * 10 ^ (leadingPower code - j)) ∧
        |c * 10 ^ (leadingPower code - j) - valueOfCode code| ≤ |t.value - valueOfCode code| := by
    intro t ht
    obtain ⟨j, hj, c, hc, hnear⟩ := exists_multiple hcode ht
    refine ⟨j, Nat.not_lt.1 fun hlt => ?_, hj, c, hc, hnear⟩
    exact onGrid_none hcode (hcoarser j hlt) c hc
  refine ⟨hvalue ▸ hinside, fun t ht => ?_, fun t ht hequal => ?_⟩
  · obtain ⟨j, hkj, hj, -⟩ := hfinest ht
    omega
  · obtain ⟨j, hkj, hj, c, hc, hnear⟩ := hfinest ht
    obtain rfl : j = k := by omega
    rw [hvalue]
    exact (hnearest c hc).trans hnear

theorem digits_shortest_pos (tie : Tie) {code : Nat} (hcode : 0 < code) :
    0 < (shortest tie code).digits := Nat.pos_of_ne_zero fun h => by
  have hpos := (isShortest_shortest tie hcode).rounds.pos
  simp [Scientific.value, h] at hpos

end Decimal

end Slowdown
