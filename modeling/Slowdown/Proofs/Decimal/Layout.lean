/-
Numerals of doubles: a layout moves the point of the shortest decimal and pads it with zeros, but
denotes what it lays out, so the double nearest to the numeral is the one it was written for.
-/
import Slowdown.Decimal.Layout
import Slowdown.Proofs.Decimal.Shortest

namespace Slowdown

open Double

/-! ## Values of numerals -/

/-- The magnitude that a numeral denotes. -/
def Numeral.magnitude (n : Numeral) : ℚ := n.significand * (10 : ℚ) ^ n.scale

namespace Decimal

theorem code_pos {x : Double} (h : x.isZero = false) : 0 < x.code := by
  simp only [isZero, decide_eq_false_iff_not] at h
  omega

/-! ## Forms -/

/-- The forms in which a layout can write a decimal. -/
inductive Layout.LaysOut (l : Layout) (s : Scientific) : Numeral → Prop
  /-- Zeros up to the point, and perhaps after it. -/
  | whole {negative : Bool} (zeros : Nat) (exponent : 0 ≤ s.exponent)
    (positional : l.isPositional s.power = true) :
    LaysOut l s ⟨negative, Digit.ofNat s.digits ++ List.replicate s.exponent.toNat .zero,
      List.replicate zeros .zero, none⟩
  /-- A point among the digits. -/
  | mixed {negative : Bool} {d : Digit} {front back : List Digit}
    (digits : Digit.ofNat s.digits = d :: front ++ back) (exponent : s.exponent = -back.length)
    (positional : l.isPositional s.power = true) :
    LaysOut l s ⟨negative, d :: front, back, none⟩
  /-- A point in front of the digits. -/
  | small {negative : Bool} (zeros : Nat)
    (exponent : s.exponent = -(zeros + (Digit.ofNat s.digits).length : Nat)) :
    LaysOut l s ⟨negative, [.zero], List.replicate zeros .zero ++ Digit.ofNat s.digits, none⟩
  /-- An exponent, and a point after the first digit if there are more. -/
  | scientific {negative : Bool} {d : Digit} {more : List Digit}
    (digits : Digit.ofNat s.digits = d :: more) :
    LaysOut l s ⟨negative, [d], more, some ⟨s.power < 0, Digit.ofNat s.power.natAbs⟩⟩

theorem laysOut_numeral (l : Layout) {x : Double} (hzero : x.isZero = false) :
    l.LaysOut (shortest l.tie x.code) (l.numeral x) := by
  unfold Layout.numeral
  rw [hzero, if_neg Bool.false_ne_true]
  generalize shortest l.tie x.code = s
  obtain ⟨zeros, hpoint⟩ : ∃ zeros, (if l.pointZero = true then [Digit.zero] else []) =
      List.replicate zeros .zero := by
    cases l.pointZero
    · exact ⟨0, rfl⟩
    · exact ⟨1, rfl⟩
  obtain ⟨d, more, hdigits, -⟩ := Digit.isWhole_ofNat s.digits
  dsimp only
  rw [hpoint]
  -- the four branches of the layout are the four forms
  split_ifs with hpositional hwhole hinside
  · exact .whole zeros (by omega) hpositional
  · obtain ⟨k, hk⟩ : ∃ k, (Digit.ofNat s.digits).length - (-s.exponent).toNat = k + 1 :=
      ⟨(Digit.ofNat s.digits).length - (-s.exponent).toNat - 1, by omega⟩
    have hlength : (more.drop k).length = (-s.exponent).toNat := by
      rw [hdigits, List.length_cons] at hk hinside
      rw [List.length_drop]
      omega
    have hfront : (Digit.ofNat s.digits).take (k + 1) = d :: more.take k := by
      rw [hdigits, List.take_succ_cons]
    have hback : (Digit.ofNat s.digits).drop (k + 1) = more.drop k := by
      rw [hdigits, List.drop_succ_cons]
    rw [hk, hfront, hback]
    refine .mixed ?_ (by omega) hpositional
    rw [hdigits, List.cons_append, List.take_append_drop]
  · exact .small _ (by omega)
  · have hfirst : (Digit.ofNat s.digits).take 1 = [d] := by rw [hdigits]; rfl
    have hmore : (Digit.ofNat s.digits).drop 1 = more := by rw [hdigits]; rfl
    rw [hfirst, hmore]
    exact .scientific hdigits

/-- A layout gives the form of numerals in a text. -/
theorem isWritten_numeral (l : Layout) (x : Double) : (l.numeral x).IsWritten := by
  cases hzero : x.isZero with
  | true =>
    rw [Layout.numeral, if_pos hzero]
    exact ⟨Digit.isWhole_zero, nofun⟩
  | false =>
    have hpos := digits_shortest_pos l.tie (code_pos hzero)
    have laid := laysOut_numeral l hzero
    generalize shortest l.tie x.code = s at *
    generalize l.numeral x = n at *
    cases laid with
    | whole zeros exponent positional =>
      refine ⟨?_, nofun⟩
      -- the first digit of a decimal above zero is not zero
      obtain ⟨d, more, hdigits, hd⟩ := Digit.exists_ofNat hpos
      exact ⟨d, _, by rw [hdigits]; rfl, fun h => absurd h hd⟩
    | mixed digits exponent positional =>
      refine ⟨?_, nofun⟩
      obtain ⟨d, more, hdigits, hd⟩ := Digit.exists_ofNat hpos
      rw [digits, List.cons_append] at hdigits
      cases hdigits
      exact ⟨_, _, rfl, fun h => absurd h hd⟩
    | small zeros exponent => exact ⟨Digit.isWhole_zero, nofun⟩
    | scientific digits =>
      refine ⟨⟨_, [], rfl, fun _ => rfl⟩, ?_⟩
      rintro _ ⟨⟩
      exact Digit.ofNat_ne_nil _

/-- A layout denotes what it lays out. -/
theorem magnitude_numeral (l : Layout) {x : Double} (hzero : x.isZero = false) :
    (l.numeral x).magnitude = (shortest l.tie x.code).value := by
  have laid := laysOut_numeral l hzero
  generalize shortest l.tie x.code = s at *
  generalize l.numeral x = n at *
  unfold Numeral.magnitude Numeral.significand Numeral.scale Scientific.value
  cases laid with
  | whole zeros exponent positional =>
    obtain ⟨power, hpower⟩ := Int.eq_ofNat_of_zero_le exponent
    -- zeros before the point are the power, those after it are taken back by the scale
    have hvalue : Digit.value (Digit.ofNat s.digits ++ List.replicate s.exponent.toNat .zero
        ++ List.replicate zeros .zero) = s.digits * 10 ^ power * 10 ^ zeros := by
      simp [Digit.value_append, hpower, pow_add, mul_assoc]
    simp only [hvalue, Numeral.writtenExponent, List.length_replicate, zero_sub]
    rw [hpower, zpow_neg, zpow_natCast, zpow_natCast]
    push_cast
    field_simp
  | mixed digits exponent positional =>
    have hvalue := Digit.value_ofNat s.digits
    rw [digits] at hvalue
    simp only [hvalue, Numeral.writtenExponent, exponent, zero_sub]
  | small zeros exponent =>
    have hvalue : Digit.value ([.zero] ++ (List.replicate zeros .zero ++ Digit.ofNat s.digits)) =
        s.digits := by
      have hzero : Digit.value [.zero] = 0 := rfl
      simp only [Digit.value_append, hzero, Digit.value_replicate_zero, Digit.value_ofNat, zero_mul,
        zero_add]
    simp only [hvalue, Numeral.writtenExponent, exponent, List.length_append,
      List.length_replicate, zero_sub]
  | scientific digits =>
    have hvalue := Digit.value_ofNat s.digits
    have hpower : s.power = s.exponent + List.length (Digit.ofNat s.digits) - 1 := rfl
    rw [digits] at hvalue hpower
    -- sign and digits of the exponent make up the power again
    have hwritten : (if decide (s.power < 0) = true then
        -(Digit.value (Digit.ofNat s.power.natAbs) : Int)
        else Digit.value (Digit.ofNat s.power.natAbs)) = s.power := by
      simp only [Digit.value_ofNat, decide_eq_true_eq]
      omega
    simp only [List.singleton_append, hvalue, Numeral.writtenExponent, hwritten]
    congr 2
    rw [hpower, List.length_cons]
    omega

/-- Without an exponent a layout writes no more digits before the point than its bound says. -/
theorem Layout.LaysOut.length_whole {l : Layout} {s : Scientific} {n : Numeral} {low high : Int}
    (laid : l.LaysOut s n) (hl : l.positional = some (low, high)) (hhigh : 0 ≤ high) :
    n.whole.length ≤ high + 1 := by
  have hbound : l.isPositional s.power = true → s.power ≤ high := by
    intro h
    rw [Layout.isPositional, hl] at h
    simp only [Bool.and_eq_true, decide_eq_true_eq] at h
    exact h.2
  have hpower : s.power = s.exponent + (Digit.ofNat s.digits).length - 1 := rfl
  cases laid with
  | whole zeros exponent positional =>
    -- as many digits as the power says, and one
    have := hbound positional
    simp only [List.length_append, List.length_replicate]
    omega
  | mixed digits exponent positional =>
    have := hbound positional
    rw [digits, List.length_append] at hpower
    dsimp only
    omega
  | small zeros exponent =>
    simp only [List.length_singleton]
    omega
  | scientific digits =>
    simp only [List.length_singleton]
    omega

/-- An exponent is the power of ten of the first digit. -/
theorem Layout.LaysOut.value_exponent {l : Layout} {s : Scientific} {n : Numeral}
    (laid : l.LaysOut s n) {e : Exponent} (he : e ∈ n.exponent) (hsign : e.negative = false) :
    (Digit.value e.digits : Int) = s.power := by
  cases laid with
  | scientific digits =>
    cases he
    rw [decide_eq_false_iff_not] at hsign
    rw [Digit.value_ofNat]
    omega
  | whole | mixed | small => cases he

/-! ## The nearest double -/

theorem negative_numeral (l : Layout) (x : Double) : (l.numeral x).negative = x.negative := by
  unfold Layout.numeral
  dsimp only
  split_ifs <;> rfl

/-- What rounds to a finite double is not beyond the powers of ten at which reading cuts off. -/
theorem cutoff_bounds {code : Nat} (hfinite : code < infinityCode) {q : ℚ}
    (h : InInterval code q) : (10 : ℚ) ^ (-400 : Int) ≤ q ∧ q < 10 ^ (400 : Int) := by
  have hone := unitsPerOne_pos_rat
  have hsmall : 2 * unitsPerOne ≤ tenTo 400 := by decide +kernel
  have hgreat : unitsOfCode infinityCode < tenTo 400 * unitsPerOne := by decide +kernel
  have hsmall : (2 * unitsPerOne : ℚ) ≤ 10 ^ 400 := by
    rw [← cast_tenTo]
    exact_mod_cast hsmall
  have hgreat : valueOfCode infinityCode < 10 ^ 400 := by
    rw [valueOfCode, div_lt_iff₀ hone, ← cast_tenTo]
    exact_mod_cast hgreat
  constructor
  · -- half the smallest double is the lower end of all intervals
    have hleast : halfway 0 = (2 * unitsPerOne : ℚ)⁻¹ := by
      rw [halfway_eq, unitsOfCode_zero, unitsOfCode_of_le (by decide)]
      norm_num
    have hlow := (halfway_mono (Nat.zero_le (code - 1))).trans h.bounds.1
    rw [hleast] at hlow
    refine le_trans ?_ hlow
    rw [zpow_neg]
    exact inv_anti₀ (by positivity) hsmall
  · -- the next double is at most infinity, which stands for `2^1024`
    have hnext := halfway_lt_valueOfCode code.succ_pos
    have hlast := valueOfCode_strictMono.monotone (Nat.succ_le_of_lt hfinite)
    exact (h.bounds.2.trans_lt hnext).trans_le (hlast.trans hgreat.le)

/-- A numeral in the rounding interval of a double is read as that double. -/
theorem nearest_eq {n : Numeral} {x : Double} (hx : x.isFinite = true) (hzero : x.isZero = false)
    (hsign : n.negative = x.negative) (h : InInterval x.code n.magnitude) : n.nearest = x := by
  rw [isFinite_iff] at hx
  obtain ⟨hlow, hhigh⟩ := cutoff_bounds hx h
  have hten : (1 : ℚ) < 10 := by norm_num
  have hsignificand : n.significand ≠ 0 := fun hnone => by
    have hpos := h.pos
    simp [Numeral.magnitude, hnone] at hpos
  -- neither cut is reached, since the value lies within the bounds
  have hscale : ¬ 400 < n.scale := fun hbeyond => by
    have hle : (10 : ℚ) ^ n.scale ≤ n.magnitude :=
      le_mul_of_one_le_left (ten_zpow_pos _).le
        (by exact_mod_cast Nat.one_le_iff_ne_zero.2 hsignificand)
    exact absurd ((zpow_lt_zpow_iff_right₀ hten).1 (hle.trans_lt hhigh)) (by omega)
  have hdigits : ¬ n.scale + (n.whole.length + n.fraction.length : Nat) < -400 := fun hbelow => by
    have hlt : n.significand < 10 ^ (n.whole.length + n.fraction.length) := by
      rw [← List.length_append]
      exact Digit.value_lt _
    have hless : n.magnitude < 10 ^ (n.scale + (n.whole.length + n.fraction.length : Nat)) := by
      rw [← ten_zpow_mul_pow rfl, Numeral.magnitude, mul_comm]
      exact mul_lt_mul_of_pos_left (by exact_mod_cast hlt) (ten_zpow_pos _)
    exact absurd ((zpow_lt_zpow_iff_right₀ hten).1 (hlow.trans_lt hless)) (by omega)
  have hquotient : ((n.significand * tenTo n.scale.toNat * unitsPerOne : Nat) /
      tenTo (-n.scale).toNat : ℚ) / unitsPerOne = n.magnitude := by
    have hone := unitsPerOne_pos_rat
    have hpower := zpow_mul_tenTo n.scale
    have hdivisor : (0 : ℚ) < tenTo (-n.scale).toNat := by exact_mod_cast tenTo_pos _
    unfold Numeral.magnitude
    generalize unitsPerOne = one at *
    push_cast
    rw [← hpower]
    field_simp
  rw [← hquotient, ← nearestCode_eq_iff (tenTo_pos _) (code_pos hzero) hx] at h
  rw [Numeral.nearest, if_neg hsignificand, if_neg hscale, if_neg hdigits, Double.round]
  simp only [h, hsign]

/-- The double nearest to the numeral of a finite double is the double. -/
theorem nearest_numeral (l : Layout) {x : Double} (hx : x.isFinite = true) :
    (l.numeral x).nearest = x := by
  cases hzero : x.isZero with
  | true =>
    obtain ⟨negative, code, hcode⟩ := x
    obtain rfl : code = 0 := by simpa [isZero] using hzero
    rw [Layout.numeral, if_pos hzero]
    cases l.pointZero <;> rfl
  | false =>
    refine nearest_eq hx hzero (negative_numeral l x) ?_
    rw [magnitude_numeral l hzero]
    exact (isShortest_shortest l.tie (code_pos hzero)).rounds

/-- What a layout writes of a finite double is a numeral that the double is read from. -/
theorem write_reads_back (l : Layout) {x : Double} (hx : x.isFinite = true) :
    ∃ n : Numeral, l.write x = String.ofList (n.text l.exponentPlus) ∧ n.IsWritten ∧
      n.nearest = x :=
  ⟨l.numeral x, if_pos hx, isWritten_numeral l x, nearest_numeral l hx⟩

end Decimal

end Slowdown
