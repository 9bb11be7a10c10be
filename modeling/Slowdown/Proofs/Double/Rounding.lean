/-
Rounding to the nearest number, a half to the even code: `nearestCode_le_iff` pins the rounded
code by comparing the exact quotient with the midpoint of two neighbours, so rounding is
monotone and leaves every representable value as it is. `ofRatio` carries this over to quotients
with a sign.
-/
import Slowdown.Proofs.Double.Units

namespace Slowdown

/-! ## The nearest integer -/

theorem roundHalfEven_le_iff {a d m : Nat} (hd : 0 < d) :
    roundHalfEven a d ≤ m ↔
      2 * a < (2 * m + 1) * d ∨ 2 * a = (2 * m + 1) * d ∧ m % 2 = 0 := by
  have ha := Nat.div_add_mod a d
  have hr := Nat.mod_lt a hd
  have hm : (2 * m + 1) * d = 2 * (d * m) + d := by ring
  unfold roundHalfEven
  dsimp only
  generalize a / d = q at *
  generalize a % d = r at *
  rw [hm]
  -- only for a quotient that starts at `m` does the remainder matter
  rcases Nat.lt_trichotomy q m with h | rfl | h
  · have hq : d * (q + 1) ≤ d * m := Nat.mul_le_mul_left d h
    rw [Nat.mul_add, Nat.mul_one] at hq
    constructor
    · intro _; omega
    · intro _; split_ifs <;> omega
  · split_ifs <;> omega
  · have hq : d * (m + 1) ≤ d * q := Nat.mul_le_mul_left d h
    rw [Nat.mul_add, Nat.mul_one] at hq
    constructor
    · intro h'; split_ifs at h' <;> omega
    · intro _; omega

namespace Double

/-! ## The nearest code -/

/-- The code of the number nearest to `a / d` units, were there no largest number. -/
def freeCode (a d : Nat) : Nat :=
  let shift := (a / d).log2 - 52
  shift * binade + roundHalfEven a (d <<< shift)

theorem nearestCode_eq (a d : Nat) : nearestCode a d = min infinityCode (freeCode a d) := rfl

/-- The exponent `s` of a quotient: less than `2^53` units of it, and at least `2^52` unless it
is the least. -/
theorem quotient_bounds {a d : Nat} (hd : 0 < d) :
    a < 2 * binade * (d * 2 ^ ((a / d).log2 - 52)) ∧
      ((a / d).log2 - 52 = 0 ∨ binade * (d * 2 ^ ((a / d).log2 - 52)) ≤ a) := by
  have hlt : a / d < 2 ^ ((a / d).log2 + 1) := Nat.lt_log2_self
  have hle : a / d ≠ 0 → 2 ^ (a / d).log2 ≤ a / d := Nat.log2_self_le
  generalize hl : (a / d).log2 = l at *
  have hlog0 : a / d = 0 → l = 0 := by intro h; rw [← hl, h]; decide
  constructor
  · -- above by the next power of two
    have hpow : 2 ^ (l + 1) ≤ 2 * binade * 2 ^ (l - 52) := by
      rw [binade_eq, ← Nat.pow_succ', ← Nat.pow_add]
      exact Nat.pow_le_pow_right (by decide) (by omega)
    have := (Nat.div_lt_iff_lt_mul hd).1 (Nat.lt_of_lt_of_le hlt hpow)
    calc a < 2 * binade * 2 ^ (l - 52) * d := this
      _ = 2 * binade * (d * 2 ^ (l - 52)) := by ring
  · by_cases h : l - 52 = 0
    · exact .inl h
    · right
      -- below by its own, unless the exponent is the least
      have hpow : binade * 2 ^ (l - 52) = 2 ^ l := by
        rw [binade_eq, ← Nat.pow_add]; congr 1; omega
      have hq : binade * 2 ^ (l - 52) ≤ a / d := by
        rw [hpow]; exact hle fun h0 => h (by rw [hlog0 h0])
      calc binade * (d * 2 ^ (l - 52)) = binade * 2 ^ (l - 52) * d := by ring
        _ ≤ a / d * d := Nat.mul_le_mul_right d hq
        _ ≤ a := Nat.div_mul_le_self a d

/-- A significand of less than `2^53` units rounds to at most as many. -/
theorem roundHalfEven_le_of_lt {a D : Nat} (hD : 0 < D) (h : a < 2 * binade * D) :
    roundHalfEven a D ≤ 2 * binade := by
  rw [roundHalfEven_le_iff hD]
  left
  calc 2 * a < 2 * (2 * binade * D) := by omega
    _ ≤ (2 * (2 * binade) + 1) * D := by
      rw [← Nat.mul_assoc]
      exact Nat.mul_le_mul_right _ (by omega)

/-- A significand of at least `2^52` units rounds to at least as many. -/
theorem le_roundHalfEven_of_le {a D : Nat} (hD : 0 < D) (h : binade * D ≤ a) :
    binade ≤ roundHalfEven a D := by
  by_contra hc
  have hc : roundHalfEven a D ≤ binade - 1 := by omega
  rw [roundHalfEven_le_iff hD] at hc
  have hodd : 2 * (binade - 1) + 1 < 2 * binade := by decide
  have hlow : (2 * (binade - 1) + 1) * D < 2 * (binade * D) :=
    calc (2 * (binade - 1) + 1) * D < 2 * binade * D := Nat.mul_lt_mul_of_pos_right hodd hD
      _ = 2 * (binade * D) := Nat.mul_assoc _ _ _
  omega

/-- Codes of lower exponents lie below the quotient. -/
theorem midpoint_lt_of_lower {a d s c : Nat} (hd : 0 < d) (h : binade * (d * 2 ^ s) ≤ a)
    (hc : c < (s + 1) * binade) : (unitsOfCode c + unitsOfCode (c + 1)) * d < 2 * a := by
  have hu : unitsOfCode (c + 1) ≤ binade * 2 ^ s := by
    rw [← unitsOfCode_shifted (s := s) (r := binade) (by omega) (.inr (Nat.le_refl _)),
      unitsOfCode_le]
    rw [Nat.succ_mul] at hc
    exact hc
  have huc : unitsOfCode c < unitsOfCode (c + 1) := unitsOfCode_strictMono (Nat.lt_succ_self c)
  calc (unitsOfCode c + unitsOfCode (c + 1)) * d
      < (binade * 2 ^ s + binade * 2 ^ s) * d := Nat.mul_lt_mul_of_pos_right (by omega) hd
    _ = 2 * (binade * (d * 2 ^ s)) := by ring
    _ ≤ 2 * a := by omega

/-- Codes of higher exponents lie above it. -/
theorem lt_midpoint_of_higher {a d s c : Nat} (h : a < 2 * binade * (d * 2 ^ s))
    (hc : (s + 2) * binade ≤ c) : 2 * a < (unitsOfCode c + unitsOfCode (c + 1)) * d := by
  have hu : 2 * binade * 2 ^ s ≤ unitsOfCode c := by
    rw [← unitsOfCode_shifted (s := s) (r := 2 * binade) (Nat.le_refl _) (.inr (by omega)),
      unitsOfCode_le, ← Nat.add_mul]
    exact hc
  have huc : unitsOfCode c ≤ unitsOfCode (c + 1) := unitsOfCode_le.2 (Nat.le_succ c)
  calc 2 * a < 2 * (2 * binade * (d * 2 ^ s)) := by omega
    _ = (2 * binade * 2 ^ s + 2 * binade * 2 ^ s) * d := by ring
    _ ≤ (unitsOfCode c + unitsOfCode (c + 1)) * d := Nat.mul_le_mul_right d (by omega)

/-- A code is at most `c` exactly if the quotient lies below the midpoint of `c` and its upper
neighbour, or on it and `c` is even. -/
theorem freeCode_le_iff {a d c : Nat} (hd : 0 < d) :
    freeCode a d ≤ c ↔
      2 * a < (unitsOfCode c + unitsOfCode (c + 1)) * d ∨
        2 * a = (unitsOfCode c + unitsOfCode (c + 1)) * d ∧ c % 2 = 0 := by
  obtain ⟨hlt, hge⟩ := quotient_bounds (a := a) hd
  unfold freeCode
  dsimp only
  generalize (a / d).log2 - 52 = s at *
  rw [Nat.shiftLeft_eq]
  have hD : 0 < d * 2 ^ s := Nat.mul_pos hd (Nat.two_pow_pos s)
  have hhi := roundHalfEven_le_of_lt hD hlt
  rcases Nat.lt_or_ge c ((s + 1) * binade) with hc | hc
  · by_cases hs : s = 0
    · -- the least exponent: codes are the units themselves
      subst hs
      rw [unitsOfCode_of_le (by omega), unitsOfCode_of_le (by omega), Nat.zero_mul, Nat.zero_add,
        roundHalfEven_le_iff hD, Nat.pow_zero, Nat.mul_one, show 2 * c + 1 = c + (c + 1) by omega]
    · have hge := hge.resolve_left hs
      have hlo := le_roundHalfEven_of_le hD hge
      have hmid := midpoint_lt_of_lower hd hge hc
      rw [Nat.succ_mul] at hc
      omega
  · rcases Nat.lt_or_ge c ((s + 2) * binade) with hc' | hc'
    · -- the exponent of the quotient
      obtain ⟨m, rfl⟩ : ∃ m, c = s * binade + m := ⟨c - s * binade, by
        rw [Nat.succ_mul] at hc; omega⟩
      rw [Nat.succ_mul] at hc
      rw [Nat.add_mul] at hc'
      rw [Nat.add_assoc, unitsOfCode_shifted (by omega) (.inr (by omega)),
        unitsOfCode_shifted (by omega) (.inr (by omega)), Nat.add_le_add_iff_left,
        roundHalfEven_le_iff hD]
      have hmid : (m * 2 ^ s + (m + 1) * 2 ^ s) * d = (2 * m + 1) * (d * 2 ^ s) := by ring
      have heven : (s * binade + m) % 2 = m % 2 := by simp only [binade]; omega
      rw [hmid, heven]
    · have hmid := lt_midpoint_of_higher hlt hc'
      rw [Nat.add_mul] at hc'
      omega

theorem nearestCode_le_iff {a d c : Nat} (hd : 0 < d) (hc : c < infinityCode) :
    nearestCode a d ≤ c ↔
      2 * a < (unitsOfCode c + unitsOfCode (c + 1)) * d ∨
        2 * a = (unitsOfCode c + unitsOfCode (c + 1)) * d ∧ c % 2 = 0 := by
  rw [← freeCode_le_iff hd, nearestCode_eq]
  omega

/-- A larger quotient never rounds to a smaller number. -/
theorem nearestCode_mono {a d a' d' : Nat} (hd : 0 < d) (hd' : 0 < d') (h : a * d' ≤ a' * d) :
    nearestCode a d ≤ nearestCode a' d' := by
  rcases Nat.lt_or_ge (nearestCode a' d') infinityCode with hc | hc
  · -- the larger quotient does not pass the midpoint above its rounding, nor does the smaller
    have h' := (nearestCode_le_iff hd' hc).1 (Nat.le_refl _)
    rw [nearestCode_le_iff hd hc]
    generalize nearestCode a' d' = c at *
    generalize unitsOfCode c + unitsOfCode (c + 1) = u at *
    have hscale : 2 * a * d' ≤ 2 * a' * d := by
      rw [Nat.mul_assoc, Nat.mul_assoc]; omega
    rcases h' with h' | ⟨h', heven⟩
    · left
      refine Nat.lt_of_mul_lt_mul_right (a := d') ?_
      calc 2 * a * d' ≤ 2 * a' * d := hscale
        _ < u * d' * d := Nat.mul_lt_mul_of_pos_right h' hd
        _ = u * d * d' := Nat.mul_right_comm _ _ _
    · have hle : 2 * a ≤ u * d := by
        refine Nat.le_of_mul_le_mul_right (c := d') ?_ hd'
        calc 2 * a * d' ≤ 2 * a' * d := hscale
          _ = u * d * d' := by rw [h']; exact Nat.mul_right_comm _ _ _
      exact (Nat.lt_or_eq_of_le hle).imp_right fun he => ⟨he, heven⟩
  · exact Nat.le_trans (nearestCode_le a d) hc

/-- A number is its own rounding; infinity stands for `2^1024` and is too. -/
theorem nearestCode_unitsOfCode {c d : Nat} (hd : 0 < d) (hc : c ≤ infinityCode) :
    nearestCode (unitsOfCode c * d) d = c := by
  refine Nat.le_antisymm ?_ ?_
  · rcases Nat.lt_or_eq_of_le hc with hc | rfl
    · have hu : unitsOfCode c < unitsOfCode (c + 1) := unitsOfCode_strictMono (Nat.lt_succ_self c)
      rw [nearestCode_le_iff hd hc, ← Nat.mul_assoc]
      exact .inl (Nat.mul_lt_mul_of_pos_right (by omega) hd)
    · exact nearestCode_le _ _
  · -- the midpoint with the lower neighbour lies below
    by_contra hlt
    obtain ⟨b, rfl⟩ : ∃ b, c = b + 1 := ⟨c - 1, by omega⟩
    have hu : unitsOfCode b < unitsOfCode (b + 1) := unitsOfCode_strictMono (Nat.lt_succ_self b)
    have hle : nearestCode (unitsOfCode (b + 1) * d) d ≤ b := by omega
    rw [nearestCode_le_iff hd (by omega)] at hle
    have hmid : (unitsOfCode b + unitsOfCode (b + 1)) * d < 2 * (unitsOfCode (b + 1) * d) := by
      rw [← Nat.mul_assoc]; exact Nat.mul_lt_mul_of_pos_right (by omega) hd
    omega

/-! ## Quotients with a sign -/

/-- The number nearest to `n / d` units. -/
def ofRatio (n : Int) (d : Nat) : Double := round (n < 0) n.natAbs d

theorem isNaN_round (s : Bool) (a d : Nat) : (round s a d).isNaN = false :=
  isNaN_eq_false.2 (nearestCode_le a d)

theorem isNaN_ofRatio (n : Int) (d : Nat) : (ofRatio n d).isNaN = false := isNaN_round _ _ _

theorem units_round (s : Bool) (a d : Nat) :
    (round s a d).units = if s then -(unitsOfCode (nearestCode a d) : Int)
      else unitsOfCode (nearestCode a d) := rfl

@[simp] theorem nearestCode_zero (d : Nat) : nearestCode 0 d = 0 := by
  simp [nearestCode, roundHalfEven]

theorem units_ofRatio_natCast (a d : Nat) :
    (ofRatio a d).units = unitsOfCode (nearestCode a d) := by
  unfold ofRatio
  rw [units_round, Int.natAbs_natCast, if_neg (by simp)]

theorem units_ofRatio_neg (n : Int) (d : Nat) : (ofRatio (-n) d).units = -(ofRatio n d).units := by
  unfold ofRatio
  rw [units_round, units_round, Int.natAbs_neg]
  simp only [decide_eq_true_eq]
  rcases Int.lt_trichotomy n 0 with h | rfl | h
  · rw [if_neg (by omega), if_pos h, Int.neg_neg]
  · simp
  · rw [if_pos (by omega), if_neg (by omega)]

/-- Rounding is monotone. -/
theorem units_ofRatio_mono {n n' : Int} {d d' : Nat} (hd : 0 < d) (hd' : 0 < d')
    (h : n * d' ≤ n' * d) : (ofRatio n d).units ≤ (ofRatio n' d').units := by
  obtain ⟨a, rfl | rfl⟩ := Int.eq_nat_or_neg n <;> obtain ⟨a', rfl | rfl⟩ := Int.eq_nat_or_neg n'
  · rw [units_ofRatio_natCast, units_ofRatio_natCast]
    exact_mod_cast unitsOfCode_le.2 (nearestCode_mono hd hd' (by exact_mod_cast h))
  · -- a sum of two terms that are not negative is at most zero
    have hsum : a * d' + a' * d = 0 := by zify; nlinarith
    obtain ⟨h1, h2⟩ := Nat.add_eq_zero_iff.1 hsum
    obtain rfl : a = 0 := (Nat.mul_eq_zero.1 h1).resolve_right hd'.ne'
    obtain rfl : a' = 0 := (Nat.mul_eq_zero.1 h2).resolve_right hd.ne'
    simp [ofRatio, units_round]
  · rw [units_ofRatio_neg, units_ofRatio_natCast, units_ofRatio_natCast]
    omega
  · rw [units_ofRatio_neg, units_ofRatio_neg, units_ofRatio_natCast, units_ofRatio_natCast]
    have hswap : a' * d ≤ a * d' := by zify; linarith
    have := unitsOfCode_le.2 (nearestCode_mono hd' hd hswap)
    omega

/-- A number is its own rounding. -/
theorem units_ofRatio_units {x : Double} {d : Nat} (hx : x.isNaN = false) (hd : 0 < d) :
    (ofRatio (x.units * d) d).units = x.units := by
  have hexact := nearestCode_unitsOfCode hd (isNaN_eq_false.1 hx)
  obtain ⟨a, ha | ha⟩ := Int.eq_nat_or_neg x.units
  · have hcode : unitsOfCode x.code = a := by rw [← natAbs_units, ha, Int.natAbs_natCast]
    rw [ha, ← Int.natCast_mul, units_ofRatio_natCast, ← hcode, hexact]
  · have hcode : unitsOfCode x.code = a := by
      rw [← natAbs_units, ha, Int.natAbs_neg, Int.natAbs_natCast]
    rw [ha, Int.neg_mul, units_ofRatio_neg, ← Int.natCast_mul, units_ofRatio_natCast, ← hcode,
      hexact]

/-- What a number does not exceed, it does not exceed after rounding. -/
theorem units_le_ofRatio {x : Double} {n : Int} {d : Nat} (hx : x.isNaN = false) (hd : 0 < d)
    (h : x.units * d ≤ n) : x.units ≤ (ofRatio n d).units := by
  rw [← units_ofRatio_units hx hd]
  exact units_ofRatio_mono hd hd (Int.mul_le_mul_of_nonneg_right h (by omega))

theorem ofRatio_le_units {x : Double} {n : Int} {d : Nat} (hx : x.isNaN = false) (hd : 0 < d)
    (h : n ≤ x.units * d) : (ofRatio n d).units ≤ x.units := by
  rw [← units_ofRatio_units hx hd]
  exact units_ofRatio_mono hd hd (Int.mul_le_mul_of_nonneg_right h (by omega))

end Double

end Slowdown
