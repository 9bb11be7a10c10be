/-
Digits in a text and the numbers they denote: written digits are taken back one by one, and the
digits of a number denote it without a zero in front.
-/
import Slowdown.Decimal.Numeral
import Mathlib.Tactic

namespace Slowdown

theorem tenTo_pos (n : Nat) : 0 < tenTo n := Nat.pow_pos (by decide)

theorem tenTo_le {m n : Nat} (h : m ≤ n) : tenTo m ≤ tenTo n := Nat.pow_le_pow_right (by decide) h

namespace Digit

/-! ## Digits in a text -/

/-- Digits are taken up to the first character that is none. -/
theorem span_map_char (ds : List Digit) {rest : List Char}
    (hrest : ∀ c ∈ rest.head?, ofChar? c = none) : span (ds.map char ++ rest) = (ds, rest) := by
  induction ds with
  | nil =>
    cases rest with
    | nil => rfl
    | cons c rest => rw [List.map_nil, List.nil_append, span, hrest c rfl]
  | cons d ds ih => rw [List.map_cons, List.cons_append, span, ofChar?_char, ih]

theorem eq_char_of_ofChar? {c : Char} {d : Digit} (h : ofChar? c = some d) : c = d.char := by
  unfold ofChar? at h
  split at h
  · cases h
    rw [char, Fin.val_mk, Nat.add_sub_cancel' (by omega), Char.ofNat_toNat]
  · cases h

theorem exists_span (cs : List Char) :
    ∃ (ds : List Digit) (rest : List Char), cs = ds.map char ++ rest ∧
      ∀ c ∈ rest.head?, ofChar? c = none := by
  induction cs with
  | nil => exact ⟨[], [], rfl, nofun⟩
  | cons c cs ih =>
    cases hc : ofChar? c with
    | none =>
      refine ⟨[], c :: cs, rfl, ?_⟩
      rintro _ ⟨⟩
      exact hc
    | some d =>
      obtain ⟨ds, rest, rfl, hrest⟩ := ih
      exact ⟨d :: ds, rest, by rw [eq_char_of_ofChar? hc]; rfl, hrest⟩

/-! ## Numbers -/

theorem foldl_eq (ds : List Digit) (n : Nat) :
    ds.foldl (fun n d => 10 * n + d.val) n = n * 10 ^ ds.length + value ds := by
  induction ds generalizing n with
  | nil => simp [value]
  | cons d ds ih =>
    rw [value, List.foldl_cons, List.foldl_cons, ih, ih (10 * 0 + d.val), List.length_cons]
    ring

@[simp] theorem value_nil : value [] = 0 := rfl

theorem value_append (ds es : List Digit) :
    value (ds ++ es) = value ds * 10 ^ es.length + value es := by
  rw [value, List.foldl_append, foldl_eq es]
  rfl

theorem value_cons (d : Digit) (ds : List Digit) :
    value (d :: ds) = d.val * 10 ^ ds.length + value ds := by
  rw [← List.singleton_append, value_append]
  simp [value]

@[simp] theorem value_replicate_zero (n : Nat) : value (List.replicate n .zero) = 0 := by
  induction n with
  | zero => rfl
  | succ n ih =>
    have hzero : zero.val = 0 := rfl
    rw [List.replicate_succ, value_cons, ih, hzero, Nat.zero_mul]

theorem value_lt (ds : List Digit) : value ds < 10 ^ ds.length := by
  induction ds with
  | nil => exact Nat.one_pos
  | cons d ds ih =>
    have hd : d.val * 10 ^ ds.length ≤ 9 * 10 ^ ds.length := Nat.mul_le_mul_right _ (by omega)
    rw [value_cons, List.length_cons, Nat.pow_succ]
    omega

/-- Digits that begin above zero denote at least the power of ten of the first. -/
theorem le_value_cons {d : Digit} (hd : d ≠ 0) (ds : List Digit) :
    10 ^ ds.length ≤ value (d :: ds) := by
  have hpos : 0 < d.val := Nat.pos_of_ne_zero fun h => hd (Fin.ext h)
  rw [value_cons]
  exact Nat.le_trans (Nat.le_mul_of_pos_left _ hpos) (Nat.le_add_right _ _)

theorem value_onto (n : Nat) (rest : List Digit) :
    value (onto n rest) = n * 10 ^ rest.length + value rest := by
  induction n using Nat.strongRecOn generalizing rest with
  | ind n ih =>
    unfold onto
    dsimp only
    split_ifs with h
    · simp only [value_cons, Nat.mod_eq_of_lt h]
    · rw [ih (n / 10) (by omega), value_cons, List.length_cons]
      dsimp only
      rw [Nat.pow_succ, ← Nat.add_assoc, Nat.mul_comm (10 ^ rest.length) 10, ← Nat.mul_assoc,
        ← Nat.add_mul]
      congr 2
      omega

@[simp] theorem value_ofNat (n : Nat) : value (ofNat n) = n := by
  rw [ofNat, value_onto]
  simp

/-! ## Digits of a number -/

/-- Digits without a zero in front, or a lone zero. -/
def IsWhole (ds : List Digit) : Prop := ∃ d rest, ds = d :: rest ∧ (d = .zero → rest = [])

theorem isWhole_zero : IsWhole [.zero] := ⟨0, [], rfl, fun _ => rfl⟩

/-- The first digit of a number above zero is none. -/
theorem exists_onto {n : Nat} (h : 0 < n) (rest : List Digit) :
    ∃ d more, onto n rest = d :: more ∧ d ≠ 0 := by
  induction n using Nat.strongRecOn generalizing rest with
  | ind n ih =>
    unfold onto
    dsimp only
    split_ifs with hlast
    · refine ⟨_, _, rfl, fun hzero => ?_⟩
      have := congrArg Fin.val hzero
      simp only [Fin.val_zero] at this
      omega
    · exact ih (n / 10) (by omega) (by omega) _

theorem exists_ofNat {n : Nat} (h : 0 < n) : ∃ d more, ofNat n = d :: more ∧ d ≠ 0 :=
  exists_onto h []

theorem ofNat_zero : ofNat 0 = [.zero] := by
  rw [ofNat, onto]
  rfl

theorem isWhole_ofNat (n : Nat) : IsWhole (ofNat n) := by
  rcases Nat.eq_zero_or_pos n with rfl | h
  · rw [ofNat_zero]
    exact isWhole_zero
  · obtain ⟨d, more, hn, hd⟩ := exists_ofNat h
    exact ⟨d, more, hn, fun hzero => absurd hzero hd⟩

theorem ofNat_ne_nil (n : Nat) : ofNat n ≠ [] := by
  obtain ⟨d, more, hn, -⟩ := isWhole_ofNat n
  simp [hn]

end Digit

/-- The form of numerals in a text: digits in front, but no zero before another digit, and
digits in an exponent. -/
structure Numeral.IsWritten (n : Numeral) : Prop where
  whole : Digit.IsWhole n.whole
  exponent : ∀ e ∈ n.exponent, e.digits ≠ []

theorem Numeral.isWritten_ofNat (k : Nat) : (Numeral.ofNat k).IsWritten :=
  ⟨Digit.isWhole_ofNat k, nofun⟩

end Slowdown
