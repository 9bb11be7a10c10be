/-
The order of strings is the order of their UTF-8 bytes: the encoding of a smaller character is
smaller whatever follows it, since longer encodings start with larger bytes.
-/
import Mathlib.Data.Char
import Mathlib.Data.String.Basic

namespace Slowdown

/-- The UTF-8 bytes of a string. -/
def utf8Bytes (s : String) : List UInt8 := s.toUTF8.data.toList

namespace ByteOrder

theorem cons_lt {x y : Nat} (hy : y < 256) (hxy : x < y) (xs ys : List UInt8) :
    UInt8.ofNat x :: xs < UInt8.ofNat y :: ys := by
  rw [List.cons_lt_cons_iff, UInt8.lt_iff_toNat_lt]
  left
  simp only [UInt8.toNat_ofNat']
  omega

theorem cons_le {x y : Nat} (hy : y < 256) (hxy : x ≤ y) {xs ys : List UInt8}
    (h : x = y → xs < ys) : UInt8.ofNat x :: xs < UInt8.ofNat y :: ys := by
  rcases Nat.lt_or_eq_of_le hxy with hlt | rfl
  · exact cons_lt hy hlt xs ys
  · exact List.cons_lt_cons_iff.2 (.inr ⟨rfl, h rfl⟩)

/-- A smaller character has a smaller encoding, whatever follows. -/
theorem utf8EncodeChar_append_lt {c d : Char} (h : c < d) (xs ys : List UInt8) :
    String.utf8EncodeChar c ++ xs < String.utf8EncodeChar d ++ ys := by
  have hcd : c.val.toNat < d.val.toNat := UInt32.lt_iff_toNat_lt.1 h
  have hd : d.val.toNat < 0x110000 := by
    have := d.valid
    unfold UInt32.isValidChar Nat.isValidChar at this
    omega
  unfold String.utf8EncodeChar
  dsimp only
  generalize c.val.toNat = v at *
  generalize d.val.toNat = w at *
  -- Ten pairs of lengths are possible. A longer encoding has a larger lead byte; within one length
  -- the first byte that differs decides.
  split_ifs <;> try omega
  all_goals simp only [List.cons_append, List.nil_append]
  · exact cons_lt (by omega) (by omega) _ _
  · exact cons_lt (by omega) (by omega) _ _
  · exact cons_lt (by omega) (by omega) _ _
  · exact cons_lt (by omega) (by omega) _ _
  · exact cons_le (by omega) (by omega) fun _ => cons_lt (by omega) (by omega) _ _
  · exact cons_lt (by omega) (by omega) _ _
  · exact cons_lt (by omega) (by omega) _ _
  · exact cons_le (by omega) (by omega) fun _ => cons_le (by omega) (by omega) fun _ =>
      cons_lt (by omega) (by omega) _ _
  · exact cons_lt (by omega) (by omega) _ _
  · exact cons_le (by omega) (by omega) fun _ => cons_le (by omega) (by omega) fun _ =>
      cons_le (by omega) (by omega) fun _ => cons_lt (by omega) (by omega) _ _

theorem flatMap_utf8EncodeChar_lt {cs ds : List Char} (h : cs < ds) :
    cs.flatMap String.utf8EncodeChar < ds.flatMap String.utf8EncodeChar := by
  induction cs generalizing ds with
  | nil =>
    cases ds with
    | nil => exact absurd h (List.not_lt_nil _)
    | cons d ds =>
      obtain ⟨b, bs, hb⟩ := List.exists_cons_of_ne_nil (String.utf8EncodeChar_ne_nil (c := d))
      rw [List.flatMap_cons, hb]
      exact List.nil_lt_cons b _
  | cons c cs ih =>
    cases ds with
    | nil => exact absurd h (List.not_lt_nil _)
    | cons d ds =>
      rw [List.flatMap_cons, List.flatMap_cons]
      -- the first characters that differ decide, and their encodings do so at their first bytes
      rcases List.cons_lt_cons_iff.1 h with hcd | ⟨rfl, hrest⟩
      · exact utf8EncodeChar_append_lt hcd _ _
      · exact List.append_left_lt (ih hrest)

theorem utf8Bytes_eq (s : String) : utf8Bytes s = s.toList.flatMap String.utf8EncodeChar := by
  rw [utf8Bytes, String.toUTF8, ← String.utf8Encode_toList, List.utf8Encode,
    List.toList_data_toByteArray]

end ByteOrder

/-- Strings are ordered as their UTF-8 bytes are. -/
theorem utf8Bytes_lt_iff {s t : String} : utf8Bytes s < utf8Bytes t ↔ s < t := by
  have mono : ∀ {s t : String}, s < t → utf8Bytes s < utf8Bytes t := fun h => by
    rw [ByteOrder.utf8Bytes_eq, ByteOrder.utf8Bytes_eq]
    exact ByteOrder.flatMap_utf8EncodeChar_lt h
  refine ⟨fun h => ?_, mono⟩
  rcases lt_trichotomy s t with hst | rfl | hts
  · exact hst
  · exact absurd h (List.lt_irrefl _)
  · exact absurd (mono hts) (List.lt_asymm h)

theorem utf8Bytes_le_iff {s t : String} : utf8Bytes s ≤ utf8Bytes t ↔ s ≤ t := by
  rw [← List.not_lt, utf8Bytes_lt_iff, not_lt]

end Slowdown
