import Mathlib.Order.Basic
import RowGraph.Text.Utf8

/-!
# Proofs — Text — the order of bytes

Texts are ordered by their characters, and the bytes of UTF-8 by their numbers.  **Both orders are
the same** (`Utf8.encode_lt_iff`): a greater character either has a greater first byte, or agrees
with the lesser one up to a greater byte.  So names that are compared byte by byte stand in the
order of their code points.
-/

namespace RowGraph.Utf8

theorem encode_eq_flatMap (s : String) : encode s = s.toList.flatMap String.utf8EncodeChar := by
  rw [encode, String.toUTF8, ← String.utf8Encode_toList, List.utf8Encode,
    List.toList_data_toByteArray]

theorem encode_inj {a b : String} : encode a = encode b ↔ a = b := by
  rw [encode, encode, Array.toList_inj, ← ByteArray.ext_iff, String.toUTF8, String.toUTF8,
    String.toByteArray_inj]

theorem toNat_lt (c : Char) : c.val.toNat < 0x110000 := by
  have hv := c.valid
  simp only [UInt32.isValidChar, Nat.isValidChar] at hv
  omega

/-- The bytes of a lesser character come first, whatever follows on both sides. -/
theorem utf8EncodeChar_append_lt {c d : Char} (h : c < d) (x y : List UInt8) :
    String.utf8EncodeChar c ++ x < String.utf8EncodeChar d ++ y := by
  have hlt : c.val.toNat < d.val.toNat := h
  have hd := toNat_lt d
  unfold String.utf8EncodeChar
  generalize c.val.toNat = v at *
  generalize d.val.toNat = w at *
  dsimp only
  -- characters of one length are compared place by place in base 64, of two by their first bytes
  split_ifs <;>
    simp (disch := omega) only [List.cons_append, List.nil_append, List.cons_lt_cons_iff,
      UInt8.lt_iff_toNat_lt, ← UInt8.toNat_inj, UInt8.toNat_ofNat', Nat.mod_eq_of_lt] <;>
    omega

theorem flatMap_utf8EncodeChar_lt {cs ds : List Char} (h : cs < ds) :
    cs.flatMap String.utf8EncodeChar < ds.flatMap String.utf8EncodeChar := by
  induction cs generalizing ds with
  | nil =>
      cases ds with
      | nil => exact absurd h (List.not_lt_nil _)
      | cons d ds =>
          have hne : String.utf8EncodeChar d ++ ds.flatMap String.utf8EncodeChar ≠ [] :=
            List.append_ne_nil_of_left_ne_nil String.utf8EncodeChar_ne_nil _
          obtain ⟨b, bs, hb⟩ := List.exists_cons_of_ne_nil hne
          rw [List.flatMap_nil, List.flatMap_cons, hb]
          exact List.nil_lt_cons b bs
  | cons c cs ih =>
      cases ds with
      | nil => exact absurd h (List.not_lt_nil _)
      | cons d ds =>
          rw [List.flatMap_cons, List.flatMap_cons]
          rcases List.cons_lt_cons_iff.mp h with hcd | ⟨rfl, hs⟩
          · exact utf8EncodeChar_append_lt hcd _ _
          · exact List.append_left_lt (ih hs)

theorem encode_lt_of_lt {a b : String} (h : a < b) : encode a < encode b := by
  rw [encode_eq_flatMap, encode_eq_flatMap]
  exact flatMap_utf8EncodeChar_lt h

/-- **Texts are in the order of their bytes.** -/
theorem encode_lt_iff {a b : String} : encode a < encode b ↔ a < b := by
  refine ⟨fun h => ?_, encode_lt_of_lt⟩
  by_contra hn
  rcases Decidable.em (a = b) with rfl | hne
  · exact List.lt_irrefl _ h
  · have hlt : b < a := String.not_le.mp fun hab => hne (String.le_antisymm hab hn)
    exact List.lt_asymm h (encode_lt_of_lt hlt)

end RowGraph.Utf8
