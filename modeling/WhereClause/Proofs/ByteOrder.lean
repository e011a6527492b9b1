import Mathlib.Data.String.Basic
import Mathlib.Tactic.SplitIfs

/-!
# The order of texts

Texts are kept in the order of their code points. This is the order of their UTF-8 bytes
(`Text.lt_iff_bytes_lt`): the encoding of a smaller character is smaller, whatever follows.
-/
namespace WhereClause.Text

open String (utf8EncodeChar)

/-- The UTF-8 bytes of a text. -/
def bytes (s : String) : List UInt8 := s.toUTF8.data.toList

theorem bytes_eq_flatMap (s : String) : bytes s = s.toList.flatMap utf8EncodeChar := by
  have encoded : s.toUTF8 = s.toList.utf8Encode := by
    rw [String.toUTF8_eq_toByteArray, ← String.toByteArray_ofList, String.ofList_toList]
  rw [bytes, encoded, List.utf8Encode, List.toList_data_toByteArray]

/-- Of two characters the smaller one has the smaller bytes. A shorter encoding has the smaller
first byte; between encodings of one length the first digit to base 64 decides in which they
differ. -/
theorem encodeChar_append_lt {c d : Char} (h : c < d) (front back : List UInt8) :
    utf8EncodeChar c ++ front < utf8EncodeChar d ++ back := by
  have less : c.val.toNat < d.val.toNat := h
  have bound : d.val.toNat < 0x110000 := by
    rcases d.valid with small | large <;> omega
  generalize hv : c.val.toNat = v at less
  generalize hw : d.val.toNat = w at less bound
  have twoDown (n : Nat) : n / 4096 = n / 64 / 64 := by omega
  have threeDown (n : Nat) : n / 262144 = n / 64 / 64 / 64 := by omega
  simp only [utf8EncodeChar, hv, hw, twoDown, threeDown]
  split_ifs <;>
    simp only [List.cons_append, List.nil_append, List.cons_lt_cons_iff, UInt8.lt_iff_toNat_lt,
      UInt8.toNat_ofNat', ← UInt8.toNat_inj] <;>
    omega

theorem flatMap_encodeChar_lt {cs ds : List Char} (h : cs < ds) :
    cs.flatMap utf8EncodeChar < ds.flatMap utf8EncodeChar := by
  induction h with
  | nil =>
    rename_i d ds
    obtain ⟨byte, rest, encoded⟩ :=
      List.exists_cons_of_ne_nil (String.utf8EncodeChar_ne_nil (c := d))
    rw [List.flatMap_cons, encoded]
    exact List.nil_lt_cons byte _
  | cons _ ih =>
    rw [List.flatMap_cons, List.flatMap_cons]
    exact List.append_left_lt ih
  | rel h =>
    rw [List.flatMap_cons, List.flatMap_cons]
    exact encodeChar_append_lt h _ _

theorem lt_iff_bytes_lt {s t : String} : s < t ↔ bytes s < bytes t := by
  have forward {s t : String} (h : s < t) : bytes s < bytes t := by
    rw [bytes_eq_flatMap, bytes_eq_flatMap]
    exact flatMap_encodeChar_lt h
  refine ⟨forward, fun h => ?_⟩
  rcases lt_trichotomy s t with less | rfl | greater
  · exact less
  · exact absurd h (List.lt_irrefl _)
  · exact absurd h (List.lt_asymm (forward greater))

end WhereClause.Text
