/-
# The order of texts is that of their bytes

Names are compared as they are kept, byte by byte in UTF-8. Texts are ordered here
character by character, and it comes to the same (`Text.bytes_lt_bytes_iff`): of two
characters the one with the smaller code has the smaller bytes, and this is decided
inside the bytes of the two characters, whatever stands behind them
(`Text.encoded_lt_encoded`).

Key definitions: `Text.bytes`.
Key theorems: `Text.encoded_lt_encoded`, `Text.bytes_lt_bytes_iff`,
`Text.bytes_le_bytes_iff`.
-/
import Mathlib.Data.Char
import Mathlib.Data.List.Basic
import FieldOrder.Text

namespace FieldOrder
namespace Text

/-- The bytes of a text in UTF-8. -/
def bytes (s : String) : List UInt8 := s.toUTF8.data.toList

theorem bytes_eq (s : String) : bytes s = s.toList.flatMap String.utf8EncodeChar := by
  have h : s.toUTF8 = s.toList.utf8Encode := String.utf8Encode_toList.symm
  rw [bytes, h, List.utf8Encode, List.toList_data_toByteArray]

/-- A character with a smaller code has smaller bytes, with whatever behind them. -/
theorem encoded_lt_encoded {c d : Char} (h : c < d) (later later' : List UInt8) :
    String.utf8EncodeChar c ++ later < String.utf8EncodeChar d ++ later' := by
  have hcode : c.val.toNat < d.val.toNat := h
  have hvalid : d.val.toNat < 0x110000 := by
    have hd : d.val.toNat < 0xd800 ∨ 0xdfff < d.val.toNat ∧ d.val.toNat < 0x110000 := d.valid
    omega
  unfold String.utf8EncodeChar
  generalize c.val.toNat = m at *
  generalize d.val.toNat = n at *
  -- one case for each two lengths: the first bytes decide, or the digits of equal lengths do
  dsimp only
  split_ifs
  all_goals
    simp only [List.cons_append, List.nil_append, List.cons_lt_cons_iff,
      UInt8.lt_iff_toNat_lt, ← UInt8.toNat_inj, UInt8.toNat_ofNat']
    simp (disch := omega) only [Nat.mod_eq_of_lt]
    omega

theorem append_lt_append_iff (first : List UInt8) {later later' : List UInt8} :
    first ++ later < first ++ later' ↔ later < later' := by
  induction first with
  | nil => rfl
  | cons b first ih => rw [List.cons_append, List.cons_append, List.cons_lt_cons_self, ih]

/-- Characters in a row have the order of their bytes. -/
theorem flatMap_encoded_lt_iff : ∀ cs ds : List Char,
    cs.flatMap String.utf8EncodeChar < ds.flatMap String.utf8EncodeChar ↔ cs < ds
  | [], [] => by simp
  | [], d :: ds => by
    obtain ⟨b, more, hd⟩ := List.exists_cons_of_ne_nil (String.utf8EncodeChar_ne_nil (c := d))
    simp [hd]
  | c :: cs, [] => by simp
  | c :: cs, d :: ds => by
    have ih := flatMap_encoded_lt_iff cs ds
    rw [List.flatMap_cons, List.flatMap_cons, List.cons_lt_cons_iff]
    rcases lt_trichotomy c d with hlt | rfl | hgt
    · exact iff_of_true (encoded_lt_encoded hlt _ _) (.inl hlt)
    · simp [append_lt_append_iff, ih]
    · refine iff_of_false ?_ ?_
      · exact List.lt_asymm (encoded_lt_encoded hgt _ _)
      · rintro (hlt | ⟨rfl, -⟩)
        · exact lt_asymm hlt hgt
        · exact lt_irrefl c hgt

theorem bytes_lt_bytes_iff {a b : String} : bytes a < bytes b ↔ a < b := by
  rw [bytes_eq, bytes_eq, flatMap_encoded_lt_iff]
  exact Iff.rfl

theorem bytes_le_bytes_iff {a b : String} : bytes a ≤ bytes b ↔ a ≤ b :=
  not_congr bytes_lt_bytes_iff

end Text
end FieldOrder
