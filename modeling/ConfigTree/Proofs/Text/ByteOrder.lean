import Mathlib.Data.List.Basic
import Mathlib.Tactic.SplitIfs

/-!
# Texts in the order of their bytes

Texts are compared character by character, by the numbers of the characters. Written as bytes they can be
compared byte by byte, which is how sorted texts are kept where only bytes are looked at. Are the two orders the
same, though a character is written as one to four bytes?

They are. The first byte of a character tells how many there are, and grows with their number; characters of the
same length are written digit by digit, the highest one first (`bytes_lt_bytes`).
-/

namespace ConfigTree.Text

/-- The bytes that a text is written as. -/
def bytes (s : String) : List UInt8 := s.toUTF8.data.toList

theorem bytes_eq (s : String) : bytes s = s.toList.flatMap String.utf8EncodeChar := by
  rw [bytes, String.toUTF8, ← String.utf8Encode_toList, List.utf8Encode, List.toList_data_toByteArray]

/-- Numbers are compared by their digits, the highest one first. -/
theorem digits_lt {m n : Nat} (h : m < n) : m / 64 < n / 64 ∨ m / 64 = n / 64 ∧ m % 64 < n % 64 := by omega

/-- Of two characters, the bytes of the first one in the order stand first, whatever follows them. -/
theorem utf8EncodeChar_append_lt {c d : Char} (h : c < d) (x y : List UInt8) :
    String.utf8EncodeChar c ++ x < String.utf8EncodeChar d ++ y := by
  have hlt : c.val.toNat < d.val.toNat := h
  have hbound : d.val.toNat ≤ 1114111 := by
    rcases d.valid with hd | ⟨-, hd⟩ <;> omega
  simp only [String.utf8EncodeChar]
  generalize c.val.toNat = m at hlt
  generalize d.val.toNat = n at hlt hbound
  have hfour : ∀ k : Nat, k / 4096 = k / 64 / 64 ∧ k / 262144 = k / 64 / 64 / 64 := fun k => by omega
  have hlast := digits_lt hlt
  have hthird := hlast.imp_left digits_lt
  have hsecond := hthird.imp_left (Or.imp_left digits_lt)
  simp only [hfour m, hfour n]
  clear hfour
  by_cases hxy : x < y <;>
  split_ifs <;>
  simp only [List.cons_append, List.nil_append, List.cons_lt_cons_iff, UInt8.lt_iff_toNat_lt, ← UInt8.toNat_inj,
    UInt8.toNat_ofNat', hxy, and_true, and_false, or_false] <;>
  omega

theorem append_lt_append_left {l x y : List UInt8} (h : x < y) : l ++ x < l ++ y := by
  induction l with
  | nil => exact h
  | cons b l ih => exact List.cons_lt_cons_iff.2 (.inr ⟨rfl, ih⟩)

theorem flatMap_utf8EncodeChar_lt {cs ds : List Char} (h : cs < ds) :
    cs.flatMap String.utf8EncodeChar < ds.flatMap String.utf8EncodeChar := by
  induction cs generalizing ds with
  | nil =>
    cases ds with
    | nil => cases h
    | cons d ds =>
      obtain ⟨b, bs, hbs⟩ := List.exists_cons_of_ne_nil (String.utf8EncodeChar_ne_nil (c := d))
      rw [List.flatMap_cons, hbs]
      exact List.nil_lt_cons _ _
  | cons c cs ih =>
    cases ds with
    | nil => cases h
    | cons d ds =>
      rw [List.flatMap_cons, List.flatMap_cons]
      rcases List.cons_lt_cons_iff.1 h with hlt | ⟨rfl, hlt⟩
      · exact utf8EncodeChar_append_lt hlt _ _
      · exact append_lt_append_left (ih hlt)

/-- **Texts are in the order of their bytes.** -/
theorem bytes_lt_bytes {s t : String} (h : s < t) : bytes s < bytes t := by
  rw [bytes_eq, bytes_eq]
  exact flatMap_utf8EncodeChar_lt h

end ConfigTree.Text
