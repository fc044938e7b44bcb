import Mathlib.Data.String.Basic

/-!
# Texts in the order of their bytes

Texts are compared character by character, and that is the order of their bytes in UTF-8
(`bytes_lt_iff`). A greater character has the greater bytes, whatever follows it: either it is
written with more of them, and then the first byte says so, or the bytes are the digits of its
number, the leading ones first (`utf8EncodeChar_append_lt`).
-/

namespace Waybill.Text

/-- The bytes of a text in UTF-8. -/
def bytes (s : String) : List UInt8 := s.toUTF8.data.toList

theorem bytes_eq (s : String) : bytes s = s.toList.flatMap String.utf8EncodeChar := by
  have hutf8 : s.toUTF8 = s.toList.utf8Encode := by
    rw [String.toUTF8_eq_toByteArray, ← String.toByteArray_ofList, String.ofList_toList]
  rw [bytes, hutf8, List.utf8Encode, List.data_toByteArray]

/-! ## One character -/

theorem ofNat_cons_lt_iff {x y : Nat} (hx : x < 256) (hy : y < 256) {bs bs' : List UInt8} :
    UInt8.ofNat x :: bs < UInt8.ofNat y :: bs' ↔ x < y ∨ x = y ∧ bs < bs' := by
  rw [List.cons_lt_cons_iff, UInt8.ofNat_lt_iff_lt hx hy, ← UInt8.toNat_inj,
    UInt8.toNat_ofNat_of_lt' hx, UInt8.toNat_ofNat_of_lt' hy]

theorem toNat_val_lt (c : Char) : c.val.toNat < 0x110000 := by
  have h : c.val.toNat < 0xd800 ∨ 0xdfff < c.val.toNat ∧ c.val.toNat < 0x110000 := c.valid
  omega

/-- **The bytes of a lesser character come before those of a greater one**, whatever follows. -/
theorem utf8EncodeChar_append_lt {c d : Char} (h : c < d) (bs bs' : List UInt8) :
    String.utf8EncodeChar c ++ bs < String.utf8EncodeChar d ++ bs' := by
  have hlt : c.val.toNat < d.val.toNat := h
  have hbound := toNat_val_lt d
  unfold String.utf8EncodeChar
  generalize c.val.toNat = v at hlt
  generalize d.val.toNat = w at hlt hbound
  -- as digits to the base 64, so that each is known from the one before it
  have h4096 (n : Nat) : n / 4096 = n / 64 / 64 := (Nat.div_div_eq_div_mul n 64 64).symm
  have h262144 (n : Nat) : n / 262144 = n / 64 / 64 / 64 := by
    rw [← h4096, Nat.div_div_eq_div_mul]
  dsimp only
  split_ifs
  all_goals
    simp (disch := omega) only [List.cons_append, List.nil_append, ofNat_cons_lt_iff, h4096,
      h262144]
    omega

/-! ## Texts -/

/-- Texts are ordered like their encodings, because characters are. -/
theorem flatMap_utf8EncodeChar_lt {cs ds : List Char} (h : cs < ds) :
    cs.flatMap String.utf8EncodeChar < ds.flatMap String.utf8EncodeChar := by
  induction cs generalizing ds with
  | nil =>
    rcases ds with _ | ⟨d, ds⟩
    · exact absurd h (List.lt_irrefl [])
    · rw [List.flatMap_nil, List.flatMap_cons]
      rcases hbytes : String.utf8EncodeChar d with _ | ⟨b, bs⟩
      · exact absurd hbytes String.utf8EncodeChar_ne_nil
      · exact List.nil_lt_cons b _
  | cons c cs ih =>
    rcases ds with _ | ⟨d, ds⟩
    · exact absurd h (List.not_lt_nil _)
    · rw [List.flatMap_cons, List.flatMap_cons]
      rcases List.cons_lt_cons_iff.1 h with hlt | ⟨rfl, hrest⟩
      · exact utf8EncodeChar_append_lt hlt _ _
      · exact List.append_left_lt (ih hrest)

/-- The order of texts is that of their bytes. -/
theorem bytes_lt_of_lt {s t : String} (h : s < t) : bytes s < bytes t := by
  rw [bytes_eq, bytes_eq]
  exact flatMap_utf8EncodeChar_lt (String.lt_iff_toList_lt.1 h)

/-- **Texts stand in the order of their bytes.** -/
theorem bytes_lt_iff {s t : String} : bytes s < bytes t ↔ s < t := by
  refine ⟨fun h => ?_, bytes_lt_of_lt⟩
  rcases lt_trichotomy s t with hlt | rfl | hgt
  · exact hlt
  · exact absurd h (List.lt_irrefl _)
  · exact absurd h (List.lt_asymm (bytes_lt_of_lt hgt))

end Waybill.Text
