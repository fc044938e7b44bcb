import Mathlib.Data.List.Flatten
import Waybill.Url.Percent

/-!
# Reading percent encoding back

Which characters are encoded makes no difference to reading them back: the bytes of a text are
what is read of it, encoded or not (`decode_encode`). The exception is a text that holds a
percent sign before two hexadecimal digits already, for it is read as if it had been encoded
(`hasEscape`). Two texts without that are different encoded too (`eq_of_encode_eq`).
-/

namespace Waybill.Url.Percent

variable {encoded : Char → Bool} {c : Char} {cs ds r : List Char}

/-! ## Bytes -/

theorem hexValue?_hexDigit {n : Nat} (h : n < 16) : hexValue? (hexDigit n) = some n := by
  have hall : ∀ m : Fin 16, hexValue? (hexDigit m) = some m.val := by decide
  exact hall ⟨n, h⟩

/-- Digits in small letters, as numbers are written with, are read as well. -/
theorem hexValue?_digitChar {n : Nat} (h : n < 16) : hexValue? (Nat.digitChar n) = some n := by
  have hall : ∀ m : Fin 16, hexValue? (Nat.digitChar m) = some m.val := by decide
  exact hall ⟨n, h⟩

/-- A byte is read from its escape. -/
theorem decode_encodeByte (b : UInt8) (r : List Char) :
    decode (encodeByte b ++ r) = b :: decode r := by
  have hb : b.toNat < 256 := b.toNat_lt
  have hhigh : hexValue? (hexDigit (b.toNat / 16)) = some (b.toNat / 16) :=
    hexValue?_hexDigit (by omega)
  have hlow : hexValue? (hexDigit (b.toNat % 16)) = some (b.toNat % 16) :=
    hexValue?_hexDigit (by omega)
  have hsum : 16 * (b.toNat / 16) + b.toNat % 16 = b.toNat := by omega
  simp only [encodeByte, List.cons_append, List.nil_append, decode, hhigh, hlow, hsum]
  simp

/-- Escaped bytes are read one by one. -/
theorem decode_flatMap_encodeByte (bs : List UInt8) (r : List Char) :
    decode (bs.flatMap encodeByte ++ r) = bs ++ decode r := by
  induction bs with
  | nil => rfl
  | cons b bs ih =>
    rw [List.flatMap_cons, List.append_assoc, decode_encodeByte, ih, List.cons_append]

/-! ## Escapes -/

/-- Two hexadecimal digits stand at the start. -/
def startsWithHex : List Char → Bool
  | a :: b :: _ => (hexValue? a).isSome && (hexValue? b).isSome
  | _ => false

/-- A percent sign before two hexadecimal digits stands somewhere. -/
def hasEscape : List Char → Bool
  | [] => false
  | c :: r => c == '%' && startsWithHex r || hasEscape r

theorem hexValue?_percent : hexValue? '%' = none := rfl

theorem startsWithHex_percent (r : List Char) : startsWithHex ('%' :: r) = false := by
  cases r with
  | nil => rfl
  | cons b r => simp [startsWithHex, hexValue?_percent]

/-- A text without escapes has none at its head and none behind it. -/
theorem hasEscape_cons (h : hasEscape (c :: r) = false) :
    (c = '%' → startsWithHex r = false) ∧ hasEscape r = false := by
  simpa [hasEscape] using h

theorem hasEscape_of_notMem (h : '%' ∉ cs) : hasEscape cs = false := by
  induction cs with
  | nil => rfl
  | cons c r ih =>
    rw [List.mem_cons, not_or] at h
    have hc : (c == '%') = false := by simpa using Ne.symm h.1
    rw [hasEscape, hc, ih h.2]
    rfl

theorem decode_cons_of_ne (h : c ≠ '%') (r : List Char) :
    decode (c :: r) = String.utf8EncodeChar c ++ decode r := by
  rw [decode]
  intro a b r' heq _
  exact h heq

theorem decode_percent (h : startsWithHex r = false) :
    decode ('%' :: r) = String.utf8EncodeChar '%' ++ decode r := by
  rcases r with _ | ⟨a, _ | ⟨b, r⟩⟩
  · rfl
  · rfl
  · have hbyte : String.utf8EncodeChar '%' = [37] := by decide
    rw [decode, hbyte]
    rcases ha : hexValue? a with _ | x
    · rfl
    · rcases hb : hexValue? b with _ | y
      · rfl
      · simp [startsWithHex, ha, hb] at h

/-! ## Texts -/

/-- A character is encoded as itself, or as something that starts with a percent sign. -/
theorem encodeChar_cases (encoded : Char → Bool) (c : Char) :
    encoded c = false ∧ encodeChar encoded c = [c] ∨
      ∃ r, encodeChar encoded c = '%' :: r := by
  unfold encodeChar
  split
  · refine .inr ?_
    rcases hbytes : String.utf8EncodeChar c with _ | ⟨b, bs⟩
    · exact absurd hbytes String.utf8EncodeChar_ne_nil
    · exact ⟨_, rfl⟩
  · next h => exact .inl ⟨by simpa using h, rfl⟩

theorem encode_cons (encoded : Char → Bool) (c : Char) (r : List Char) :
    encode encoded (c :: r) = encodeChar encoded c ++ encode encoded r :=
  List.flatMap_cons

/-- What holds of the characters that are kept and of those an encoded byte is written with holds
throughout an encoded text. -/
theorem forall_mem_encode {P : Char → Prop} (hpercent : P '%') (hdigit : ∀ n < 16, P (hexDigit n))
    (hkept : ∀ c ∈ cs, encoded c = false → P c) : ∀ c ∈ encode encoded cs, P c := by
  intro c hc
  obtain ⟨d, hd, hc⟩ := List.mem_flatMap.1 hc
  unfold encodeChar at hc
  split at hc
  · obtain ⟨b, -, hb⟩ := List.mem_flatMap.1 hc
    have hbyte : b.toNat < 256 := b.toNat_lt
    have hall : ∀ c ∈ encodeByte b, P c := by
      simp only [encodeByte, List.forall_mem_cons]
      exact ⟨hpercent, hdigit _ (by omega), hdigit _ (by omega), nofun⟩
    exact hall c hb
  · next h =>
    obtain rfl := List.mem_singleton.1 hc
    exact hkept c hd (by simpa using h)

theorem exists_encode_eq_cons (encoded : Char → Bool) (c : Char) (r : List Char) :
    ∃ d r', encode encoded (c :: r) = d :: r' := by
  rw [encode_cons]
  rcases encodeChar_cases encoded c with ⟨-, hc⟩ | ⟨r', hc⟩
  · exact ⟨c, _, by rw [hc, List.singleton_append]⟩
  · exact ⟨'%', _, by rw [hc, List.cons_append]⟩

/-- Encoding puts no hexadecimal digit where there was none. -/
theorem startsWithHex_of_encode (h : startsWithHex (encode encoded cs) = true) :
    startsWithHex cs = true := by
  rcases cs with _ | ⟨a, cs⟩
  · cases h
  rw [encode_cons] at h
  rcases encodeChar_cases encoded a with ⟨-, ha⟩ | ⟨r, ha⟩
  · rw [ha, List.singleton_append] at h
    rcases cs with _ | ⟨b, cs⟩
    · cases h
    rw [encode_cons] at h
    rcases encodeChar_cases encoded b with ⟨-, hb⟩ | ⟨r, hb⟩
    · rwa [hb, List.singleton_append] at h
    · simp [hb, startsWithHex, hexValue?_percent] at h
  · rw [ha, List.cons_append, startsWithHex_percent] at h
    cases h

/-- **What is read of an encoded text are its bytes**, whatever was encoded. -/
theorem decode_encode (encoded : Char → Bool) (h : hasEscape cs = false) :
    decode (encode encoded cs) = cs.flatMap String.utf8EncodeChar := by
  induction cs with
  | nil => rfl
  | cons c r ih =>
    obtain ⟨hpercent, hrest⟩ := hasEscape_cons h
    rw [encode_cons, List.flatMap_cons, ← ih hrest]
    by_cases hc : encoded c
    · rw [encodeChar, if_pos hc, decode_flatMap_encodeByte]
    · rw [encodeChar, if_neg hc, List.singleton_append]
      by_cases heq : c = '%'
      · subst heq
        refine decode_percent (Bool.eq_false_iff.2 fun hhex => ?_)
        exact Bool.eq_false_iff.1 (hpercent rfl) (startsWithHex_of_encode hhex)
      · exact decode_cons_of_ne heq _

/-- The bytes of a text tell it. -/
theorem flatMap_utf8EncodeChar_injective
    (h : cs.flatMap String.utf8EncodeChar = ds.flatMap String.utf8EncodeChar) : cs = ds := by
  refine String.ofList_injective (String.toByteArray_inj.1 ?_)
  rw [String.toByteArray_ofList, String.toByteArray_ofList]
  exact congrArg List.toByteArray h

/-- **Different texts without escapes are encoded differently.** -/
theorem eq_of_encode_eq (hcs : hasEscape cs = false) (hds : hasEscape ds = false)
    (h : encode encoded cs = encode encoded ds) : cs = ds := by
  refine flatMap_utf8EncodeChar_injective ?_
  rw [← decode_encode encoded hcs, ← decode_encode encoded hds, h]

end Waybill.Url.Percent
