import Mathlib.Data.List.TakeDrop
import Waybill.Proofs.Encoding

/-!
# ASCII texts

A property of characters that is known of the first 128 is known of every ASCII character
(`forall_ascii`). Letters and digits are such, and so is whatever is written by encoding: a
character that is not encoded in any part of a URL is one of ASCII that can be printed, and an
encoded one is written with a percent sign and digits (`isPrinted_encode`).
-/

namespace Waybill

namespace Text

variable {c : Char} {cs ds : List Char}

/-! ## ASCII -/

/-- A text of ASCII characters. -/
def IsAscii (cs : List Char) : Prop := ∀ c ∈ cs, c.toNat < 128

instance (cs : List Char) : Decidable (IsAscii cs) :=
  List.decidableBAll (fun c : Char => c.toNat < 128) cs

/-- What holds of the first 128 characters holds of every ASCII character. -/
theorem forall_ascii {P : Char → Prop} (h : ∀ n < 128, P (Char.ofNat n)) (hc : c.toNat < 128) :
    P c := by
  have := h c.toNat hc
  rwa [Char.ofNat_toNat] at this

theorem toNat_lt_of_isAlpha (h : c.isAlpha = true) : c.toNat < 128 := by
  rcases Bool.or_eq_true_iff.1 h with hupper | hlower
  · have hle : c.toNat ≤ 90 := (of_decide_eq_true hupper).2
    omega
  · have hle : c.toNat ≤ 122 := of_decide_eq_true (Bool.and_eq_true_iff.1 hlower).2
    omega

theorem toNat_lt_of_isDigit (h : c.isDigit = true) : c.toNat < 128 := by
  simp only [Char.isDigit, Bool.and_eq_true, decide_eq_true_eq] at h
  have : c.toNat ≤ 57 := h.2
  omega

/-- Only letters have another form in lower case, and they have one. -/
theorem toLower_toLower (c : Char) : c.toLower.toLower = c.toLower := by
  by_cases h : c.toNat < 128
  · exact forall_ascii (P := fun c => c.toLower.toLower = c.toLower) (by decide) h
  · have hkept : c.toLower = c := by
      refine dif_neg fun hupper => h ?_
      have : c.toNat ≤ 90 := hupper.2
      omega
    rw [hkept, hkept]

end Text

/-! ## Encoded texts -/

namespace Url

open Text Percent

variable {encoded : Char → Bool} {c : Char} {cs ds : List Char}

/-- Whatever is not ASCII is encoded. -/
theorem toNat_lt_of_inControls (h : inControls c = false) : c.toNat < 128 := by
  simp only [inControls, Bool.or_eq_false_iff, decide_eq_false_iff_not] at h
  omega

/-- A text of ASCII characters without controls among them. -/
def IsPrinted (cs : List Char) : Prop := ∀ c ∈ cs, inControls c = false

instance (cs : List Char) : Decidable (IsPrinted cs) :=
  List.decidableBAll (fun c : Char => inControls c = false) cs

/-- What is in print is ASCII. -/
theorem IsPrinted.isAscii (h : IsPrinted cs) : IsAscii cs :=
  fun c hc => toNat_lt_of_inControls (h c hc)

theorem isPrinted_nil : IsPrinted [] := List.forall_mem_nil _

theorem isPrinted_append_iff : IsPrinted (cs ++ ds) ↔ IsPrinted cs ∧ IsPrinted ds :=
  List.forall_mem_append

/-- What is encoded can be printed if no control character is left as it is. -/
theorem isPrinted_encode (h : ∀ c, encoded c = false → inControls c = false) (cs : List Char) :
    IsPrinted (encode encoded cs) :=
  forall_mem_encode (by decide) (by decide) fun c _ hkept => h c hkept

/-- What was encoded is in print. -/
theorem isPrinted_encode_inControls (cs : List Char) : IsPrinted (encode inControls cs) :=
  isPrinted_encode (fun _ h => h) cs

theorem isPrinted_encode_inFragment (cs : List Char) : IsPrinted (encode inFragment cs) :=
  isPrinted_encode (fun c h => by simp_all [inFragment]) cs

/-- The query is encoded alike under both kinds of scheme, as far as controls are concerned. -/
theorem isPrinted_encode_query (special : Bool) (cs : List Char) :
    IsPrinted (encode (if special then inSpecialQuery else inQuery) cs) :=
  isPrinted_encode (fun c h => by split at h <;> simp_all [inSpecialQuery, inQuery]) cs

end Url

end Waybill
