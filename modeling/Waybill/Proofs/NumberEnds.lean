import Mathlib.Data.List.TakeDrop
import Waybill.Json.Token
import Waybill.Proofs.Results

/-!
# Where a number ends

A number is read up to the first character that cannot belong to it. So what follows it does not
matter, as long as the number does not go on there (`EndsNumber`): digits, integer, fraction and
exponent are each read as if nothing followed, and so is the number (`readNumber_append`).
-/

namespace Waybill.Json

open Decimal

variable {cs r rest digits : List Char}

/-- A number that stands before `r` does not go on into it. -/
def EndsNumber (r : List Char) : Prop :=
  ∀ c ∈ r.head?, c.isDigit = false ∧ c ≠ '.' ∧ c ≠ 'e' ∧ c ≠ 'E'

/-! ## Digits -/

/-- The digits of a number end where it ends. -/
theorem digitSpan_append (hr : EndsNumber r) (cs : List Char) :
    digitSpan (cs ++ r) = ((digitSpan cs).1, (digitSpan cs).2 ++ r) := by
  have hspan : digitSpan r = ([], r) := by
    cases r with
    | nil => rfl
    | cons c r =>
      have hc : c.isDigit = false := (hr c rfl).1
      simp [digitSpan, List.span_eq_takeWhile_dropWhile, hc]
  simp only [digitSpan, List.span_eq_takeWhile_dropWhile] at hspan ⊢
  induction cs with
  | nil => exact hspan
  | cons c cs ih =>
    cases hc : c.isDigit with
    | false => simp [hc]
    | true => simpa [hc] using ih

theorem someDigits_eq_ok_iff :
    someDigits cs = .ok (digits, rest) ↔ digitSpan cs = (digits, rest) ∧ digits ≠ [] := by
  unfold someDigits
  rcases digitSpan cs with ⟨_ | ⟨d, ds⟩, r⟩
  · simp only [reduceCtorEq, Prod.mk.injEq, false_iff]
    rintro ⟨⟨rfl, -⟩, hne⟩
    exact hne rfl
  · simp only [Except.ok.injEq, Prod.mk.injEq, iff_self_and]
    rintro ⟨rfl, -⟩
    exact List.cons_ne_nil d ds

/-- Whatever does not belong to a number is left behind its digits. -/
theorem someDigits_append (hr : EndsNumber r) (h : someDigits cs = .ok (digits, rest)) :
    someDigits (cs ++ r) = .ok (digits, rest ++ r) := by
  obtain ⟨hspan, hne⟩ := someDigits_eq_ok_iff.1 h
  exact someDigits_eq_ok_iff.2 ⟨by rw [digitSpan_append hr, hspan], hne⟩

/-! ## The parts of a number -/

theorem integerDigits_append (hr : EndsNumber r) (h : integerDigits cs = .ok (digits, rest)) :
    integerDigits (cs ++ r) = .ok (digits, rest ++ r) := by
  unfold integerDigits at h
  split at h
  · split at h
    · cases h
    · next hnext =>
      cases h
      -- A lone zero is the whole integer; at the end of the text it is `r` that must not go on.
      have hlast : ¬ ((rest ++ r).head?.map Char.isDigit).getD false = true := by
        cases rest with
        | nil =>
          cases r with
          | nil => decide
          | cons c r =>
            have hc : c.isDigit = false := (hr c rfl).1
            simp [hc]
        | cons c rest => exact hnext
      rw [List.cons_append, integerDigits, if_neg hlast]
  · next hzero =>
    have hlead : ∀ s, cs ++ r = '0' :: s → False := by
      intro s hs
      cases cs with
      | nil => cases h
      | cons c cs =>
        cases hs
        exact hzero cs rfl
    rw [integerDigits]
    · exact someDigits_append hr h
    · exact hlead

theorem fractionDigits_append {fraction : Option (List Char)} (hr : EndsNumber r)
    (h : fractionDigits cs = .ok (fraction, rest)) :
    fractionDigits (cs ++ r) = .ok (fraction, rest ++ r) := by
  unfold fractionDigits at h
  split at h
  · obtain ⟨⟨digits, rest⟩, hdigits, heq⟩ := map_eq_ok_iff.1 h
    cases heq
    rw [List.cons_append, fractionDigits, someDigits_append hr hdigits]
    rfl
  · next hpoint =>
    cases h
    have hlead : ∀ s, cs ++ r = '.' :: s → False := by
      intro s hs
      cases cs with
      | nil =>
        rw [List.nil_append] at hs
        exact (hr '.' (by rw [hs]; rfl)).2.1 rfl
      | cons c cs =>
        cases hs
        exact hpoint cs rfl
    rw [fractionDigits]
    exact hlead

/-- The sign of an exponent and what follows it. -/
def exponentSign : List Char → Bool × List Char
  | '+' :: r => (false, r)
  | '-' :: r => (true, r)
  | r => (false, r)

theorem exponentSign_append (hne : cs ≠ []) (r : List Char) :
    exponentSign (cs ++ r) = ((exponentSign cs).1, (exponentSign cs).2 ++ r) := by
  unfold exponentSign
  cases cs with
  | nil => exact absurd rfl hne
  | cons c cs => split <;> simp_all

theorem exponentDigits_cons (c : Char) (cs : List Char) : exponentDigits (c :: cs) =
    if c = 'e' ∨ c = 'E' then
      (someDigits (exponentSign cs).2).map fun (digits, r) =>
        (some ((exponentSign cs).1, digits), r)
    else .ok (none, c :: cs) := by
  unfold exponentDigits exponentSign
  rfl

theorem exponentDigits_append {exponent : Option (Bool × List Char)} (hr : EndsNumber r)
    (h : exponentDigits cs = .ok (exponent, rest)) :
    exponentDigits (cs ++ r) = .ok (exponent, rest ++ r) := by
  cases cs with
  | nil =>
    cases h
    cases r with
    | nil => rfl
    | cons c r =>
      obtain ⟨-, -, hsmall, hlarge⟩ := hr c rfl
      rw [List.nil_append, exponentDigits_cons, if_neg (not_or.2 ⟨hsmall, hlarge⟩)]
  | cons c cs =>
    rw [exponentDigits_cons] at h
    rw [List.cons_append, exponentDigits_cons]
    split_ifs at h ⊢
    · obtain ⟨⟨digits, rest⟩, hdigits, heq⟩ := map_eq_ok_iff.1 h
      cases heq
      -- Behind the mark there is a digit at least, so what follows is not taken for the sign.
      have hne : cs ≠ [] := by
        rintro rfl
        cases hdigits
      rw [exponentSign_append hne, someDigits_append hr hdigits]
      rfl
    · cases h
      rfl

/-! ## Numbers -/

/-- The sign of a number and what follows it. -/
def numberSign : List Char → Bool × List Char
  | '-' :: r => (true, r)
  | r => (false, r)

theorem numberSign_append (hne : cs ≠ []) (r : List Char) :
    numberSign (cs ++ r) = ((numberSign cs).1, (numberSign cs).2 ++ r) := by
  unfold numberSign
  cases cs with
  | nil => exact absurd rfl hne
  | cons c cs => split <;> simp_all

/-- A number is read part by part: sign, integer, fraction, exponent. -/
theorem readNumber_eq (cs : List Char) : readNumber cs = (do
    let (integer, r) ← integerDigits (numberSign cs).2
    let (fraction, r) ← fractionDigits r
    let (exponent, r) ← exponentDigits r
    return (Number.ofParts (numberSign cs).1 integer fraction exponent, r)) := by
  unfold readNumber numberSign
  rfl

/-- **A number is read as if nothing followed it.** -/
theorem readNumber_append {n : Except Fault Number} (hr : EndsNumber r)
    (h : readNumber cs = .ok (n, rest)) : readNumber (cs ++ r) = .ok (n, rest ++ r) := by
  have hne : cs ≠ [] := by
    rintro rfl
    cases h
  rw [readNumber_eq] at h
  obtain ⟨⟨integer, behindInteger⟩, hinteger, h⟩ := bind_eq_ok_iff.1 h
  obtain ⟨⟨fraction, behindFraction⟩, hfraction, h⟩ := bind_eq_ok_iff.1 h
  obtain ⟨⟨exponent, behindExponent⟩, hexponent, heq⟩ := bind_eq_ok_iff.1 h
  cases heq
  rw [readNumber_eq, numberSign_append hne]
  refine bind_eq_ok_iff.2 ⟨_, integerDigits_append hr hinteger, ?_⟩
  refine bind_eq_ok_iff.2 ⟨_, fractionDigits_append hr hfraction, ?_⟩
  exact bind_eq_ok_iff.2 ⟨_, exponentDigits_append hr hexponent, rfl⟩

end Waybill.Json
