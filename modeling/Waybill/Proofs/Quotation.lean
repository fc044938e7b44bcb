import Mathlib.Tactic.Common
import Waybill.Json.Draft
import Waybill.Proofs.Encoding

/-!
# Quoted texts read back

Each character is written as it is or behind a backslash, by what stands for it
(`quoteChar_cases`); either way one step of reading gives the character back and one step of
passing over leaves it behind. So what `quote` writes is read as the text (`readText_quoted`) and
passed over to the same place (`skipText_quoted`), whatever the characters are.
-/

namespace Waybill.Json

open Url.Percent (hexValue? hexValue?_digitChar)

/-! ## One character -/

/-- The characters behind a backslash stand for `c`. -/
structure IsEscapeOf (escape : List Char) (c : Char) : Prop where
  read : ∀ r, readEscape (escape ++ r) = .ok (c, r)
  skip : ∀ r, skipEscape (escape ++ r) = .ok r

/-- A letter that is an escape stands for its character. -/
theorem isEscapeOf_letter {letter c : Char} (h : simpleEscape? letter = some c) :
    IsEscapeOf [letter] c := by
  have hne : letter ≠ 'u' := by
    rintro rfl
    cases h
  constructor
  · intro r
    simp [readEscape, h]
  · intro r
    simp [skipEscape, h]

/-- A number below two hundred fifty-six is written in four digits and read from them. -/
theorem hexQuad_of_lt {n : Nat} (hn : n < 256) (r : List Char) :
    hexQuad ('0' :: '0' :: Nat.digitChar (n / 16) :: Nat.digitChar (n % 16) :: r) = .ok (n, r) := by
  have hzero : hexValue? '0' = some 0 := rfl
  have hhigh : hexValue? (Nat.digitChar (n / 16)) = some (n / 16) :=
    hexValue?_digitChar (by omega)
  have hlow : hexValue? (Nat.digitChar (n % 16)) = some (n % 16) :=
    hexValue?_digitChar (by omega)
  have hsum : 4096 * 0 + 256 * 0 + 16 * (n / 16) + n % 16 = n := by omega
  simp only [hexQuad, hzero, hhigh, hlow, hsum]

/-- A control character is escaped by its number, which is no half of a surrogate pair. -/
theorem isEscapeOf_number {c : Char} (hc : c.toNat < 0x20) :
    IsEscapeOf ['u', '0', '0', Nat.digitChar (c.toNat / 16), Nat.digitChar (c.toNat % 16)] c := by
  have hquad := hexQuad_of_lt (n := c.toNat) (by omega)
  have hleading : isLeading c.toNat = false := by
    simp only [isLeading, Bool.and_eq_false_iff, decide_eq_false_iff_not]
    omega
  have htrailing : isTrailing c.toNat = false := by
    simp only [isTrailing, Bool.and_eq_false_iff, decide_eq_false_iff_not]
    omega
  constructor
  · intro r
    have hread : readNumbered ('0' :: '0' :: Nat.digitChar (c.toNat / 16) ::
        Nat.digitChar (c.toNat % 16) :: r) = .ok (Char.ofNat c.toNat, r) := by
      simp [readNumbered, hquad, hleading, htrailing, bind, Except.bind, pure, Except.pure]
    rw [Char.ofNat_toNat] at hread
    exact hread
  · intro r
    have hskip := congrArg (Except.map (·.2)) (hquad r)
    exact hskip

/-- What is written of a character: an escape that stands for it, or the character itself, if it
neither ends the text nor starts an escape nor has to be escaped. -/
theorem quoteChar_cases (c : Char) :
    (∃ escape, quoteChar c = '\\' :: escape ∧ IsEscapeOf escape c) ∨
      quoteChar c = [c] ∧ c ≠ '\x22' ∧ c ≠ '\\' ∧ ¬ c.toNat < 0x20 := by
  unfold quoteChar
  by_cases hquote : c = '\x22'
  · rw [if_pos hquote]
    exact .inl ⟨_, rfl, isEscapeOf_letter (by rw [hquote]; rfl)⟩
  rw [if_neg hquote]
  by_cases hback : c = '\\'
  · rw [if_pos hback]
    exact .inl ⟨_, rfl, isEscapeOf_letter (by rw [hback]; rfl)⟩
  rw [if_neg hback]
  by_cases hbackspace : c = '\x08'
  · rw [if_pos hbackspace]
    exact .inl ⟨_, rfl, isEscapeOf_letter (by rw [hbackspace]; rfl)⟩
  rw [if_neg hbackspace]
  by_cases hfeed : c = '\x0c'
  · rw [if_pos hfeed]
    exact .inl ⟨_, rfl, isEscapeOf_letter (by rw [hfeed]; rfl)⟩
  rw [if_neg hfeed]
  by_cases hline : c = '\n'
  · rw [if_pos hline]
    exact .inl ⟨_, rfl, isEscapeOf_letter (by rw [hline]; rfl)⟩
  rw [if_neg hline]
  by_cases hreturn : c = '\r'
  · rw [if_pos hreturn]
    exact .inl ⟨_, rfl, isEscapeOf_letter (by rw [hreturn]; rfl)⟩
  rw [if_neg hreturn]
  by_cases htab : c = '\t'
  · rw [if_pos htab]
    exact .inl ⟨_, rfl, isEscapeOf_letter (by rw [htab]; rfl)⟩
  rw [if_neg htab]
  by_cases hcontrol : c.toNat < 0x20
  · rw [if_pos hcontrol]
    exact .inl ⟨_, rfl, isEscapeOf_number hcontrol⟩
  rw [if_neg hcontrol]
  exact .inr ⟨rfl, hquote, hback, hcontrol⟩

/-- One character, escaped or not, is read from what was written of it. -/
theorem readTextFrom_quoteChar (fuel : Nat) (c : Char) (r : List Char) :
    readTextFrom (fuel + 1) (quoteChar c ++ r) =
      (readTextFrom fuel r).map fun (cs, r) => (c :: cs, r) := by
  rcases quoteChar_cases c with ⟨escape, hwritten, hescape⟩ | ⟨hwritten, hquote, hback, hcontrol⟩
  · rw [hwritten, List.cons_append, readTextFrom, if_neg (by decide), if_pos rfl, hescape.read]
    show (do let (cs, r) ← readTextFrom fuel r; return (c :: cs, r)) = _
    cases readTextFrom fuel r <;> rfl
  · rw [hwritten, List.singleton_append, readTextFrom, if_neg hquote, if_neg hback,
      if_neg hcontrol]
    cases readTextFrom fuel r <;> rfl

theorem skipTextFrom_quoteChar (fuel : Nat) (c : Char) (r : List Char) :
    skipTextFrom (fuel + 1) (quoteChar c ++ r) = skipTextFrom fuel r := by
  rcases quoteChar_cases c with ⟨escape, hwritten, hescape⟩ | ⟨hwritten, hquote, hback, hcontrol⟩
  · rw [hwritten, List.cons_append, skipTextFrom, if_neg (by decide), if_pos rfl, hescape.skip]
    rfl
  · rw [hwritten, List.singleton_append, skipTextFrom, if_neg hquote, if_neg hback,
      if_neg hcontrol]

/-! ## Whole texts -/

/-- The characters of a text within the quotes. -/
def quotedChars (s : String) : List Char := s.toList.flatMap quoteChar

theorem quote_append (s : String) (r : List Char) :
    quote s ++ r = '\x22' :: (quotedChars s ++ '\x22' :: r) := by
  simp [quote, quotedChars]

/-- A text is read up to its closing quote. -/
theorem readTextFrom_quoted {cs : List Char} {fuel : Nat} (hfuel : cs.length < fuel)
    (r : List Char) :
    readTextFrom fuel (cs.flatMap quoteChar ++ '\x22' :: r) = .ok (cs, r) := by
  induction cs generalizing fuel with
  | nil =>
    obtain ⟨fuel, rfl⟩ := Nat.exists_eq_add_of_lt hfuel
    rfl
  | cons c cs ih =>
    obtain ⟨fuel, rfl⟩ := Nat.exists_eq_add_of_lt hfuel
    have hrest := @ih (cs.length + 1 + fuel) (by omega)
    rw [List.flatMap_cons, List.append_assoc, List.length_cons, readTextFrom_quoteChar, hrest]
    rfl

theorem skipTextFrom_quoted {cs : List Char} {fuel : Nat} (hfuel : cs.length < fuel)
    (r : List Char) :
    skipTextFrom fuel (cs.flatMap quoteChar ++ '\x22' :: r) = .ok r := by
  induction cs generalizing fuel with
  | nil =>
    obtain ⟨fuel, rfl⟩ := Nat.exists_eq_add_of_lt hfuel
    rfl
  | cons c cs ih =>
    obtain ⟨fuel, rfl⟩ := Nat.exists_eq_add_of_lt hfuel
    have hrest := @ih (cs.length + 1 + fuel) (by omega)
    rw [List.flatMap_cons, List.append_assoc, List.length_cons, skipTextFrom_quoteChar, hrest]

/-- A text is written with no fewer characters than it has, so there are steps enough to read
it. -/
theorem length_lt_length_quoted (s : String) (r : List Char) :
    s.toList.length < (quotedChars s ++ '\x22' :: r).length + 1 := by
  have hchars : ∀ cs : List Char, cs.length ≤ (cs.flatMap quoteChar).length := by
    intro cs
    induction cs with
    | nil => exact Nat.le_refl 0
    | cons c cs ih =>
      have hone : 1 ≤ (quoteChar c).length := by
        rcases quoteChar_cases c with ⟨escape, hwritten, -⟩ | ⟨hwritten, -⟩ <;> simp [hwritten]
      rw [List.flatMap_cons, List.length_append, List.length_cons]
      omega
  have hlength : s.toList.length ≤ (quotedChars s).length := hchars s.toList
  rw [List.length_append]
  omega

/-- A text is read from what was written of it, whatever follows. -/
theorem readText_quoted (s : String) (r : List Char) :
    readText (quotedChars s ++ '\x22' :: r) = .ok (s, r) := by
  have hread := readTextFrom_quoted (length_lt_length_quoted s r) r
  exact (congrArg _ hread).trans (congrArg (fun s => Except.ok (s, r)) String.ofList_toList)

theorem skipText_quoted (s : String) (r : List Char) :
    skipText (quotedChars s ++ '\x22' :: r) = .ok r :=
  skipTextFrom_quoted (length_lt_length_quoted s r) r

theorem Draft.ofText_quoted (s : String) (r : List Char) :
    Draft.ofText (quotedChars s ++ '\x22' :: r) = (.text (.ok s), some r) := by
  simp only [Draft.ofText, readText_quoted, skipText_quoted, Except.map]

end Waybill.Json
