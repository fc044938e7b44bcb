/-!
# Percent encoding

A character that may not stand in some part of a URL is written as its bytes
in UTF-8, each behind a percent sign. Which characters those are depends on
the part; characters outside ASCII are encoded in every part, a percent sign
in none. A text without characters to encode is kept (`encode_eq_self`).
-/

namespace Waybill.Url.Percent

/-! ## The characters encoded in each part -/

/-- A control character or one outside ASCII. -/
def inControls (c : Char) : Bool :=
  c.toNat < 0x20 || 0x7F ≤ c.toNat

/-- Encoded behind the number sign. -/
def inFragment (c : Char) : Bool :=
  inControls c || c == ' ' || c == '\x22' || c == '<' || c == '>' || c == '\x60'

/-- Encoded in a path. -/
def inPath (c : Char) : Bool :=
  inFragment c || c == '#' || c == '?' || c == '\x7b' || c == '\x7d'

/-- Encoded in a user name or a password. -/
def inCredentials (c : Char) : Bool :=
  inPath c || c == '/' || c == ':' || c == ';' || c == '=' || c == '@' || c == '[' ||
    c == '\\' || c == ']' || c == '^' || c == '|'

/-- Encoded behind the question mark. -/
def inQuery (c : Char) : Bool :=
  inControls c || c == ' ' || c == '\x22' || c == '#' || c == '<' || c == '>'

/-- Encoded behind the question mark of a special scheme. -/
def inSpecialQuery (c : Char) : Bool :=
  inQuery c || c == '\x27'

/-! ## Encoding -/

/-- The upper-case hexadecimal digit of a number below 16. -/
def hexDigit (n : Nat) : Char :=
  if n < 10 then Char.ofNat (48 + n) else Char.ofNat (55 + n)

/-- A byte behind its percent sign. -/
def encodeByte (b : UInt8) : List Char :=
  ['%', hexDigit (b.toNat / 16), hexDigit (b.toNat % 16)]

/-- A character as it stands, or encoded where the part asks for it. -/
def encodeChar (encoded : Char → Bool) (c : Char) : List Char :=
  if encoded c then (String.utf8EncodeChar c).flatMap encodeByte else [c]

/-- A text with the characters that the part asks for encoded. -/
def encode (encoded : Char → Bool) (cs : List Char) : List Char :=
  cs.flatMap (encodeChar encoded)

@[simp] theorem encode_nil (encoded : Char → Bool) : encode encoded [] = [] := rfl

@[simp] theorem encode_append (encoded : Char → Bool) (cs ds : List Char) :
    encode encoded (cs ++ ds) = encode encoded cs ++ encode encoded ds := by
  simp [encode]

/-- A text without characters to encode is kept. -/
theorem encode_eq_self {encoded : Char → Bool} {cs : List Char}
    (h : ∀ c ∈ cs, encoded c = false) : encode encoded cs = cs := by
  induction cs with
  | nil => rfl
  | cons c r ih =>
    have hc : encoded c = false := h c List.mem_cons_self
    have hr := ih fun d hd => h d (List.mem_cons_of_mem c hd)
    simp only [encode, List.flatMap_cons, encodeChar, hc] at hr ⊢
    simp [hr]

/-! ## Decoding -/

/-- The value of a hexadecimal digit. -/
def hexValue? (c : Char) : Option Nat :=
  let n := c.toNat
  if 48 ≤ n ∧ n ≤ 57 then some (n - 48)
  else if 65 ≤ n ∧ n ≤ 70 then some (n - 55)
  else if 97 ≤ n ∧ n ≤ 102 then some (n - 87)
  else none

/-- The bytes of a text in which a percent sign with two hexadecimal digits
stands for a byte. Another percent sign stands for itself. -/
def decode : List Char → List UInt8
  | '%' :: a :: b :: r =>
    match hexValue? a, hexValue? b with
    | some x, some y => UInt8.ofNat (16 * x + y) :: decode r
    | _, _ => 37 :: decode (a :: b :: r)
  | c :: r => String.utf8EncodeChar c ++ decode r
  | [] => []

end Waybill.Url.Percent
