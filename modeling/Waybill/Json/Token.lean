import Waybill.Decimal.Numeral
import Waybill.Url.Percent

/-!
# Numbers and texts in JSON

The two kinds of values that are more than a word, and the faults at which a text
leaves the grammar. A number is an integer without needless zeros, with an
optional fraction and an optional exponent. It is kept as a whole number where it
was written as one that fits sixty-four bits. Otherwise it is computed from the
digits that fit sixty-four bits, times or over a power of ten: rounded twice, it
may miss the nearest float by a last place. A text stands in quotes, with some
characters escaped; there are two ways to go through one: `readText` wants to
know it and refuses escapes that stand for no character, `skipText` only looks
for its end. `quote` writes a text.
-/

namespace Waybill.Json

/-! ## Faults -/

/-- A way in which a text fails to be JSON. -/
inductive Fault where
  | endInValue
  | endInText
  | endInArray
  | endInObject
  | noValue
  | unknownWord
  | noColon
  | noCommaInArray
  | noCommaInObject
  | commaBeforeEnd
  | textAfterEnd
  | keyNotText
  | badNumber
  | numberOutOfRange
  | badEscape
  | controlCharacter
  | loneSurrogate
  | endOfSurrogate
  deriving DecidableEq, Repr

/-- The words for a fault. -/
def Fault.message : Fault → String
  | endInValue => "EOF while parsing a value"
  | endInText => "EOF while parsing a string"
  | endInArray => "EOF while parsing a list"
  | endInObject => "EOF while parsing an object"
  | noValue => "expected value"
  | unknownWord => "expected ident"
  | noColon => "expected `:`"
  | noCommaInArray => "expected `,` or `]`"
  | noCommaInObject => "expected `,` or `\x7d`"
  | commaBeforeEnd => "trailing comma"
  | textAfterEnd => "trailing characters"
  | keyNotText => "key must be a string"
  | badNumber => "invalid number"
  | numberOutOfRange => "number out of range"
  | badEscape => "invalid escape"
  | controlCharacter => "control character (\\u0000-\\u001F) found while parsing a string"
  | loneSurrogate => "lone leading surrogate in hex escape"
  | endOfSurrogate => "unexpected end of hex escape"

/-! ## Numbers -/

open Decimal

/-- A number as it was understood. -/
inductive Number where
  | whole (n : Int)
  | float (x : Float)
  deriving DecidableEq

/-- The nearest float. -/
def Number.toFloat : Number → Float
  | whole n => (Numeral.mk (n < 0) n.natAbs 0).toFloat
  | float x => x

/-- What may go wrong with a number: what it says when it is read and when it is
passed over. They differ where the text ends within the number. -/
structure NumberFault where
  read : Fault
  skipped : Fault
  deriving DecidableEq, Repr

/-- At this place a digit is missing. -/
def missingDigit : List Char → NumberFault
  | [] => ⟨.endInValue, .badNumber⟩
  | _ => ⟨.badNumber, .badNumber⟩

/-- At least one digit, and what follows. -/
def someDigits (cs : List Char) : Except NumberFault (List Char × List Char) :=
  match digitSpan cs with
  | ([], r) => .error (missingDigit r)
  | split => .ok split

/-- The digits of an integer, which start with a zero only if there is no other. -/
def integerDigits (cs : List Char) : Except NumberFault (List Char × List Char) :=
  match cs with
  | '0' :: r =>
    if (r.head?.map Char.isDigit).getD false then .error ⟨.badNumber, .badNumber⟩
    else .ok (['0'], r)
  | _ => someDigits cs

/-- The digits behind a point, if there is one. -/
def fractionDigits (cs : List Char) : Except NumberFault (Option (List Char) × List Char) :=
  match cs with
  | '.' :: r => (someDigits r).map fun (digits, r) => (some digits, r)
  | _ => .ok (none, cs)

/-- The sign and the digits of an exponent, if there is one. -/
def exponentDigits (cs : List Char) :
    Except NumberFault (Option (Bool × List Char) × List Char) :=
  match cs with
  | c :: r =>
    if c = 'e' ∨ c = 'E' then
      let (negative, r) : Bool × List Char := match r with
        | '+' :: r => (false, r)
        | '-' :: r => (true, r)
        | r => (false, r)
      (someDigits r).map fun (digits, r) => (some (negative, digits), r)
    else .ok (none, cs)
  | [] => .ok (none, [])

/-- Behind digits that count `n`, the number of as many digits more as fit
sixty-four bits, and the digits that are left. -/
def fitDigits (n : Nat) : List Char → Nat × List Char
  | [] => (n, [])
  | c :: r =>
    let m := 10 * n + (c.toNat - 48)
    if m < countLimit then fitDigits m r else (n, c :: r)

/-- The last power of ten that a float can be. -/
def lastPower : Nat := 308

/-- The float nearest to a power of ten. -/
def powerOfTen (n : Nat) : Float := Float.ofScientific 1 false n

/-- A value divided so many times by the last power of ten. -/
def shrink : Nat → Float → Float
  | 0, x => x
  | rounds + 1, x => if x == 0 then x else shrink rounds (x / powerOfTen lastPower)

/-- A value times ten to some power, in as few steps as there are powers for. Only
zero may be raised beyond the last. -/
def scale (x : Float) : Int → Except Fault Float
  | .ofNat n =>
    if lastPower < n then if x == 0 then .ok x else .error .numberOutOfRange
    else
      let y := x * powerOfTen n
      if y.isFinite then .ok y else .error .numberOutOfRange
  | .negSucc n =>
    let rounds := n / lastPower
    .ok (shrink rounds x / powerOfTen (n + 1 - lastPower * rounds))

/-- The value of a number from its parts. Minus zero is a float. Digits of the
integer that do not fit count as zeros; of the fraction they do not count. -/
def Number.ofParts (negative : Bool) (integer : List Char) (fraction : Option (List Char))
    (exponent : Option (Bool × List Char)) : Except Fault Number :=
  let (n, left) := fitDigits 0 integer
  let isWhole := fraction.isNone && exponent.isNone && left.isEmpty
  if isWhole && !negative then .ok (.whole n)
  else if isWhole && n ≠ 0 && n ≤ 0x8000000000000000 then .ok (.whole (-(n : Int)))
  else
    let places := fraction.getD []
    let (significand, dropped) := fitDigits n places
    let power : Int := match exponent with
      | none => 0
      | some (true, digits) => -(ofDigits digits : Int)
      | some (false, digits) => ofDigits digits
    (scale (Numeral.mk false significand 0).toFloat
      (power + left.length - (places.length - dropped.length))).map fun x =>
        .float (if negative then -x else x)

/-- A number and what follows it. A number that is out of range still has an
end. -/
def readNumber (cs : List Char) : Except NumberFault (Except Fault Number × List Char) := do
  let (negative, r) : Bool × List Char := match cs with
    | '-' :: r => (true, r)
    | r => (false, r)
  let (integer, r) ← integerDigits r
  let (fraction, r) ← fractionDigits r
  let (exponent, r) ← exponentDigits r
  return (Number.ofParts negative integer fraction exponent, r)

/-! ## Texts, read -/

open Url.Percent (hexValue?)

/-- The number of four hexadecimal digits, and what follows them. A text of less
than four bytes ends too early. -/
def hexQuad (cs : List Char) : Except Fault (Nat × List Char) :=
  match cs with
  | a :: b :: c :: d :: r =>
    match hexValue? a, hexValue? b, hexValue? c, hexValue? d with
    | some w, some x, some y, some z => .ok (4096 * w + 256 * x + 16 * y + z, r)
    | _, _, _, _ => .error .badEscape
  | _ => .error (if (String.ofList cs).utf8ByteSize < 4 then .endInText else .badEscape)

/-- The character of an escape of one letter. -/
def simpleEscape? : Char → Option Char
  | '\x22' => some '\x22'
  | '\\' => some '\\'
  | '/' => some '/'
  | 'b' => some '\x08'
  | 'f' => some '\x0c'
  | 'n' => some '\n'
  | 'r' => some '\r'
  | 't' => some '\t'
  | _ => none

/-- Whether a number is the first or the second half of a surrogate pair. -/
def isLeading (n : Nat) : Bool := 0xD800 ≤ n && n ≤ 0xDBFF

/-- Whether a number is the second half of a surrogate pair. -/
def isTrailing (n : Nat) : Bool := 0xDC00 ≤ n && n ≤ 0xDFFF

/-- The second half of a surrogate pair, which must be escaped like the first. -/
def readTrailing (cs : List Char) : Except Fault (Nat × List Char) := do
  match cs with
  | [] => throw .endInText
  | ['\\'] => throw .endInText
  | '\\' :: 'u' :: r =>
    let (n, r) ← hexQuad r
    if isTrailing n then return (n, r) else throw .loneSurrogate
  | _ => throw .endOfSurrogate

/-- The character of an escape by number, and what follows. -/
def readNumbered (cs : List Char) : Except Fault (Char × List Char) := do
  let (n, r) ← hexQuad cs
  if isTrailing n then throw .loneSurrogate
  else if isLeading n then
    let (m, r) ← readTrailing r
    return (Char.ofNat ((n - 0xD800) * 1024 + (m - 0xDC00) + 0x10000), r)
  else return (Char.ofNat n, r)

/-- The character of an escape, and what follows. -/
def readEscape (cs : List Char) : Except Fault (Char × List Char) :=
  match cs with
  | [] => .error .endInText
  | 'u' :: r => readNumbered r
  | c :: r =>
    match simpleEscape? c with
    | some d => .ok (d, r)
    | none => .error .badEscape

/-- What follows an escape that need not stand for a character. -/
def skipEscape (cs : List Char) : Except Fault (List Char) :=
  match cs with
  | [] => .error .endInText
  | 'u' :: r => (hexQuad r).map (·.2)
  | c :: r => if (simpleEscape? c).isSome then .ok r else .error .badEscape

/-- The characters up to the closing quote, and what follows it. `fuel` bounds
the number of characters. -/
def readTextFrom : Nat → List Char → Except Fault (List Char × List Char)
  | 0, _ => .error .endInText
  | _, [] => .error .endInText
  | fuel + 1, c :: r => do
    if c = '\x22' then return ([], r)
    else if c = '\\' then
      let (d, r) ← readEscape r
      let (ds, r) ← readTextFrom fuel r
      return (d :: ds, r)
    else if c.toNat < 0x20 then throw .controlCharacter
    else
      let (ds, r) ← readTextFrom fuel r
      return (c :: ds, r)

/-- What follows the closing quote. `fuel` bounds the number of characters. -/
def skipTextFrom : Nat → List Char → Except Fault (List Char)
  | 0, _ => .error .endInText
  | _, [] => .error .endInText
  | fuel + 1, c :: r => do
    if c = '\x22' then return r
    else if c = '\\' then skipTextFrom fuel (← skipEscape r)
    else if c.toNat < 0x20 then throw .controlCharacter
    else skipTextFrom fuel r

/-- The text behind an opening quote, and what follows its closing quote. -/
def readText (cs : List Char) : Except Fault (String × List Char) :=
  (readTextFrom (cs.length + 1) cs).map fun (s, r) => (String.ofList s, r)

/-- What follows the text behind an opening quote. -/
def skipText (cs : List Char) : Except Fault (List Char) :=
  skipTextFrom (cs.length + 1) cs

/-! ## Texts, written -/

/-- A character within quotes. Besides the quote and the backslash only control
characters are escaped. -/
def quoteChar (c : Char) : List Char :=
  if c = '\x22' then ['\\', '\x22']
  else if c = '\\' then ['\\', '\\']
  else if c = '\x08' then ['\\', 'b']
  else if c = '\x0c' then ['\\', 'f']
  else if c = '\n' then ['\\', 'n']
  else if c = '\r' then ['\\', 'r']
  else if c = '\t' then ['\\', 't']
  else if c.toNat < 0x20 then
    ['\\', 'u', '0', '0', Nat.digitChar (c.toNat / 16), Nat.digitChar (c.toNat % 16)]
  else [c]

/-- A text in quotes. -/
def quote (s : String) : List Char :=
  '\x22' :: s.toList.flatMap quoteChar ++ ['\x22']

end Waybill.Json
