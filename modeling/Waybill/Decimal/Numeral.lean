/-!
# Reading numbers

A numeral is a decimal as it was written, `± mantissa * 10 ^ power`. Its value
is the number of the binary format nearest to it. `read?` accepts what may
stand in settings: an optional sign, then digits with an optional point and
an optional exponent, or the word for an infinite or missing value.

A count is written in decimal digits, with a plus sign if one likes, and fits
sixty-four bits. It is read from the left, so what is wrong first is reported.
-/

namespace Waybill.Decimal

/-! ## Numerals -/

/-- A decimal as written, exact. -/
structure Numeral where
  negative : Bool
  mantissa : Nat
  power : Int
  deriving DecidableEq, Repr

/-- The number of the digits `cs`. -/
def ofDigits (cs : List Char) : Nat :=
  cs.foldl (fun n c => 10 * n + (c.toNat - 48)) 0

/-- The value above all others. -/
def infinity : Float := Float.ofBits 0x7FF0000000000000

/-- The value that is not a number. -/
def notANumber : Float := Float.ofBits 0x7FF8000000000000

namespace Numeral

/-- The nearest number to an unsigned decimal. A decimal beyond the last power
of ten in the format is infinite, one far below the first is zero. -/
def magnitude (mantissa : Nat) (power : Int) : Float :=
  let size := power + (Nat.toDigits 10 mantissa).length
  if mantissa = 0 ∨ size < -330 then 0
  else if 310 < size then infinity
  else Float.ofScientific mantissa (power < 0) power.natAbs

/-- The number nearest to a numeral. -/
def toFloat (n : Numeral) : Float :=
  let x := magnitude n.mantissa n.power
  if n.negative then -x else x

end Numeral

/-- The digits that a text starts with, and what follows them. -/
def digitSpan (cs : List Char) : List Char × List Char :=
  cs.span Char.isDigit

/-- An exponent that is a whole text: an optional sign and at least one digit. -/
def readExponent? (cs : List Char) : Option Int :=
  let (negative, cs) : Bool × List Char := match cs with
    | '+' :: r => (false, r)
    | '-' :: r => (true, r)
    | r => (false, r)
  match digitSpan cs with
  | ([], _) => none
  | (digits, []) => some (if negative then -(ofDigits digits : Int) else ofDigits digits)
  | _ => none

/-- Digits, an optional point and digits, an optional exponent, and no more;
one digit at least stands beside the point. -/
def readUnsigned? (negative : Bool) (cs : List Char) : Option Numeral :=
  let (whole, r) := digitSpan cs
  let (fraction, r) : List Char × List Char := match r with
    | '.' :: r => digitSpan r
    | r => ([], r)
  if whole = [] ∧ fraction = [] then none
  else
    let mantissa := ofDigits (whole ++ fraction)
    let finish (exponent : Int) : Numeral := ⟨negative, mantissa, exponent - fraction.length⟩
    match r with
    | [] => some (finish 0)
    | c :: r => if c = 'e' ∨ c = 'E' then (readExponent? r).map finish else none

/-- The value that a word stands for. -/
def readWord? (cs : List Char) : Option Float :=
  let word := String.ofList (cs.map Char.toLower)
  if word = "inf" ∨ word = "infinity" then some infinity
  else if word = "nan" then some notANumber
  else none

/-- The number a text stands for, without blanks around it. -/
def read? (s : String) : Option Float :=
  let (negative, cs) : Bool × List Char := match s.toList with
    | '+' :: r => (false, r)
    | '-' :: r => (true, r)
    | r => (false, r)
  match readWord? cs with
  | some x => some (if negative then -x else x)
  | none => (readUnsigned? negative cs).map Numeral.toFloat

/-- The number a text stands for; a text that is no number reads as
`notANumber`. -/
def read (s : String) : Float :=
  (read? s).getD notANumber

/-! ## Counts -/

/-- Why a text is no count. -/
inductive CountFault where
  | notADigit
  | tooLarge
  deriving DecidableEq, Repr

/-- The words for a fault. -/
def CountFault.message : CountFault → String
  | notADigit => "invalid digit found in string"
  | tooLarge => "number too large to fit in target type"

/-- The first number that is too large for a count. -/
def countLimit : Nat := 0x10000000000000000

/-- The count of some digits, behind digits that count `n`. -/
def readDigits (n : Nat) : List Char → Except CountFault Nat
  | [] => .ok n
  | c :: r =>
    let m := 10 * n + (c.toNat - 48)
    if !c.isDigit then .error .notADigit
    else if countLimit ≤ m then .error .tooLarge
    else readDigits m r

/-- The count that a text writes. -/
def readCount (s : String) : Except CountFault Nat :=
  match s.toList with
  | [] => .error .notADigit
  | ['+'] => .error .notADigit
  | '+' :: r => readDigits 0 r
  | r => readDigits 0 r

end Waybill.Decimal
