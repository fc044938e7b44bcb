import Waybill.Decimal.Shortest

/-!
# Written numbers

How the shortest digits of a number are laid out: where the point goes,
when a power of ten is written instead, and what stands for the values that
have no digits. Two styles are in use, one for messages and settings and one
for JSON texts.
-/

namespace Waybill.Decimal

/-- The layout of a written number. -/
structure Style where
  /-- Which of two equally near decimals is written. -/
  tie : Tie
  /-- Whether a number whose first digit counts this power of ten is written
  without an exponent. -/
  positional : Int → Bool
  /-- What follows the digits of a whole number without an exponent. -/
  wholeEnd : String
  /-- What stands for a value that is not a number. -/
  notANumber : String
  /-- What stands for a value above all others. -/
  infinite : String
  /-- What stands for a value below all others. -/
  negativeInfinite : String

/-- Messages and settings: never an exponent, a half goes up, a whole number
has no point. -/
def Style.plain : Style where
  tie := .up
  positional _ := true
  wholeEnd := ""
  notANumber := "NaN"
  infinite := "inf"
  negativeInfinite := "-inf"

/-- JSON texts: an exponent below `10 ^ -5` and from `10 ^ 16` on, a half goes
to the even neighbour, and every number shows that it need not be whole. -/
def Style.json : Style where
  tie := .toEven
  positional power := -5 ≤ power && power < 16
  wholeEnd := ".0"
  notANumber := "null"
  infinite := "null"
  negativeInfinite := "null"

namespace Style

/-- `digits * 10 ^ power` with a point and no exponent. -/
def writePositional (style : Style) (digits : List Char) (power : Int) : List Char :=
  if 0 ≤ power then
    digits ++ List.replicate power.toNat '0' ++ style.wholeEnd.toList
  else
    let places := (-power).toNat
    if places < digits.length then
      digits.take (digits.length - places) ++ '.' :: digits.drop (digits.length - places)
    else
      '0' :: '.' :: List.replicate (places - digits.length) '0' ++ digits

/-- `digits * 10 ^ power` as one digit, the others behind a point, and the
power of ten that the first digit counts. -/
def writeScientific (digits : List Char) (power : Int) : List Char :=
  let exponent := power + digits.length - 1
  let fraction := match digits.drop 1 with
    | [] => []
    | rest => '.' :: rest
  digits.take 1 ++ fraction ++ 'e' :: (if exponent < 0 then '-' else '+') ::
    Nat.toDigits 10 exponent.natAbs

/-- A finite number without its sign. -/
def writeMagnitude (style : Style) (mantissa : Nat) (exponent : Int) : List Char :=
  if mantissa = 0 then '0' :: style.wholeEnd.toList
  else
    let (digits, power) := shortest style.tie mantissa exponent
    let digits := Nat.toDigits 10 digits
    if style.positional (power + digits.length - 1) then style.writePositional digits power
    else writeScientific digits power

/-- The text of a number. -/
def write (style : Style) (x : Float) : String :=
  match parts x with
  | .notANumber => style.notANumber
  | .infinite negative => if negative then style.negativeInfinite else style.infinite
  | .finite negative mantissa exponent =>
    String.ofList ((if negative then ['-'] else []) ++ style.writeMagnitude mantissa exponent)

end Style

/-- A number as messages and settings show it. -/
def plain (x : Float) : String := Style.plain.write x

end Waybill.Decimal
