/-!
# The shortest decimal that reads back

A positive number of the binary format, `mantissa * 2 ^ exponent`, is read
back from every decimal in the stretch of reals that round to it. The
stretch ends halfway to the two neighbours and holds its ends exactly when
the mantissa is even. `shortest` is the point of that stretch on the
coarsest decimal grid that has one there, and of several such points the
nearest: no decimal with fewer digits reads back.
-/

namespace Waybill.Decimal

/-- What the 64 bits of a number say. -/
inductive Parts where
  | notANumber
  | infinite (negative : Bool)
  | finite (negative : Bool) (mantissa : Nat) (exponent : Int)
  deriving DecidableEq, Repr

/-- The weight of the bit that tells the sign. -/
def signBit : Nat := 0x8000000000000000

/-- The weight of the leading bit of a mantissa, which is not stored. -/
def leadingBit : Nat := 0x10000000000000

/-- The parts of a number: sign, mantissa and power of two. -/
def parts (x : Float) : Parts :=
  let bits := x.toBits.toNat
  let negative := bits / signBit == 1
  let field : Nat := bits / leadingBit % 2048
  let fraction : Nat := bits % leadingBit
  if field = 2047 then
    if fraction = 0 then .infinite negative else .notANumber
  else if field = 0 then .finite negative fraction (-1074)
  else .finite negative (leadingBit + fraction) ((field : Int) - 1075)

/-- Neither infinite nor without a value. -/
def isFinite (x : Float) : Bool :=
  match parts x with
  | .finite .. => true
  | _ => false

/-- What is done with a value halfway between two decimals of one length. -/
inductive Tie where
  /-- The larger one is taken. -/
  | up
  /-- The one with an even last digit is taken. -/
  | toEven
  deriving DecidableEq, Repr

/-- A stretch of positive reals around a value, all over one denominator. -/
structure Stretch where
  low : Nat
  value : Nat
  high : Nat
  denominator : Nat
  /-- Whether the ends belong to it. -/
  closed : Bool

/-- A power of a base, one where the exponent is negative. -/
def powerOf (base : Nat) (exponent : Int) : Nat := Nat.pow base exponent.toNat

namespace Stretch

/-- The reals that round to `mantissa * 2 ^ exponent`. The neighbour below a
power of two is only half as far as the one above. -/
def ofBinary (mantissa : Nat) (exponent : Int) : Stretch :=
  let below := if mantissa = leadingBit ∧ -1074 < exponent then 1 else 2
  let scale := powerOf 2 (exponent - 2)
  { low := (4 * mantissa - below) * scale
    value := 4 * mantissa * scale
    high := (4 * mantissa + 2) * scale
    denominator := powerOf 2 (2 - exponent)
    closed := mantissa % 2 == 0 }

/-- Whether `digits * 10 ^ power` lies in the stretch. -/
def holds (s : Stretch) (digits : Nat) (power : Int) : Bool :=
  let point := digits * powerOf 10 power * s.denominator
  let scale := powerOf 10 (-power)
  if s.closed then s.low * scale ≤ point && point ≤ s.high * scale
  else s.low * scale < point && point < s.high * scale

/-- The nearest multiple of `10 ^ power` in the stretch, if there is one. -/
def nearest? (tie : Tie) (s : Stretch) (power : Int) : Option Nat :=
  let unit := s.denominator * powerOf 10 power
  let value := s.value * powerOf 10 (-power)
  let floor := value / unit
  let rest := value % unit
  match s.holds floor power, s.holds (floor + 1) power with
  | false, false => none
  | true, false => some floor
  | false, true => some (floor + 1)
  | true, true =>
    if 2 * rest < unit then some floor
    else if unit < 2 * rest then some (floor + 1)
    else match tie with
      | .up => some (floor + 1)
      | .toEven => some (if floor % 2 = 0 then floor else floor + 1)

/-- The first hit on the grids `10 ^ power`, `10 ^ (power - 1)` and so on. -/
def coarsest (tie : Tie) (s : Stretch) : Nat → Int → Nat × Int
  | 0, power => (s.value * powerOf 10 (-power) / (s.denominator * powerOf 10 power), power)
  | steps + 1, power =>
    match s.nearest? tie power with
    | some digits => (digits, power)
    | none => coarsest tie s steps (power - 1)

end Stretch

/-- Digits and power of ten of the shortest decimal that reads back as
`mantissa * 2 ^ exponent`. The first grid tried is coarser than the value
and the last finer than any gap between two numbers. -/
def shortest (tie : Tie) (mantissa : Nat) (exponent : Int) : Nat × Int :=
  let s := Stretch.ofBinary mantissa exponent
  let size := (Nat.toDigits 10 (s.high / s.denominator)).length
  s.coarsest tie (size + 1100) size

end Waybill.Decimal
