import Waybill.Url.Basic
import Waybill.Url.Percent

/-!
# Hosts

A host in brackets is an address of version 6 under every scheme. Otherwise a
special scheme takes a domain name, in lower case, or an address of version
4, and any other scheme takes a text as it stands, with some characters
refused.

An address of version 4 may be written with fewer than four parts, in octal and
in hexadecimal; it has one canonical form with four decimal parts. An address of
version 6 is eight pieces of sixteen bits, of which one run of zeros may be left
out; its canonical form leaves out the longest.
-/

namespace Waybill.Url.Address

open Percent

/-! ## Version 4 -/

/-- The digits of a text in some base, if it has no others. -/
def readDigits? (base : Nat) (cs : List Char) : Option Nat :=
  cs.foldl (fun n? c => do
    let n ← n?
    let d ← hexValue? c
    if d < base then some (base * n + d) else none) (some 0)

/-- One part of an address: hexadecimal behind `0x`, octal behind `0`, else
decimal. The part `0x` alone is zero. -/
def readPart? : List Char → Option Nat
  | [] => none
  | '0' :: 'x' :: r => readDigits? 16 r
  | '0' :: 'X' :: r => readDigits? 16 r
  | '0' :: d :: r => readDigits? 8 (d :: r)
  | cs => readDigits? 10 cs

/-- The parts between points; a point at the end counts for nothing. -/
def dottedParts (cs : List Char) : List (List Char) :=
  let parts := cs.splitOn '.'
  if 1 < parts.length ∧ parts.getLast? = some [] then parts.dropLast else parts

/-- Whether the last part of a host is a number, so that the whole must be an
address. -/
def endsInNumber (cs : List Char) : Bool :=
  match (dottedParts cs).getLast? with
  | none => false
  | some part => part ≠ [] && (part.all Char.isDigit || (readPart? part).isSome)

/-- The address of at most four parts. All but the last fill one byte each,
the last fills the rest. -/
def readVersion4? (cs : List Char) : Option Nat := do
  let parts := dottedParts cs
  guard (parts.length ≤ 4)
  let numbers ← parts.mapM readPart?
  let leading := numbers.dropLast
  let last ← numbers.getLast?
  guard (leading.all (· ≤ 255) ∧ last < Nat.pow 256 (4 - leading.length))
  return leading.zipIdx.foldl (fun sum (n, i) => sum + n * Nat.pow 256 (3 - i)) last

/-- Four decimal parts. -/
def writeVersion4 (address : Nat) : List Char :=
  let byte (i : Nat) : List Char := Nat.toDigits 10 (address / Nat.pow 256 i % 256)
  byte 3 ++ '.' :: byte 2 ++ '.' :: byte 1 ++ '.' :: byte 0

/-! ## Version 6 -/

/-- One piece: one to four hexadecimal digits. -/
def readPiece? (cs : List Char) : Option Nat :=
  if cs = [] ∨ 4 < cs.length then none else readDigits? 16 cs

/-- One decimal part of the version 4 tail, without leading zeros. -/
def readByte? (cs : List Char) : Option Nat := do
  guard (cs ≠ [] ∧ cs.all Char.isDigit ∧ (cs.head? = some '0' → cs.length = 1))
  let n ← readDigits? 10 cs
  guard (n ≤ 255)
  return n

/-- The two pieces of a version 4 tail with four decimal parts. -/
def readTail? (cs : List Char) : Option (List Nat) :=
  match (cs.splitOn '.').mapM readByte? with
  | some [a, b, c, d] => some [256 * a + b, 256 * c + d]
  | _ => none

/-- Pieces between colons, the last of which may be a version 4 tail where
`tail` allows it. -/
def readPieces? (tail : Bool) : List (List Char) → Option (List Nat)
  | [] => some []
  | [last] =>
    if tail && last.contains '.' then readTail? last else (readPiece? last).map ([·])
  | piece :: rest => do
    let n ← readPiece? piece
    let ns ← readPieces? tail rest
    return n :: ns

/-- A text cut at its first double colon. -/
def cutAtDoubleColon? : List Char → Option (List Char × List Char)
  | ':' :: ':' :: r => some ([], r)
  | c :: r => (cutAtDoubleColon? r).map fun (before, after) => (c :: before, after)
  | [] => none

/-- The pieces of a side of the double colon, none if it is empty. -/
def readSide? (tail : Bool) (cs : List Char) : Option (List Nat) :=
  if cs = [] then some [] else readPieces? tail (cs.splitOn ':')

/-- The eight pieces. A double colon stands for one piece of zeros at least. -/
def readVersion6? (cs : List Char) : Option (List Nat) := do
  match cutAtDoubleColon? cs with
  | none =>
    let pieces ← readPieces? true (cs.splitOn ':')
    guard (pieces.length = 8)
    return pieces
  | some (before, after) =>
    let front ← readSide? false before
    let back ← readSide? true after
    guard (front.length + back.length ≤ 7)
    return front ++ List.replicate (8 - front.length - back.length) 0 ++ back

/-- How many zeros a list starts with. -/
def leadingZeros (pieces : List Nat) : Nat :=
  (pieces.takeWhile (· == 0)).length

/-- The first of the longest runs of zeros: where it starts and its length. -/
def longestZeros : List Nat → Nat × Nat
  | [] => (0, 0)
  | p :: rest =>
    let here := leadingZeros (p :: rest)
    let (start, length) := longestZeros rest
    if here ≠ 0 ∧ length ≤ here then (0, here) else (start + 1, length)

/-- Pieces in lower-case hexadecimal with colons between them. -/
def writePieces (pieces : List Nat) : List Char :=
  [':'].intercalate (pieces.map (Nat.toDigits 16))

/-- Pieces with the longest run of zeros left out, unless it is a single one. -/
def writeVersion6 (pieces : List Nat) : List Char :=
  let (start, length) := longestZeros pieces
  if length < 2 then writePieces pieces
  else writePieces (pieces.take start) ++ ':' :: ':' :: writePieces (pieces.drop (start + length))

end Waybill.Url.Address

namespace Waybill.Url

/-! ## Hosts of all kinds -/

open Percent Address

/-- A character that no host may hold. -/
def isForbiddenInHost (c : Char) : Bool :=
  c == '\x00' || c == '\t' || c == '\n' || c == '\r' || c == ' ' || c == '#' || c == '/' ||
    c == ':' || c == '<' || c == '>' || c == '?' || c == '@' || c == '[' || c == '\\' ||
    c == ']' || c == '^' || c == '|'

/-- A character that no domain name may hold. Names outside ASCII are not
resolved. -/
def isForbiddenInDomain (c : Char) : Bool :=
  isForbiddenInHost c || inControls c || c == '%'

/-- The address of version 6 between brackets, as it is written. -/
def readBracketed (cs : List Char) : Except Error String :=
  match cs with
  | '[' :: r =>
    if r.getLast? = some ']' then
      match readVersion6? r.dropLast with
      | some pieces => .ok (String.ofList ('[' :: writeVersion6 pieces ++ [']']))
      | none => .error .invalidVersion6
    else .error .invalidVersion6
  | _ => .error .invalidVersion6

/-- A domain name or an address of version 4, as it is written. -/
def readDomain (cs : List Char) : Except Error String :=
  let bytes := decode cs
  let name := bytes.map fun b => (Char.ofNat b.toNat).toLower
  if name.any isForbiddenInDomain then .error .invalidDomainName
  else if name = [] then .error .emptyHost
  else if endsInNumber name then
    match readVersion4? name with
    | some address => .ok (String.ofList (writeVersion4 address))
    | none => .error .invalidVersion4
  else .ok (String.ofList name)

/-- The written form of a host. -/
def readHost (special : Bool) (cs : List Char) : Except Error String :=
  if cs.head? = some '[' then readBracketed cs
  else if special then readDomain cs
  else if cs.any isForbiddenInHost then .error .invalidHostCharacter
  else .ok (String.ofList (encode inControls cs))

end Waybill.Url
