import Waybill.Decimal.Style
import Waybill.Json.Token
import Waybill.KeyMap

/-!
# Writing JSON

The values that are written as JSON text. An object lists its members in the
order in which they are written. A value is written in one line without blanks,
or with every item and every member in a line of its own, set in by two blanks
for each level.
-/

namespace Waybill.Json

/-- A value to be written as JSON. -/
inductive Value where
  | null
  | number (x : Float)
  | text (s : String)
  | array (items : List Value)
  | object (members : List (String × Value))

namespace Value

/-- The object of a map, its members in key order. -/
def ofMap (m : KeyMap String) : Value :=
  .object (m.entries.map fun e => (e.1, .text e.2))

/-! ## Texts -/

mutual

/-- The text of a value without blanks. -/
def compactChars : Value → List Char
  | .null => ['n', 'u', 'l', 'l']
  | .number x => (Decimal.Style.json.write x).toList
  | .text s => quote s
  | .array items => '[' :: compactItems items ++ [']']
  | .object members => '\x7b' :: compactMembers members ++ ['\x7d']

/-- Items with commas between them. -/
def compactItems : List Value → List Char
  | [] => []
  | [v] => compactChars v
  | v :: rest => compactChars v ++ ',' :: compactItems rest

/-- Members with commas between them. -/
def compactMembers : List (String × Value) → List Char
  | [] => []
  | [(key, v)] => quote key ++ ':' :: compactChars v
  | (key, v) :: rest => quote key ++ ':' :: compactChars v ++ ',' :: compactMembers rest

end

/-- The text of a value in one line. -/
def compact (v : Value) : String := String.ofList v.compactChars

/-- A new line at some level. -/
def newLine (level : Nat) : List Char :=
  '\n' :: List.replicate (2 * level) ' '

mutual

/-- The text of a value at some level. -/
def prettyChars (level : Nat) : Value → List Char
  | .array [] => ['[', ']']
  | .array items => '[' :: prettyItems (level + 1) items ++ newLine level ++ [']']
  | .object [] => ['\x7b', '\x7d']
  | .object members => '\x7b' :: prettyMembers (level + 1) members ++ newLine level ++ ['\x7d']
  | .null => ['n', 'u', 'l', 'l']
  | .number x => (Decimal.Style.json.write x).toList
  | .text s => quote s

/-- Items, each in a line of its own. -/
def prettyItems (level : Nat) : List Value → List Char
  | [] => []
  | [v] => newLine level ++ prettyChars level v
  | v :: rest => newLine level ++ prettyChars level v ++ ',' :: prettyItems level rest

/-- Members, each in a line of its own. -/
def prettyMembers (level : Nat) : List (String × Value) → List Char
  | [] => []
  | [(key, v)] => newLine level ++ quote key ++ ':' :: ' ' :: prettyChars level v
  | (key, v) :: rest =>
    newLine level ++ quote key ++ ':' :: ' ' :: prettyChars level v ++ ',' ::
      prettyMembers level rest

end

/-- The text of a value over several lines. -/
def pretty (v : Value) : String := String.ofList (v.prettyChars 0)

end Value

end Waybill.Json
