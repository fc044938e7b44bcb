import Waybill.Decimal.Style
import Waybill.Json.Draft
import Waybill.Json.Value
import Waybill.Text.Quoted

/-!
# Values from JSON

A decoder makes a value of one kind from a draft, and meets the faults of the
draft and the parts of the wrong kind in the order of the text.
-/

namespace Waybill.Json

/-! ## Errors -/

/-- What was found where something else was wanted. -/
inductive Found where
  | null
  | bool (b : Bool)
  | whole (n : Int)
  | float (x : Float)
  | text (s : String)
  | array
  | object
  deriving DecidableEq

/-- The words for what was found. -/
def Found.message : Found → String
  | null => "null"
  | bool b => s!"boolean `{b}`"
  | whole n => s!"integer `{n}`"
  | float x => s!"floating point `{Decimal.Style.json.write x}`"
  | text s => s!"string {Text.quoted s}"
  | array => "sequence"
  | object => "map"

/-- Why a text does not give a value. -/
inductive Error where
  | fault (f : Fault)
  | wrongKind (found : Found) (wanted : String)
  | tooFewItems (found : Nat) (wanted : String)
  | missingField (name : String)
  | duplicateField (name : String)
  /-- A text of the right kind that says nothing valid. -/
  | invalidText (reason text : String)
  deriving DecidableEq

/-- The words for an error. -/
def Error.message : Error → String
  | fault f => f.message
  | wrongKind found wanted => s!"invalid type: {found.message}, expected {wanted}"
  | tooFewItems found wanted => s!"invalid length {found}, expected {wanted}"
  | missingField name => s!"missing field `{name}`"
  | duplicateField name => s!"duplicate field `{name}`"
  | invalidText reason text => s!"{reason}: {Text.quoted text}"

/-! ## Decoders -/

/-- A way to make a value from a draft. -/
abbrev Decoder (α : Type) := Draft → Except Error α

namespace Draft

/-- What a draft is found to be. Arrays and objects are known by their first
character, all else has to be readable. -/
def found : Draft → Except Error Found
  | .null => .ok .null
  | .bool b => .ok (.bool b)
  | .number (.ok (.whole n)) => .ok (.whole n)
  | .number (.ok (.float x)) => .ok (.float x)
  | .number (.error f) => .error (.fault f)
  | .text (.ok s) => .ok (.text s)
  | .text (.error f) => .error (.fault f)
  | .array .. => .ok .array
  | .object .. => .ok .object
  | .broken read _ => .error (.fault read)

/-- The error of a draft of the wrong kind. -/
def refuse {α : Type} (wanted : String) (d : Draft) : Except Error α :=
  match d.found with
  | .ok found => .error (.wrongKind found wanted)
  | .error e => .error e

end Draft

namespace Decoder

variable {α ρ : Type}

/-- Fails with a fault, if there is one. -/
def check (f? : Option Fault) : Except Error Unit :=
  match f? with
  | none => .ok ()
  | some f => .error (.fault f)

/-- A text, called `wanted` where there is something else. -/
def textAs (wanted : String) : Decoder String
  | .text (.ok s) => .ok s
  | d => d.refuse wanted

/-- A text. -/
def text : Decoder String := textAs "a string"

/-- A number. -/
def float : Decoder Float
  | .number (.ok n) => .ok n.toFloat
  | d => d.refuse "f64"

/-- A value, or null for none. -/
def nullable (item : Decoder α) : Decoder (Option α)
  | .null => .ok none
  | d => (item d).map some

/-- The values of some items. -/
def items (item : Decoder α) : List Draft → Except Error (List α)
  | [] => .ok []
  | d :: rest => do
    let a ← item d
    let as ← items item rest
    return a :: as

/-- The values of an array. -/
def list (item : Decoder α) : Decoder (List α)
  | .array ds stop => do
    let as ← items item ds
    check stop.readFault?
    return as
  | d => d.refuse "a sequence"

/-- The texts of some members, laid over a map. -/
def members (m : KeyMap String) :
    List (Except Fault String × Draft) → Except Error (KeyMap String)
  | [] => .ok m
  | (.error f, _) :: _ => .error (.fault f)
  | (.ok key, d) :: rest => do
    let value ← text d
    members (m.insert key value) rest

/-- A map of texts; of two members with one key the later counts. -/
def map : Decoder (KeyMap String)
  | .object ms stop => do
    let m ← members .empty ms
    check stop.readFault?
    return m
  | d => d.refuse "a map"

end Decoder

/-! ## Whole texts -/

/-- The value of a whole text. -/
def decodeText {α : Type} (decoder : Decoder α) (s : String) : Except Error α := do
  let (d, more) := Draft.ofChars s.toList
  let a ← decoder d
  if more then throw (.fault .textAfterEnd)
  return a

end Waybill.Json
