import Waybill.Json.Decode
import Waybill.Json.Value

/-!
# Forms of values in JSON

A codec says how values of one kind are written and how they are read again.
Codecs of lists and of optional values are made from those of the items.

Records are described by their fields, once for reading and writing. A record
is written as an object with the fields in their order. It is read from an
object, in any order and with members of other names passed over, or from an
array with the fields in their order.
-/

namespace Waybill.Json

/-! ## Codecs -/

/-- How values of one kind are written and read. -/
structure Codec (α : Type) where
  encode : α → Value
  decode : Decoder α

namespace Codec

variable {α : Type}

/-- A text as it is. -/
def text : Codec String := ⟨.text, Decoder.text⟩

/-- A number. -/
def float : Codec Float := ⟨.number, Decoder.float⟩

/-- Settings as an object of texts. -/
def map : Codec (KeyMap String) := ⟨.ofMap, Decoder.map⟩

/-- A list as an array. -/
def list (item : Codec α) : Codec (List α) where
  encode l := .array (l.map item.encode)
  decode := Decoder.list item.decode

/-- A value, or null for none. -/
def nullable (item : Codec α) : Codec (Option α) where
  encode a? := (a?.map item.encode).getD .null
  decode := Decoder.nullable item.decode

/-- A value by its text; where there is something else the text is called
`wanted`. -/
def byText (wanted : String) (write : α → String) (parse : String → Except Error α) :
    Codec α where
  encode a := .text (write a)
  decode d := do parse (← Decoder.textAs wanted d)

/-- The text of a value in one line. -/
def write (c : Codec α) (a : α) : String := (c.encode a).compact

/-- The text of a value over several lines. -/
def writePretty (c : Codec α) (a : α) : String := (c.encode a).pretty

/-- The value of a whole text. -/
def read (c : Codec α) (s : String) : Except Error α := decodeText c.decode s

end Codec

/-! ## Records -/

/-- When a field may be missing. -/
inductive Presence where
  | required
  /-- It may be missing from an object, but not from an array. -/
  | inArrays
  | optional
  deriving DecidableEq, Repr

/-- A field of the records `ρ`: its name, when it may be missing, how its value is
put in place, and how it is written, if it is. -/
structure Field (ρ : Type) where
  name : String
  presence : Presence
  assign : Draft → ρ → Except Error ρ
  written : ρ → Option Value

namespace Field

variable {α ρ : Type}

/-- The field of some name whose values have a form of their own. -/
def of (name : String) (presence : Presence) (c : Codec α) (get : ρ → α)
    (put : α → ρ → ρ) : Field ρ where
  name
  presence
  assign d r := (c.decode d).map (put · r)
  written r := some (c.encode (get r))

/-- The field, not written where its value says nothing. -/
def omittedIf (f : Field ρ) (isSilent : ρ → Bool) : Field ρ :=
  { f with written := fun r => if isSilent r then none else f.written r }

end Field

/-- The records `ρ` as they stand in JSON. -/
structure Schema (ρ : Type) where
  name : String
  /-- The record in which no field is set. -/
  blank : ρ
  fields : List (Field ρ)

namespace Schema

variable {ρ : Type}

/-- How a record is called. -/
def wanted (s : Schema ρ) : String := s!"struct {s.name}"

/-- How a record with its fields in an array is called. -/
def wantedItems (s : Schema ρ) : String :=
  let n := s.fields.length
  s!"struct {s.name} with {n} element" ++ (if n = 1 then "" else "s")

/-- The record after some members; `seen` are the fields set before. -/
def ofMembers (s : Schema ρ) (seen : List String) (r : ρ) :
    List (Except Fault String × Draft) → Except Error (List String × ρ)
  | [] => .ok (seen, r)
  | (.error f, _) :: _ => .error (.fault f)
  | (.ok key, d) :: rest =>
    match s.fields.find? (·.name == key) with
    | none => do
      Decoder.check d.skipFault?
      ofMembers s seen r rest
    | some field => do
      if seen.contains key then throw (.duplicateField key)
      let r ← field.assign d r
      ofMembers s (key :: seen) r rest

/-- The record after some items, for the fields from the `i`th on. -/
def ofItems (s : Schema ρ) (stop : ArrayEnd) (r : ρ) (i : Nat) :
    List (Field ρ) → List Draft → Except Error ρ
  | [], [] => do
    Decoder.check stop.surplusFault?
    return r
  | [], _ :: _ => .error (.fault .textAfterEnd)
  | field :: fields, d :: ds => do
    let r ← field.assign d r
    ofItems s stop r (i + 1) fields ds
  | field :: fields, [] => do
    Decoder.check stop.readFault?
    if field.presence = .optional then ofItems s stop r (i + 1) fields []
    else throw (.tooFewItems i s.wantedItems)

/-- The first field that may not be missing and is. -/
def firstMissing? (s : Schema ρ) (seen : List String) : Option String :=
  (s.fields.find? fun field => field.presence = .required && !seen.contains field.name).map (·.name)

/-- The record of a draft. -/
def decode (s : Schema ρ) : Decoder ρ
  | .object ms stop => do
    let (seen, r) ← s.ofMembers [] s.blank ms
    Decoder.check stop.readFault?
    match s.firstMissing? seen with
    | none => return r
    | some name => throw (.missingField name)
  | .array ds stop => s.ofItems stop s.blank 0 s.fields ds
  | d => d.refuse s.wanted

/-- The members that a record is written with, in the order of the fields. -/
def members (s : Schema ρ) (r : ρ) : List (String × Value) :=
  s.fields.filterMap fun field => (field.written r).map (field.name, ·)

/-- The form of the records: an object, or on reading also an array. -/
def codec (s : Schema ρ) : Codec ρ where
  encode r := .object (s.members r)
  decode := s.decode

end Schema

end Waybill.Json
