import Waybill.Json.Token

/-!
# JSON as far as it is readable

A draft is what a JSON text says up to the first fault in it, with the fault
in the place where it is met. Whoever looks at the parts of a draft in the
order of the text meets the faults in that order too, among the parts that
are of the wrong kind. A part that nobody asks for is only passed over, and
then some faults do not matter and others are worded differently.
-/

namespace Waybill.Json

/-! ## Ends of arrays and objects -/

/-- How the items of an array end. -/
inductive ArrayEnd where
  | closed
  /-- The text ends where a comma or the end should follow. -/
  | cut
  /-- The text ends after a comma. -/
  | cutAfterComma
  /-- The array ends after a comma. -/
  | closedAfterComma
  /-- Neither a comma nor the end follows an item. -/
  | noComma
  deriving DecidableEq, Repr

/-- The fault met at the end of an array that is read. -/
def ArrayEnd.readFault? : ArrayEnd → Option Fault
  | closed => none
  | cut => some .endInArray
  | cutAfterComma => some .endInValue
  | closedAfterComma => some .commaBeforeEnd
  | noComma => some .noCommaInArray

/-- The fault met at the end of an array that is passed over. -/
def ArrayEnd.skipFault? : ArrayEnd → Option Fault
  | closed => none
  | cut => some .endInArray
  | cutAfterComma => some .endInValue
  | closedAfterComma => some .noValue
  | noComma => some .noCommaInArray

/-- The fault met at the end of an array of which no more items are wanted. -/
def ArrayEnd.surplusFault? : ArrayEnd → Option Fault
  | closed => none
  | cut => some .endInArray
  | cutAfterComma => some .textAfterEnd
  | closedAfterComma => some .commaBeforeEnd
  | noComma => some .textAfterEnd

/-- How the members of an object end. -/
inductive ObjectEnd where
  | closed
  /-- The text ends where a member, a comma or the end should follow. -/
  | cut
  /-- The text ends after a comma. -/
  | cutAfterComma
  /-- The object ends after a comma. -/
  | closedAfterComma
  /-- Neither a comma nor the end follows a member. -/
  | noComma
  /-- A member does not start with a text. -/
  | keyNotText
  deriving DecidableEq, Repr

/-- The fault met at the end of an object that is read. -/
def ObjectEnd.readFault? : ObjectEnd → Option Fault
  | closed => none
  | cut => some .endInObject
  | cutAfterComma => some .endInValue
  | closedAfterComma => some .commaBeforeEnd
  | noComma => some .noCommaInObject
  | keyNotText => some .keyNotText

/-- The fault met at the end of an object that is passed over. -/
def ObjectEnd.skipFault? : ObjectEnd → Option Fault
  | closed => none
  | cut => some .endInObject
  | cutAfterComma => some .endInObject
  | closedAfterComma => some .keyNotText
  | noComma => some .noCommaInObject
  | keyNotText => some .keyNotText

/-! ## Drafts -/

/-- A value as far as it is readable. -/
inductive Draft where
  | null
  | bool (b : Bool)
  | number (n : Except Fault Number)
  | text (s : Except Fault String)
  | array (items : List Draft) (stop : ArrayEnd)
  | object (members : List (Except Fault String × Draft)) (stop : ObjectEnd)
  /-- No value: the fault met when it is read, and when it is passed over. -/
  | broken (read skipped : Fault)

namespace Draft

mutual

/-- The fault met when a value is passed over. -/
def skipFault? : Draft → Option Fault
  | .array items stop => (skipItems? items).or stop.skipFault?
  | .object members stop => (skipMembers? members).or stop.skipFault?
  | .broken _ skipped => some skipped
  | _ => none

/-- The first fault met when items are passed over. -/
def skipItems? : List Draft → Option Fault
  | [] => none
  | d :: rest => (skipFault? d).or (skipItems? rest)

/-- The first fault met when members are passed over. -/
def skipMembers? : List (Except Fault String × Draft) → Option Fault
  | [] => none
  | (_, d) :: rest => (skipFault? d).or (skipMembers? rest)

end

/-! ## Reading -/

/-- A blank between the parts of a text. -/
def isBlank (c : Char) : Bool :=
  c == ' ' || c == '\t' || c == '\n' || c == '\r'

/-- The text without the blanks it starts with. -/
def skipBlanks (cs : List Char) : List Char := cs.dropWhile isBlank

/-- What follows a word that must stand here. -/
def expectWord : List Char → List Char → Except Fault (List Char)
  | [], r => .ok r
  | _ :: _, [] => .error .endInValue
  | w :: ws, c :: r => if c = w then expectWord ws r else .error .unknownWord

/-- A word with a value, and what follows it. -/
def ofWord (value : Draft) (word cs : List Char) : Draft × Option (List Char) :=
  match expectWord word cs with
  | .ok r => (value, some r)
  | .error fault => (.broken fault fault, none)

/-- The text behind a quote, and what follows it. -/
def ofText (cs : List Char) : Draft × Option (List Char) :=
  match readText cs, skipText cs with
  | s, .ok r => (.text (s.map (·.1)), some r)
  | .error read, .error skipped => (.broken read skipped, none)
  | .ok _, .error skipped => (.broken skipped skipped, none)

/-- The number that a text starts with, and what follows it. -/
def ofNumber (cs : List Char) : Draft × Option (List Char) :=
  match readNumber cs with
  | .ok (n, r) => (.number n, some r)
  | .error fault => (.broken fault.read fault.skipped, none)

mutual

/-- The value that a text starts with, and what follows it if it has an end.
`fuel` bounds the steps. -/
def ofValue : Nat → List Char → Draft × Option (List Char)
  | 0, _ => (.broken .endInValue .endInValue, none)
  | fuel + 1, cs =>
    match skipBlanks cs with
    | [] => (.broken .endInValue .endInValue, none)
    | c :: r =>
      if c = '\x22' then ofText r
      else if c = '[' then
        match skipBlanks r with
        | [] => (.array [] .cut, none)
        | ']' :: r => (.array [] .closed, some r)
        | r =>
          let (items, stop, rest) := ofItems fuel r
          (.array items stop, rest)
      else if c = '\x7b' then
        match skipBlanks r with
        | [] => (.object [] .cut, none)
        | '\x7d' :: r => (.object [] .closed, some r)
        | r =>
          let (members, stop, rest) := ofMembers fuel r
          (.object members stop, rest)
      else if c = 'n' then ofWord .null ['u', 'l', 'l'] r
      else if c = 't' then ofWord (.bool true) ['r', 'u', 'e'] r
      else if c = 'f' then ofWord (.bool false) ['a', 'l', 's', 'e'] r
      else if c = '-' ∨ c.isDigit then ofNumber (c :: r)
      else (.broken .noValue .noValue, none)

/-- The items of an array from the first one on, how they end, and what follows
the array if it has an end. -/
def ofItems : Nat → List Char → List Draft × ArrayEnd × Option (List Char)
  | 0, _ => ([], .cut, none)
  | fuel + 1, cs =>
    match ofValue fuel cs with
    | (d, none) => ([d], .cut, none)
    | (d, some r) =>
      match skipBlanks r with
      | [] => ([d], .cut, none)
      | ']' :: r => ([d], .closed, some r)
      | ',' :: r =>
        match skipBlanks r with
        | [] => ([d], .cutAfterComma, none)
        | ']' :: _ => ([d], .closedAfterComma, none)
        | r =>
          let (ds, stop, rest) := ofItems fuel r
          (d :: ds, stop, rest)
      | _ => ([d], .noComma, none)

/-- The members of an object from the first one on, how they end, and what
follows the object if it has an end. -/
def ofMembers : Nat → List Char → List (Except Fault String × Draft) × ObjectEnd × Option (List Char)
  | 0, _ => ([], .cut, none)
  | fuel + 1, cs =>
    match cs with
    | '\x22' :: r =>
      let key := (readText r).map (·.1)
      match ofMemberValue fuel r with
      | (d, none) => ([(key, d)], .cut, none)
      | (d, some r) =>
        match skipBlanks r with
        | [] => ([(key, d)], .cut, none)
        | '\x7d' :: r => ([(key, d)], .closed, some r)
        | ',' :: r =>
          match skipBlanks r with
          | [] => ([(key, d)], .cutAfterComma, none)
          | '\x7d' :: _ => ([(key, d)], .closedAfterComma, none)
          | r =>
            let (members, stop, rest) := ofMembers fuel r
            ((key, d) :: members, stop, rest)
        | _ => ([(key, d)], .noComma, none)
    | _ => ([], .keyNotText, none)

/-- The value behind a key and its colon. `cs` starts within the quotes of the
key. -/
def ofMemberValue : Nat → List Char → Draft × Option (List Char)
  | 0, _ => (.broken .endInValue .endInValue, none)
  | fuel + 1, cs =>
    match skipText cs with
    | .error fault => (.broken fault fault, none)
    | .ok r =>
      match skipBlanks r with
      | [] => (.broken .endInObject .endInObject, none)
      | ':' :: r => ofValue fuel r
      | _ => (.broken .noColon .noColon, none)

end

/-- The draft of a text, and whether anything but blanks follows the value. -/
def ofChars (cs : List Char) : Draft × Bool :=
  let (d, rest) := ofValue (3 * cs.length + 3) cs
  (d, !(skipBlanks (rest.getD [])).isEmpty)

end Draft

end Waybill.Json
