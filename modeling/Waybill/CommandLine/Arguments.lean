/-!
# Command lines

A command line is a list of words: switches, some of which take a value, and
other words in their order. A switch has a long name after two dashes and
perhaps a letter after one; letters may stand together, and a value may follow
in the same word or be the next one. After two dashes alone there are no more
switches. No switch stands twice.
-/

namespace Waybill.CommandLine

/-- A switch that a command knows. -/
structure Switch where
  name : String
  letter : Option Char
  takesValue : Bool
  deriving DecidableEq, Repr

/-- Why a command line cannot be followed. -/
inductive UsageError where
  | unknownSwitch (word : String)
  | repeatedSwitch (name : String)
  | missingValue (name : String)
  | surplusValue (name : String)
  | badValue (name value : String)
  | missingWord (name : String)
  | surplusWord (word : String)
  deriving DecidableEq, Repr

/-- The words for an error. -/
def UsageError.message : UsageError → String
  | unknownSwitch word => s!"unexpected argument '{word}'"
  | repeatedSwitch name => s!"'--{name}' is given more than once"
  | missingValue name => s!"'--{name}' needs a value"
  | surplusValue name => s!"'--{name}' takes no value"
  | badValue name value => s!"invalid value '{value}' for '--{name}'"
  | missingWord name => s!"{name} is missing"
  | surplusWord word => s!"unexpected argument '{word}'"

/-- The words of a command line by what they are. -/
structure Words where
  /-- The words that belong to no switch, in order. -/
  plain : List String
  /-- The switches with their values; a switch that takes none has an empty one. -/
  given : List (String × String)
  deriving DecidableEq, Repr

namespace Words

/-- No words. -/
def empty : Words := ⟨[], []⟩

/-- The value of a switch, if it is given. -/
def value? (w : Words) (name : String) : Option String :=
  w.given.lookup name

/-- Whether a switch is given. -/
def has (w : Words) (name : String) : Bool := (w.value? name).isSome

/-- The words with a switch, which must be new. -/
def give (w : Words) (name value : String) : Except UsageError Words :=
  if w.has name then .error (.repeatedSwitch name)
  else .ok { w with given := w.given ++ [(name, value)] }

/-- The words with one more plain word. -/
def addPlain (w : Words) (word : String) : Words :=
  { w with plain := w.plain ++ [word] }

end Words

/-! ## Single words -/

/-- A word that starts like a switch. -/
def looksLikeSwitch (word : String) : Bool :=
  match word.toList with
  | '-' :: _ :: _ => true
  | _ => false

/-- What a switch without a value in its word still needs. -/
abbrev Pending := Option String

/-- The words with a long switch, `body` being what follows the dashes. -/
def readLong (known : List Switch) (w : Words) (body : String) :
    Except UsageError (Words × Pending) :=
  let (name, rest) := body.toList.span (· != '=')
  let name := String.ofList name
  match known.find? (·.name == name), rest with
  | none, _ => .error (.unknownSwitch ("--" ++ body))
  | some s, [] =>
    if s.takesValue then .ok (w, some name) else (w.give name "").map (·, none)
  | some s, _ :: value =>
    if s.takesValue then (w.give name (String.ofList value)).map (·, none)
    else .error (.surplusValue name)

/-- The words with the switches of some letters. What follows the letter of a
switch that takes a value is the value. -/
def readLetters (known : List Switch) (w : Words) : List Char →
    Except UsageError (Words × Pending)
  | [] => .ok (w, none)
  | c :: rest =>
    match known.find? (·.letter == some c) with
    | none => .error (.unknownSwitch (String.ofList ['-', c]))
    | some s =>
      if s.takesValue then
        match rest with
        | [] => .ok (w, some s.name)
        | '=' :: value => (w.give s.name (String.ofList value)).map (·, none)
        | value => (w.give s.name (String.ofList value)).map (·, none)
      else do
        let w ← w.give s.name ""
        readLetters known w rest

/-! ## All words -/

/-- The words of a command line, behind the words `w` and perhaps a switch that
needs a value. -/
def readWords (known : List Switch) (w : Words) : Pending → List String →
    Except UsageError Words
  | some name, [] => .error (.missingValue name)
  | none, [] => .ok w
  | some name, word :: rest =>
    if looksLikeSwitch word then .error (.missingValue name)
    else do
      let w ← w.give name word
      readWords known w none rest
  | none, word :: rest =>
    match word.toList with
    | ['-', '-'] => .ok { w with plain := w.plain ++ rest }
    | '-' :: '-' :: body => do
      let (w, pending) ← readLong known w (String.ofList body)
      readWords known w pending rest
    | '-' :: c :: letters => do
      let (w, pending) ← readLetters known w (c :: letters)
      readWords known w pending rest
    | _ => readWords known (w.addPlain word) none rest

/-- The words of a command line. -/
def read (known : List Switch) (args : List String) : Except UsageError Words :=
  readWords known .empty none args

/-! ## What a command leaves behind -/

/-- What a command prints and how it ends. -/
structure Outcome where
  code : Nat
  stdout : String
  stderr : String
  deriving DecidableEq, Repr

/-- A command line that cannot be followed. -/
def Outcome.misused (usage : String) (e : UsageError) : Outcome :=
  ⟨2, "", s!"error: {e.message}\n\nUsage: {usage}\n"⟩

end Waybill.CommandLine
