import Waybill.Text.CommaList
import Waybill.Url.Host
import Waybill.Url.Path

/-!
# Reading a URL

A text is cleaned of blanks at its ends, then taken apart from the outside in:
scheme, fragment, query, authority, path. Tabs and line breaks are passed over;
only the path of a file is read with them. There is no base to resolve against,
so a text without a scheme is refused.
-/

namespace Waybill.Url

open Percent Text

/-! ## Parts of the text -/

/-- Without control characters and spaces at the ends. -/
def trimEnds (cs : List Char) : List Char :=
  let atEnd (c : Char) : Bool := c.toNat ≤ 0x20
  dropEndWhile atEnd (cs.dropWhile atEnd)

/-- A character of a scheme. -/
def isSchemeChar (c : Char) : Bool :=
  c.isAlphanum || c == '+' || c == '-' || c == '.'

/-- The scheme in lower case, and what follows its colon. -/
def readScheme? (cs : List Char) : Option (String × List Char) := do
  let (before, after) ← cutAtFirst? ':' cs
  let name := withoutIgnored before
  guard (name.head?.any Char.isAlpha && name.all isSchemeChar)
  return (String.ofList (name.map Char.toLower), after)

/-- The text before a mark, and the text after it if the mark occurs. -/
def cutOff (mark : Char) (cs : List Char) : List Char × Option (List Char) :=
  match cutAtFirst? mark cs with
  | none => (cs, none)
  | some (before, after) => (before, some after)

/-- A slash, or a backslash where the scheme is special. -/
def isSlash (special : Bool) (c : Char) : Bool :=
  c == '/' || (special && c == '\\')

/-- What follows the slash that a text starts with. -/
def afterSlash? (special : Bool) (cs : List Char) : Option (List Char) :=
  match cs.dropWhile isIgnored with
  | [] => none
  | c :: rest => if isSlash special c then some rest else none

/-- The text without one slash at its start. -/
def dropSlash (special : Bool) (cs : List Char) : List Char :=
  (afterSlash? special cs).getD cs

/-! ## Authorities -/

/-- What an authority says, and what of its text belongs to the path. -/
structure Authority where
  username : String
  password : String
  host : String
  port : Option Nat
  rest : List Char

/-- User name and password, encoded; the first colon separates them. -/
def readCredentials (cs : List Char) : String × String :=
  let (username, password) := cutOff ':' cs
  let encoded (cs : List Char) : String := String.ofList (encode inCredentials cs)
  (encoded username, encoded (password.getD []))

/-- The host of an authority and what follows it: a colon within brackets does
not end it. -/
def hostSpan (bracketed : Bool) : List Char → List Char × List Char
  | [] => ([], [])
  | c :: r =>
    if c = ':' ∧ !bracketed then ([], c :: r)
    else
      let (host, rest) := hostSpan (c == '[' || (bracketed && c != ']')) r
      (c :: host, rest)

/-- The port behind a colon, and what follows a backslash there. A port that
the scheme implies is left out, as is an empty one. -/
def readPort (scheme : String) (cs : List Char) : Except Error (Option Nat × List Char) :=
  let (digits, rest) := cs.span (· != '\\')
  if digits.all Char.isDigit then
    let port := digits.foldl (fun n c => 10 * n + (c.toNat - 48)) 0
    if 65535 < port then .error .invalidPort
    else if digits = [] ∨ defaultPort? scheme = some port then .ok (none, rest)
    else .ok (some port, rest)
  else .error .invalidPort

/-- The authority that `cs` writes. A special scheme needs a host, and so do
credentials and a port. `ended` says that nothing follows the authority. -/
def readAuthority (scheme : String) (ended : Bool) (cs : List Char) :
    Except Error Authority := do
  let special := isSpecial scheme
  let (given, hostAndPort) : Option (List Char) × List Char := match cutAtLast? '@' cs with
    | none => (none, cs)
    | some (before, after) => (some before, after)
  if given = some [] ∧ hostAndPort = [] ∧ !ended then throw .emptyHost
  let (username, password) := readCredentials (given.getD [])
  let (hostText, portText) := hostSpan false hostAndPort
  if special ∧ hostText = [] then throw .emptyHost
  let host ← readHost special hostText
  if host = "" ∧ portText ≠ [] then throw .emptyHost
  let (port, rest) ← match portText with
    | [] => pure (none, [])
    | _ :: digits => readPort scheme digits
  if host = "" ∧ (username ≠ "" ∨ password ≠ "") then throw .emptyHost
  return { username, password, host, port, rest }

/-! ## The three shapes of URL -/

/-- A URL with an authority. -/
def readHierarchical (scheme : String) (ended : Bool) (cs : List Char) : Except Error Url := do
  let special := isSpecial scheme
  let (text, after) := cs.span fun c => !isSlash special c
  let authority ← readAuthority scheme (ended && after.isEmpty) text
  let pathText := authority.rest ++ after
  let path := if pathText = [] ∧ !special then Path.rooted []
    else (Course.read special false (dropSlash special pathText)).path false
  return { authority with scheme, host := some authority.host, path, query := none, fragment := none }

/-- The host of a file, and what stands behind the root. A drive letter in the
place of a host belongs to the path, and the local host is not written. Without
a host to write, the slash that follows is behind the root already. -/
def readFileHost (cs : List Char) : Except Error (String × List Char) := do
  match afterSlash? true cs with
  | none => return ("", cs)
  | some single =>
    match afterSlash? true single with
    | none => return ("", single)
    | some double =>
      let (before, after) := double.span fun c => !isSlash true c
      let name := withoutIgnored before
      if isDriveLetter name then return ("", double)
      else if name = [] then return ("", after)
      else
        let host ← readHost true name
        return if host = "localhost" then ("", after) else (host, dropSlash true after)

/-- The URL of a file. A path that starts with a drive letter has no host. -/
def readFile (cs : List Char) : Except Error Url := do
  let (host, pathText) ← readFileHost cs
  let course := Course.read true true pathText
  let host := if course.onDrive then "" else host
  return {
    scheme := "file", username := "", password := "", host := some host, port := none
    path := course.path true, query := none, fragment := none }

/-- A URL without an authority. -/
def readPlain (scheme : String) (cs : List Char) : Url :=
  let path := match cs with
    | '/' :: r => (Course.read false false r).path false
    | _ => .rootless (String.ofList (encode inControls cs))
  { scheme, username := "", password := "", host := none, port := none, path
    query := none, fragment := none }

/-- All but query and fragment. -/
def readBody (scheme : String) (ended : Bool) (cs : List Char) : Except Error Url :=
  if scheme = "file" then readFile cs
  else
    let cs := withoutIgnored cs
    if isSpecial scheme then readHierarchical scheme ended (cs.dropWhile (isSlash true))
    else match cs with
      | '/' :: '/' :: r => readHierarchical scheme ended r
      | _ => .ok (readPlain scheme cs)

/-- The URL that a text writes. -/
def parse (s : String) : Except Error Url := do
  match readScheme? (trimEnds s.toList) with
  | none => throw .noScheme
  | some (scheme, rest) =>
    let (rest, fragment) := cutOff '#' rest
    let (body, query) := cutOff '?' rest
    let u ← readBody scheme (query.isNone && fragment.isNone) body
    let querySet := if isSpecial scheme then inSpecialQuery else inQuery
    let encoded (set : Char → Bool) (cs : List Char) : String :=
      String.ofList (encode set (withoutIgnored cs))
    return { u with query := query.map (encoded querySet), fragment := fragment.map (encoded inFragment) }

end Waybill.Url
