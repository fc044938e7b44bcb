import Waybill.Url.Percent

/-!
# Addresses of flows, engines and jobs

A URL in its parts. Every part is held in the form in which it is written,
so `write` only puts the parts together, and two URLs are equal when they are
written alike. A URL may have no host at all, or an empty one; a path is
either a list of segments below the root or a text without a root.
-/

namespace Waybill

/-- What follows the authority of a URL. -/
inductive Url.Path where
  /-- A text that does not start at a root, such as `isbn:1` in `urn:isbn:1`. -/
  | rootless (text : String)
  /-- Segments below the root; none for the empty path. -/
  | rooted (segments : List String)
  deriving DecidableEq, Hashable, Inhabited, Repr

/-- A URL, each part as it is written. -/
structure Url where
  scheme : String
  username : String
  password : String
  /-- The host; `none` when the URL has no authority. -/
  host : Option String
  port : Option Nat
  path : Url.Path
  query : Option String
  fragment : Option String
  deriving DecidableEq, Hashable, Inhabited, Repr

namespace Url

/-- Why a text is no URL. -/
inductive Error where
  | noScheme
  | emptyHost
  | invalidPort
  | invalidVersion4
  | invalidVersion6
  | invalidHostCharacter
  | invalidDomainName
  deriving DecidableEq, Repr

/-- The words for a cause. -/
def Error.message : Error → String
  | noScheme => "relative URL without a base"
  | emptyHost => "empty host"
  | invalidPort => "invalid port number"
  | invalidVersion4 => "invalid IPv4 address"
  | invalidVersion6 => "invalid IPv6 address"
  | invalidHostCharacter => "invalid domain character"
  | invalidDomainName => "invalid international domain name"

/-! ## Schemes -/

/-- A scheme whose URLs always have a host, or are files. -/
def isSpecial (scheme : String) : Bool :=
  ["http", "https", "ws", "wss", "ftp", "file"].contains scheme

/-- The port that a scheme implies and that is not written. -/
def defaultPort? : String → Option Nat
  | "http" => some 80
  | "ws" => some 80
  | "https" => some 443
  | "wss" => some 443
  | "ftp" => some 21
  | _ => none

/-! ## Writing -/

/-- The path as it is written. -/
def Path.write : Path → String
  | .rootless text => text
  | .rooted segments => String.join (segments.map ("/" ++ ·))

/-- The part before the host: user name and password, if there is one. -/
def credentials (u : Url) : String :=
  if u.username = "" ∧ u.password = "" then ""
  else u.username ++ (if u.password = "" then "" else ":" ++ u.password) ++ "@"

/-- Credentials, host and port as they are written, empty without a host. -/
def authority (u : Url) : String :=
  match u.host with
  | none => ""
  | some host =>
    u.credentials ++ host ++ (match u.port with
      | none => ""
      | some port => ":" ++ toString port)

/-- What stands between the scheme and the path. A path of a URL without a
host that starts with two slashes is set off, lest it be read as a host. -/
def beforePath (u : Url) : String :=
  match u.host, u.path with
  | some _, _ => "//" ++ u.authority
  | none, .rooted ("" :: _ :: _) => "/."
  | none, _ => ""

/-- The text of a URL. -/
def write (u : Url) : String :=
  u.scheme ++ ":" ++ u.beforePath ++ u.path.write ++
    (match u.query with
      | none => ""
      | some query => "?" ++ query) ++
    (match u.fragment with
      | none => ""
      | some fragment => "#" ++ fragment)

instance : ToString Url := ⟨write⟩

end Url

end Waybill
