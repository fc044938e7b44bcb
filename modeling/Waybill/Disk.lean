/-!
# Files

A disk holds files and folders, and a path leads to one of them: from the root
if it starts with a slash, else from the folder that is worked in, name by name,
through folders only. One dot stays, and two dots go back as far as the root.
A file is a text only if its bytes are one in the usual encoding; `FileFault`
says why a text cannot be had, in the words of the system.
-/

namespace Waybill

/-- Why there is no text in a place. -/
inductive FileFault where
  | missing
  | isFolder
  /-- A path goes on behind a file. -/
  | notFolder
  | nameTooLong
  /-- A path with a character that no name has. -/
  | notPath
  | notText
  /-- For a reason that the system gives. -/
  | other (reason : String)
  deriving DecidableEq, Repr

/-- The words for a fault. -/
def FileFault.message : FileFault → String
  | missing => "No such file or directory (os error 2)"
  | isFolder => "Is a directory (os error 21)"
  | notFolder => "Not a directory (os error 20)"
  | nameTooLong => "File name too long (os error 36)"
  | notPath => "file name contained an unexpected NUL byte"
  | notText => "stream did not contain valid UTF-8"
  | other reason => reason

/-- Texts by the path of their file. -/
abbrev Files := String → Except FileFault String

/-- What stands in a place. -/
inductive Entry where
  | file (bytes : ByteArray)
  | folder

/-- The text of an entry. -/
def Entry.text : Entry → Except FileFault String
  | .folder => .error .isFolder
  | .file bytes =>
    match String.fromUTF8? bytes with
    | some text => .ok text
    | none => .error .notText

/-- The names that lead from the root to a place, the last its own. -/
abbrev Place := List String

/-- Files and folders by their place, what was put last first. -/
structure Disk where
  entries : List (Place × Entry)

namespace Disk

/-! ## Places -/

/-- The folder that is worked in. -/
def home : Place := ["tmp", "waybill"]

/-- The place that a path starts from. -/
def start (path : String) : Place :=
  if path.startsWith "/" then [] else home

/-- The names in a path, with an empty one before a slash at the start and
behind a slash at the end. -/
def names (path : String) : List String :=
  (path.toList.splitOnP (· == '/')).map String.ofList

/-- Whether a name stays in the folder that it is read in. -/
def staysPut (name : String) : Bool := name == "" || name == "."

/-- The disk with an entry where a path leads to. -/
def put (d : Disk) (path : String) (e : Entry) : Disk :=
  ⟨(start path ++ (names path).filter fun name => !staysPut name, e) :: d.entries⟩

/-- What stands in a place. Where an entry is put, folders lead to it. -/
def entry? (d : Disk) (place : Place) : Option Entry :=
  match d.entries.find? fun e => e.1 == place with
  | some e => some e.2
  | none =>
    if place.isEmpty || d.entries.any fun e => place.isPrefixOf e.1 then some .folder else none

/-- The folders that a system has at its root. -/
def systemFolders : List String :=
  ["bin", "boot", "dev", "etc", "home", "lib", "media", "mnt", "opt", "proc", "run", "sbin",
    "srv", "sys", "tmp", "usr", "var"]

/-- A disk with the empty device of the system, and nothing yet in the folder
that is worked in. -/
def fresh : Disk :=
  ⟨(["dev", "null"], .file .empty) :: (home, .folder) ::
    systemFolders.map fun name => ([name], .folder)⟩

/-! ## Walking -/

/-- The length in bytes that a name may have. -/
def nameLimit : Nat := 255

/-- The length in bytes that a path may have. -/
def pathLimit : Nat := 4095

/-- One name further from a place. -/
def step (d : Disk) (place : Place) (name : String) : Except FileFault Place :=
  match d.entry? place with
  | none => .error .missing
  | some (.file _) => .error .notFolder
  | some .folder =>
    if staysPut name then .ok place
    else if name = ".." then .ok place.dropLast
    else if nameLimit < name.utf8ByteSize then .error .nameTooLong
    else if (d.entry? (place ++ [name])).isNone then .error .missing
    else .ok (place ++ [name])

/-- The place to which a path leads. -/
def find (d : Disk) (path : String) : Except FileFault Place :=
  if path.contains '\x00' then .error .notPath
  else if path = "" then .error .missing
  else if pathLimit < path.utf8ByteSize then .error .nameTooLong
  else (names path).foldlM d.step (start path)

/-- The text of the file that a path leads to. -/
def read (d : Disk) : Files := fun path => do
  let place ← d.find path
  match d.entry? place with
  | none => throw .missing
  | some e => e.text

end Disk

end Waybill
