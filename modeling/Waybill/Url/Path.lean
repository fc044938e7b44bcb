import Waybill.Url.Basic

/-!
# Paths

A rooted path is read segment by segment. A segment of one dot stays where it
is, a segment of two dots climbs to the parent, and any other is added,
encoded. A drive letter is never climbed out of, and at the start of a file
path it is written with a colon.

Tabs and line breaks are passed over, with one exception: behind the drive
letter that a file path starts with, they end its segment.
-/

namespace Waybill.Url

open Percent

/-! ## Segments -/

/-- A character that is passed over wherever it stands. -/
def isIgnored (c : Char) : Bool :=
  c == '\t' || c == '\n' || c == '\r'

/-- A text without the characters that are passed over. -/
def withoutIgnored (cs : List Char) : List Char :=
  cs.filter fun c => !isIgnored c

/-- One dot, written plainly or encoded. -/
def isSingleDot (segment : List Char) : Bool :=
  [".", "%2e"].contains (String.ofList (segment.map Char.toLower))

/-- Two dots, each written plainly or encoded. -/
def isDoubleDot (segment : List Char) : Bool :=
  ["..", ".%2e", "%2e.", "%2e%2e"].contains (String.ofList (segment.map Char.toLower))

/-- A letter with a colon or a bar. -/
def isDriveLetter : List Char → Bool
  | [letter, mark] => letter.isAlpha && (mark == ':' || mark == '|')
  | _ => false

/-- A drive letter, alone or before a backslash. -/
def startsWithDrive (segment : List Char) : Bool :=
  isDriveLetter (segment.take 2) && (segment.length == 2 || segment[2]? == some '\\')

/-- A drive letter with a colon, and what follows it in the same segment behind
a character that is passed over. -/
def cutDrive? (segment : List Char) : Option (List Char × List Char) :=
  match segment.dropWhile isIgnored with
  | [] => none
  | letter :: rest =>
    match rest.dropWhile isIgnored with
    | ':' :: rest =>
      let behind := withoutIgnored rest
      if letter.isAlpha && rest.head?.any isIgnored && !behind.isEmpty then
        some ([letter, ':'], behind)
      else none
    | _ => none

/-! ## Paths as far as they are read -/

/-- The segments of a rooted path, encoded. -/
structure Course where
  segments : List (List Char)
  /-- Whether the first segment was written as a drive letter and nothing else. -/
  onDrive : Bool

namespace Course

/-- The path without segments. -/
def root : Course := ⟨[], false⟩

/-- The parent; a drive letter is kept. -/
def climb (c : Course) : Course :=
  match c.segments.getLast? with
  | none => c
  | some segment =>
    if startsWithDrive segment then c else { c with segments := c.segments.dropLast }

/-- The path of a file with its first segment. What is cut off behind a drive
letter is a segment too, and dots mean nothing in it. -/
def ofFirst (segment : List Char) : Course :=
  match cutDrive? segment with
  | some (drive, behind) => ⟨[drive, encode inPath behind], false⟩
  | none =>
    let name := withoutIgnored segment
    if isDriveLetter name then ⟨[name.take 1 ++ [':']], true⟩
    else ⟨[encode inPath name], false⟩

/-- The path with one more segment before a slash. -/
def add (file : Bool) (c : Course) (segment : List Char) : Course :=
  let name := withoutIgnored segment
  if isDoubleDot name then c.climb
  else if isSingleDot name then c
  else if file && c.segments.isEmpty then ofFirst segment
  else { c with segments := c.segments ++ [encode inPath name] }

/-- The path with its last segment; dots leave an empty one there. -/
def addLast (file : Bool) (c : Course) (segment : List Char) : Course :=
  let name := withoutIgnored segment
  let c := c.add file segment
  if isDoubleDot name || isSingleDot name then { c with segments := c.segments ++ [[]] } else c

/-- The path with all of some segments. -/
def addAll (file : Bool) : Course → List (List Char) → Course
  | c, [] => c
  | c, [last] => c.addLast file last
  | c, segment :: rest => addAll file (c.add file segment) rest

/-- The path that a text behind the root writes. A backslash separates like a
slash where the scheme is special. -/
def read (special file : Bool) (cs : List Char) : Course :=
  root.addAll file (cs.splitOnP fun c => c == '/' || (special && c == '\\'))

end Course

/-- Without the empty segments at the start, but with one segment at least. -/
def dropLeadingEmpty : List (List Char) → List (List Char)
  | [] :: segment :: rest => dropLeadingEmpty (segment :: rest)
  | path => path

/-- The path that was read. A file path never starts with an empty segment. -/
def Course.path (file : Bool) (c : Course) : Path :=
  .rooted ((if file then dropLeadingEmpty c.segments else c.segments).map String.ofList)

/-- The URL with a new rooted path, without query and fragment. A URL without
a host is given an empty one. `text` is what stands behind the root; its
question marks and number signs belong to the path. -/
def withPath (u : Url) (text : String) : Url :=
  let file := u.scheme == "file"
  { u with
    host := some (u.host.getD "")
    path := (Course.read (isSpecial u.scheme) file text.toList).path file
    query := none
    fragment := none }

end Waybill.Url
