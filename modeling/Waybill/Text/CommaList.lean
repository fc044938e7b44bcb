/-!
# Blanks, cuts and comma lists

The characters that count as blank are those with the Unicode property
White_Space; `trim` removes them from both ends of a text and nothing else. A
comma list is a list of names written as one text: entries separated by commas.
Reading trims every entry and drops the blank ones, so a written list may be
padded with blanks and stray commas at will. `join` writes such a text.
-/

namespace Waybill.Text

/-! ## Blanks -/

/-- A character with the property White_Space. -/
def isBlank (c : Char) : Bool :=
  let n := c.toNat
  (9 ≤ n && n ≤ 13) || n == 0x20 || n == 0x85 || n == 0xA0 || n == 0x1680 ||
    (0x2000 ≤ n && n ≤ 0x200A) || n == 0x2028 || n == 0x2029 || n == 0x202F ||
    n == 0x205F || n == 0x3000

/-- Without the characters at the end that satisfy `p`. -/
def dropEndWhile (p : Char → Bool) (cs : List Char) : List Char :=
  (cs.reverse.dropWhile p).reverse

/-- Without the blanks at both ends. -/
def trimmed (cs : List Char) : List Char :=
  dropEndWhile isBlank (cs.dropWhile isBlank)

/-- A text without the blanks at both ends. -/
def trim (s : String) : String :=
  String.ofList (trimmed s.toList)

/-- A text that holds nothing but blanks. -/
def isAllBlank (s : String) : Bool :=
  s.toList.all isBlank

@[simp] theorem toList_trim (s : String) : (trim s).toList = trimmed s.toList := by
  simp [trim]

@[simp] theorem trimmed_nil : trimmed [] = [] := rfl

/-! ## Cuts -/

/-- The text before the first separator and the text after it. -/
def cutAtFirst? (sep : Char) (cs : List Char) : Option (List Char × List Char) :=
  match cs.span (· != sep) with
  | (_, []) => none
  | (before, _ :: after) => some (before, after)

/-- The text before the last separator and the text after it. -/
def cutAtLast? (sep : Char) (cs : List Char) : Option (List Char × List Char) :=
  (cutAtFirst? sep cs.reverse).map fun (after, before) => (before.reverse, after.reverse)

end Waybill.Text

namespace Waybill.CommaList

open Text

/-! ## Comma lists -/

/-- The entries of a comma list, trimmed, without the blank ones. -/
def entries (cs : List Char) : List (List Char) :=
  ((cs.splitOn ',').map trimmed).filter (· ≠ [])

/-- The names in a comma list. -/
def items (s : String) : List String :=
  (entries s.toList).map String.ofList

/-- The comma list of some names. -/
def join (names : List String) : String :=
  String.intercalate "," names

@[simp] theorem items_empty : items "" = [] := rfl

end Waybill.CommaList
