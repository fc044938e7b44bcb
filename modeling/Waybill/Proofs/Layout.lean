import Waybill.Json.Draft
import Waybill.Json.Value

/-!
# Layouts of JSON texts

A value is written in one line or over several, and the two texts differ only in the blanks
between their parts. A layout says where blanks stand; the two ways of writing are the text of a
value in two layouts (`compactChars_eq`, `prettyChars_eq`), so what is shown of every layout holds
of both.
-/

namespace Waybill.Json

/-- Which blanks stand between the parts of a text. -/
structure Layout where
  /-- What stands before the items and members of a level, and before the end of what holds those
  of the next. -/
  gap : Nat → List Char
  /-- What stands between a colon and the value behind it. -/
  afterColon : List Char
  blank_gap : ∀ level, ∀ c ∈ gap level, Draft.isBlank c
  blank_afterColon : ∀ c ∈ afterColon, Draft.isBlank c

namespace Layout

/-- No blanks at all. -/
def oneLine : Layout where
  gap _ := []
  afterColon := []
  blank_gap _ := nofun
  blank_afterColon := nofun

/-- Every item and every member in a line of its own. -/
def indented : Layout where
  gap := Value.newLine
  afterColon := [' ']
  blank_gap level c hc := by
    rcases List.mem_cons.1 hc with rfl | hc
    · rfl
    · rw [List.eq_of_mem_replicate hc]
      rfl
  blank_afterColon c hc := by
    rw [List.mem_singleton.1 hc]
    rfl

end Layout

namespace Value

mutual

/-- The text of a value at some level in a layout. -/
def chars (l : Layout) (level : Nat) : Value → List Char
  | .null => ['n', 'u', 'l', 'l']
  | .number x => (Decimal.Style.json.write x).toList
  | .text s => quote s
  -- An empty array has no gap before its end, nor has an empty object.
  | .array [] => ['[', ']']
  | .array items => '[' :: itemsChars l (level + 1) items ++ l.gap level ++ [']']
  | .object [] => ['\x7b', '\x7d']
  | .object members => '\x7b' :: membersChars l (level + 1) members ++ l.gap level ++ ['\x7d']

/-- Items with commas between them. -/
def itemsChars (l : Layout) (level : Nat) : List Value → List Char
  | [] => []
  | [v] => l.gap level ++ chars l level v
  | v :: rest => l.gap level ++ chars l level v ++ ',' :: itemsChars l level rest

/-- Members with commas between them. -/
def membersChars (l : Layout) (level : Nat) : List (String × Value) → List Char
  | [] => []
  | [(key, v)] => l.gap level ++ quote key ++ ':' :: l.afterColon ++ chars l level v
  | (key, v) :: rest =>
    l.gap level ++ quote key ++ ':' :: l.afterColon ++ chars l level v ++ ',' ::
      membersChars l level rest

end

section Chars

variable (l : Layout) (level : Nat)

/-- An array is its items in brackets, the closing one set in like the array. -/
theorem chars_array (v : Value) (vs : List Value) : chars l level (.array (v :: vs)) =
    '[' :: (itemsChars l (level + 1) (v :: vs) ++ (l.gap level ++ [']'])) := by
  rw [chars]
  · simp
  · nofun

theorem chars_object (e : String × Value) (ms : List (String × Value)) :
    chars l level (.object (e :: ms)) =
      '\x7b' :: (membersChars l (level + 1) (e :: ms) ++ (l.gap level ++ ['\x7d'])) := by
  rw [chars]
  · simp
  · nofun

theorem itemsChars_singleton (v : Value) :
    itemsChars l level [v] = l.gap level ++ chars l level v := by
  rw [itemsChars]

theorem itemsChars_cons (v w : Value) (vs : List Value) : itemsChars l level (v :: w :: vs) =
    l.gap level ++ (chars l level v ++ ',' :: itemsChars l level (w :: vs)) := by
  rw [itemsChars]
  · simp
  · nofun

theorem membersChars_singleton (key : String) (v : Value) : membersChars l level [(key, v)] =
    l.gap level ++ (quote key ++ ':' :: (l.afterColon ++ chars l level v)) := by
  simp [membersChars]

theorem membersChars_cons (key : String) (v : Value) (e : String × Value)
    (ms : List (String × Value)) : membersChars l level ((key, v) :: e :: ms) =
      l.gap level ++ (quote key ++ ':' :: (l.afterColon ++ (chars l level v ++ ',' ::
        membersChars l level (e :: ms)))) := by
  rw [membersChars]
  · simp
  · nofun

end Chars

/-! ## The two ways of writing -/

mutual

/-- What is written in one line. -/
theorem compactChars_eq (level : Nat) : ∀ v : Value, v.compactChars = v.chars .oneLine level
  | .null => rfl
  | .number _ => rfl
  | .text _ => rfl
  | .array [] => rfl
  | .array (v :: vs) => by
    rw [compactChars, chars_array, compactItems_eq (level + 1) (v :: vs)]
    rfl
  | .object [] => rfl
  | .object (e :: ms) => by
    rw [compactChars, chars_object, compactMembers_eq (level + 1) (e :: ms)]
    rfl

/-- Items in one line are items without gaps, at whatever level. -/
theorem compactItems_eq (level : Nat) :
    ∀ vs : List Value, compactItems vs = itemsChars .oneLine level vs
  | [] => rfl
  | [v] => by
    rw [compactItems, itemsChars_singleton, compactChars_eq level v]
    rfl
  | v :: w :: vs => by
    rw [compactItems, itemsChars_cons, compactChars_eq level v, compactItems_eq level (w :: vs)]
    · rfl
    · nofun

theorem compactMembers_eq (level : Nat) :
    ∀ ms : List (String × Value), compactMembers ms = membersChars .oneLine level ms
  | [] => rfl
  | [(key, v)] => by
    rw [compactMembers, membersChars_singleton, compactChars_eq level v]
    rfl
  | (key, v) :: e :: ms => by
    rw [compactMembers, membersChars_cons, compactChars_eq level v,
      compactMembers_eq level (e :: ms)]
    · simp [Layout.oneLine]
    · nofun

end

mutual

/-- What is written over several lines. -/
theorem prettyChars_eq (level : Nat) : ∀ v : Value, v.prettyChars level = v.chars .indented level
  | .null => rfl
  | .number _ => rfl
  | .text _ => rfl
  | .array [] => rfl
  | .array (v :: vs) => by
    rw [prettyChars, chars_array, prettyItems_eq (level + 1) (v :: vs)]
    · simp [Layout.indented]
    · nofun
  | .object [] => rfl
  | .object (e :: ms) => by
    rw [prettyChars, chars_object, prettyMembers_eq (level + 1) (e :: ms)]
    · simp [Layout.indented]
    · nofun

/-- Items set in are items with a gap before each. -/
theorem prettyItems_eq (level : Nat) :
    ∀ vs : List Value, prettyItems level vs = itemsChars .indented level vs
  | [] => rfl
  | [v] => by
    rw [prettyItems, itemsChars_singleton, prettyChars_eq level v]
    rfl
  | v :: w :: vs => by
    rw [prettyItems, itemsChars_cons, prettyChars_eq level v, prettyItems_eq level (w :: vs)]
    · simp [Layout.indented]
    · nofun

theorem prettyMembers_eq (level : Nat) :
    ∀ ms : List (String × Value), prettyMembers level ms = membersChars .indented level ms
  | [] => rfl
  | [(key, v)] => by
    rw [prettyMembers, membersChars_singleton, prettyChars_eq level v]
    simp [Layout.indented]
  | (key, v) :: e :: ms => by
    rw [prettyMembers, membersChars_cons, prettyChars_eq level v,
      prettyMembers_eq level (e :: ms)]
    · simp [Layout.indented]
    · nofun

end

end Value

end Waybill.Json
