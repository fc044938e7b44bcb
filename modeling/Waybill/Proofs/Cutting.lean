import Mathlib.Data.List.DropRight
import Mathlib.Data.List.TakeDrop
import Waybill.Text.CommaList

/-!
# Cutting and trimming

Where a text is cut is told by what stands on either side: before the first separator there is
none, and after the last (`cutAtFirst?_eq_some_iff`, `cutAtLast?_eq_some_iff`). Trimming goes
on where a cut was made: a separator is no blank, so a text that is trimmed first is cut into
the same parts but for blanks at its ends (`cutAtFirst?_strip`, `cutAtLast?_strip`), and blanks
around the separators of a comma list are no part of its items (`items_join`). A list that is
written from parts has the items of the parts (`items_join_eq_flatMap`).
-/

namespace Waybill.Text

variable {sep : Char} {cs before after : List Char}

/-! ## Cuts -/

/-- **A text is cut at the first separator** if there is one. -/
theorem cutAtFirst?_eq_some_iff :
    cutAtFirst? sep cs = some (before, after) ↔ cs = before ++ sep :: after ∧ sep ∉ before := by
  unfold cutAtFirst?
  constructor
  · intro h
    rw [List.span_eq_takeWhile_dropWhile] at h
    have hwhole := List.takeWhile_append_dropWhile (p := (· != sep)) (l := cs)
    have hbefore : sep ∉ cs.takeWhile (· != sep) := fun hmem => by
      have hne := List.mem_takeWhile_imp hmem
      simp at hne
    rcases hdrop : cs.dropWhile (· != sep) with _ | ⟨c, rest⟩
    · rw [hdrop] at h
      cases h
    · obtain rfl : c = sep := by
        have hhead := List.head?_dropWhile_not (p := (· != sep)) cs
        rw [hdrop] at hhead
        simpa using hhead
      rw [hdrop] at h hwhole
      cases h
      exact ⟨hwhole.symm, hbefore⟩
  · rintro ⟨rfl, hbefore⟩
    have hpass : ∀ c ∈ before, (c != sep) = true := fun c hc => by
      rw [bne_iff_ne]
      rintro rfl
      exact hbefore hc
    rw [List.span_eq_takeWhile_dropWhile, List.takeWhile_append_of_pos hpass,
      List.dropWhile_append_of_pos hpass, List.dropWhile_cons_of_neg (by simp),
      List.takeWhile_cons_of_neg (by simp), List.append_nil]

/-- A text is not cut if it has no separator. -/
theorem cutAtFirst?_eq_none_iff : cutAtFirst? sep cs = none ↔ sep ∉ cs := by
  constructor
  · intro h hmem
    obtain ⟨before, after, hcs, hbefore⟩ := List.eq_append_cons_of_mem hmem
    rw [cutAtFirst?_eq_some_iff.2 ⟨hcs, hbefore⟩] at h
    cases h
  · intro h
    rcases hcut : cutAtFirst? sep cs with _ | ⟨before, after⟩
    · rfl
    · obtain ⟨rfl, -⟩ := cutAtFirst?_eq_some_iff.1 hcut
      simp at h

/-- **A text is cut at the last separator** if there is one. -/
theorem cutAtLast?_eq_some_iff :
    cutAtLast? sep cs = some (before, after) ↔ cs = before ++ sep :: after ∧ sep ∉ after := by
  unfold cutAtLast?
  rw [Option.map_eq_some_iff]
  constructor
  · -- The last separator is the first of the reversed text.
    rintro ⟨⟨after', before'⟩, hcut, heq⟩
    obtain ⟨hcs, hafter⟩ := cutAtFirst?_eq_some_iff.1 hcut
    cases heq
    refine ⟨?_, by simpa using hafter⟩
    rw [← List.reverse_reverse cs, hcs]
    simp
  · rintro ⟨rfl, hafter⟩
    refine ⟨(after.reverse, before.reverse), cutAtFirst?_eq_some_iff.2 ⟨?_, ?_⟩, by simp⟩
    · simp
    · simpa using hafter

theorem cutAtLast?_eq_none_iff : cutAtLast? sep cs = none ↔ sep ∉ cs := by
  rw [cutAtLast?, Option.map_eq_none_iff, cutAtFirst?_eq_none_iff, List.mem_reverse]

/-! ## Stripping -/

/-- A text without what satisfies `p` at both ends. -/
def strip (p : Char → Bool) (cs : List Char) : List Char :=
  dropEndWhile p (cs.dropWhile p)

theorem trimmed_eq_strip (cs : List Char) : trimmed cs = strip isBlank cs := rfl

variable {p q : Char → Bool} {c : Char} {xs ys : List Char}

/-- What ends in a character that is kept loses nothing at its end. -/
theorem dropEndWhile_eq_self (h : ∀ c, xs.getLast? = some c → p c = false) :
    dropEndWhile p xs = xs := by
  unfold dropEndWhile
  rcases hr : xs.reverse with _ | ⟨c, r⟩
  · simp_all
  · have hc : p c = false := h c (by
      rw [List.getLast?_eq_head?_reverse, hr]; rfl)
    rw [List.dropWhile_cons_of_neg (by simp [hc]), ← hr, List.reverse_reverse]

/-- What is dropped at the end may stand there in any number. -/
theorem dropEndWhile_append_of_pos (h : ∀ c ∈ ys, p c = true) :
    dropEndWhile p (xs ++ ys) = dropEndWhile p xs := by
  unfold dropEndWhile
  rw [List.reverse_append, List.dropWhile_append_of_pos fun c hc => h c (List.mem_reverse.1 hc)]

theorem dropEndWhile_append_cons (h : p c = false) (xs ys : List Char) :
    dropEndWhile p (xs ++ c :: ys) = xs ++ c :: dropEndWhile p ys := by
  unfold dropEndWhile
  rw [List.reverse_append, List.reverse_cons, List.dropWhile_append, List.dropWhile_append]
  rcases hys : ys.reverse.dropWhile p with _ | ⟨d, rest⟩
  · simp [h]
  · simp

/-- What is stripped may stand in front in any number. -/
theorem strip_append_left (h : ∀ c ∈ xs, p c = true) (ys : List Char) :
    strip p (xs ++ ys) = strip p ys := by
  rw [strip, List.dropWhile_append_of_pos h, strip]

theorem dropWhile_append_cons (h : p c = false) (xs ys : List Char) :
    (xs ++ c :: ys).dropWhile p = xs.dropWhile p ++ c :: ys := by
  rw [List.dropWhile_append]
  split
  · next hnil =>
    rw [List.isEmpty_iff.1 hnil, List.dropWhile_cons_of_neg (by simp [h]), List.nil_append]
  · rfl

/-- What is not stripped keeps what stands behind and before it apart. -/
theorem strip_append_cons (h : p c = false) (xs ys : List Char) :
    strip p (xs ++ c :: ys) = xs.dropWhile p ++ c :: dropEndWhile p ys := by
  rw [strip, dropWhile_append_cons h, dropEndWhile_append_cons h]

/-- What is dropped at the end can be put back. -/
theorem exists_eq_append_dropEndWhile (p : Char → Bool) (cs : List Char) :
    ∃ back, cs = dropEndWhile p cs ++ back ∧ ∀ c ∈ back, p c = true := by
  refine ⟨(cs.reverse.takeWhile p).reverse, ?_, fun c hc => ?_⟩
  · rw [dropEndWhile, ← List.reverse_append, List.takeWhile_append_dropWhile, List.reverse_reverse]
  · exact List.mem_takeWhile_imp (List.mem_reverse.1 hc)

/-- What is stripped stands at the ends. -/
theorem exists_eq_append_strip (p : Char → Bool) (cs : List Char) :
    ∃ front back, cs = front ++ strip p cs ++ back ∧ (∀ c ∈ front, p c = true) ∧
      ∀ c ∈ back, p c = true := by
  obtain ⟨back, hback, hblank⟩ := exists_eq_append_dropEndWhile p (cs.dropWhile p)
  refine ⟨cs.takeWhile p, back, ?_, fun c hc => List.mem_takeWhile_imp hc, hblank⟩
  rw [strip, List.append_assoc, ← hback, List.takeWhile_append_dropWhile]

theorem mem_of_mem_strip (h : c ∈ strip p cs) : c ∈ cs := by
  obtain ⟨front, back, hcs, -⟩ := exists_eq_append_strip p cs
  rw [hcs]
  simp [h]

theorem mem_strip_of_mem (h : c ∈ cs) (hc : p c = false) : c ∈ strip p cs := by
  obtain ⟨front, back, hcs, hfront, hback⟩ := exists_eq_append_strip p cs
  have hkept : ∀ ds : List Char, (∀ d ∈ ds, p d = true) → c ∉ ds := fun ds hds hmem => by
    rw [hds c hmem] at hc
    cases hc
  rw [hcs, List.mem_append, List.mem_append] at h
  exact (h.resolve_right (hkept back hback)).resolve_left (hkept front hfront)

theorem strip_append_right (h : ∀ c ∈ ys, p c = true) (xs : List Char) :
    strip p (xs ++ ys) = strip p xs := by
  unfold strip
  rw [List.dropWhile_append]
  split
  · -- Nothing is left of `xs`, so `ys` is stripped from the front.
    next hnil =>
    have hys : ys.dropWhile p = [] := List.dropWhile_eq_nil_iff.2 h
    rw [hys, List.isEmpty_iff.1 hnil]
  · exact dropEndWhile_append_of_pos h

/-- Stripping less first makes no difference. -/
theorem strip_strip_of_imp (h : ∀ c ∈ cs, q c = true → p c = true) :
    strip p (strip q cs) = strip p cs := by
  obtain ⟨front, back, hcs, hfront, hback⟩ := exists_eq_append_strip q cs
  have hfront' : ∀ c ∈ front, p c = true := fun c hc =>
    h c (by rw [hcs]; simp [hc]) (hfront c hc)
  have hback' : ∀ c ∈ back, p c = true := fun c hc =>
    h c (by rw [hcs]; simp [hc]) (hback c hc)
  calc strip p (strip q cs) = strip p (front ++ strip q cs ++ back) := by
        rw [List.append_assoc, strip_append_left hfront', strip_append_right hback']
    _ = strip p cs := by rw [← hcs]

theorem strip_eq_self (h : ∀ c ∈ cs, p c = false) : strip p cs = cs := by
  have hdrop : cs.dropWhile p = cs := by
    rcases cs with _ | ⟨c, r⟩
    · rfl
    · exact List.dropWhile_cons_of_neg (by simp [h c List.mem_cons_self])
  rw [strip, hdrop]
  exact dropEndWhile_eq_self fun c hc => h c (List.mem_of_getLast? hc)

theorem strip_strip (p : Char → Bool) (cs : List Char) : strip p (strip p cs) = strip p cs :=
  strip_strip_of_imp fun _ _ => id

/-- Stripping the front first makes no difference. -/
theorem strip_dropWhile (p : Char → Bool) (cs : List Char) :
    strip p (cs.dropWhile p) = strip p cs := by
  rw [strip, List.dropWhile_idempotent, strip]

theorem strip_dropEndWhile (p : Char → Bool) (cs : List Char) :
    strip p (dropEndWhile p cs) = strip p cs := by
  obtain ⟨back, hback, hblank⟩ := exists_eq_append_dropEndWhile p cs
  have hwhole := strip_append_right hblank (dropEndWhile p cs)
  rw [← hback] at hwhole
  exact hwhole.symm

/-! ## Cutting what is stripped -/

/-- Where the separator is not stripped, a text may be cut before it is stripped at the
end. -/
theorem cutAtFirst?_dropEndWhile (h : p sep = false) (cs : List Char) :
    cutAtFirst? sep (dropEndWhile p cs) =
      (cutAtFirst? sep cs).map fun (before, after) => (before, dropEndWhile p after) := by
  rcases hcut : cutAtFirst? sep cs with _ | ⟨before, after⟩
  · obtain ⟨back, hback, -⟩ := exists_eq_append_dropEndWhile p cs
    have hnot := cutAtFirst?_eq_none_iff.1 hcut
    rw [hback] at hnot
    exact cutAtFirst?_eq_none_iff.2 fun hmem => hnot (List.mem_append_left _ hmem)
  · obtain ⟨rfl, hbefore⟩ := cutAtFirst?_eq_some_iff.1 hcut
    rw [dropEndWhile_append_cons h]
    exact cutAtFirst?_eq_some_iff.2 ⟨rfl, hbefore⟩

/-- **What is stripped is cut where it was cut before.** -/
theorem cutAtFirst?_strip (h : p sep = false) (cs : List Char) :
    cutAtFirst? sep (strip p cs) =
      (cutAtFirst? sep cs).map fun (before, after) =>
        (before.dropWhile p, dropEndWhile p after) := by
  rcases hcut : cutAtFirst? sep cs with _ | ⟨before, after⟩
  · exact cutAtFirst?_eq_none_iff.2 fun hmem =>
      cutAtFirst?_eq_none_iff.1 hcut (mem_of_mem_strip hmem)
  · obtain ⟨rfl, hbefore⟩ := cutAtFirst?_eq_some_iff.1 hcut
    rw [strip_append_cons h]
    exact cutAtFirst?_eq_some_iff.2
      ⟨rfl, fun hmem => hbefore ((List.dropWhile_sublist p).subset hmem)⟩

/-- The same at the last separator, for both ends. -/
theorem cutAtLast?_strip (h : p sep = false) (cs : List Char) :
    cutAtLast? sep (strip p cs) =
      (cutAtLast? sep cs).map fun (before, after) =>
        (before.dropWhile p, dropEndWhile p after) := by
  rcases hcut : cutAtLast? sep cs with _ | ⟨before, after⟩
  · exact cutAtLast?_eq_none_iff.2 fun hmem =>
      cutAtLast?_eq_none_iff.1 hcut (mem_of_mem_strip hmem)
  · obtain ⟨rfl, hafter⟩ := cutAtLast?_eq_some_iff.1 hcut
    obtain ⟨back, hback, -⟩ := exists_eq_append_dropEndWhile p after
    rw [strip_append_cons h]
    refine cutAtLast?_eq_some_iff.2 ⟨rfl, fun hmem => hafter ?_⟩
    rw [hback]
    exact List.mem_append_left _ hmem

/-! ## Trimming -/

variable {s : String}

theorem trim_ofList (cs : List Char) : trim (String.ofList cs) = String.ofList (trimmed cs) := by
  rw [trim, String.toList_ofList]

theorem trim_trim (s : String) : trim (trim s) = trim s := by
  rw [trim, toList_trim, trimmed_eq_strip, trimmed_eq_strip, strip_strip, ← trimmed_eq_strip, trim]

theorem mem_of_mem_trim (h : c ∈ (trim s).toList) : c ∈ s.toList := by
  rw [toList_trim] at h
  exact mem_of_mem_strip h

/-- What is no blank is not trimmed away. -/
theorem mem_trim_of_mem (hc : c ∈ s.toList) (hblank : isBlank c = false) :
    c ∈ (trim s).toList := by
  rw [toList_trim, trimmed_eq_strip]
  exact mem_strip_of_mem hc hblank

/-- A text with something in it that is not blank is not trimmed away. -/
theorem trim_ne_empty (hc : c ∈ s.toList) (hblank : isBlank c = false) : trim s ≠ "" := by
  intro h
  have hmem := mem_trim_of_mem hc hblank
  rw [h] at hmem
  cases hmem

/-- A text is blank if nothing is left of it when it is trimmed. -/
theorem isAllBlank_iff {s : String} : isAllBlank s = true ↔ trim s = "" := by
  rw [isAllBlank, List.all_eq_true]
  constructor
  · intro h
    have hdrop : s.toList.dropWhile isBlank = [] := List.dropWhile_eq_nil_iff.2 h
    rw [trim, trimmed, hdrop]
    rfl
  · intro h c hc
    by_contra hblank
    exact trim_ne_empty hc (Bool.not_eq_true _ ▸ hblank) h

end Waybill.Text

namespace Waybill.CommaList

open Text

/-- A comma parts a list in two. -/
theorem items_append_comma (s t : String) : items (s ++ "," ++ t) = items s ++ items t := by
  have hcut : (s ++ "," ++ t).toList = s.toList ++ ',' :: t.toList := by simp
  rw [items, hcut, entries, List.splitOn_append_cons_self, List.map_append, List.filter_append,
    List.map_append]
  rfl

/-- **The items of a written list are those of its parts**, one after another: a part may be a
list itself, or blank. -/
theorem items_join_eq_flatMap (names : List String) :
    items (join names) = names.flatMap items := by
  induction names with
  | nil => rfl
  | cons name names ih =>
    rcases names with _ | ⟨next, rest⟩
    · rw [List.flatMap_singleton]
      exact congrArg items String.intercalate_singleton
    · rw [join, String.intercalate_cons_cons, items_append_comma, List.flatMap_cons, ← ih, join]

/-- Without a comma a text has one entry, or none if it is blank. -/
theorem items_of_notMem {s : String} (h : ',' ∉ s.toList) :
    items s = [trim s].filter (· ≠ "") := by
  have hempty : (fun s : String => decide (s ≠ "")) ∘ String.ofList =
      fun cs : List Char => decide (cs ≠ []) := by
    funext cs
    simp
  rw [items, entries, List.splitOn_eq_singleton h, ← hempty, ← List.filter_map]
  rfl

/-- **The items of a written list are its names**, trimmed and without the blank ones, if there
is no comma in any of them. -/
theorem items_join {names : List String} (h : ∀ name ∈ names, ',' ∉ name.toList) :
    items (join names) = (names.map trim).filter (· ≠ "") := by
  rw [items_join_eq_flatMap]
  induction names with
  | nil => rfl
  | cons name names ih =>
    obtain ⟨hname, hnames⟩ := List.forall_mem_cons.1 h
    rw [List.flatMap_cons, items_of_notMem hname, ih hnames, ← List.filter_append]
    rfl

end Waybill.CommaList
