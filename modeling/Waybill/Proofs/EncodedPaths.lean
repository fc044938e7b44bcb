import Mathlib.Data.List.TakeDrop
import Waybill.Proofs.Characters
import Waybill.Url.Path

/-!
# What a path is written with

A rooted path has one segment at least, and no character stands in it that a path encodes
(`isEncoded_path_read`): a segment is added encoded, or it is a drive letter. So whatever text a
path is read from, it is written in ASCII, and neither a question mark nor a number sign ends it
(`exists_write_eq`).
-/

namespace Waybill.Url

open Text Percent

variable {c : Char} {cs : List Char} {file : Bool}

/-! ## Encoded texts -/

/-- A text in which nothing is left that a path encodes. -/
def IsEncoded (cs : List Char) : Prop := ∀ c ∈ cs, inPath c = false

/-- What was encoded for a path is encoded. -/
theorem isEncoded_encode (cs : List Char) : IsEncoded (encode inPath cs) :=
  forall_mem_encode (by decide) (by decide) fun _ _ hkept => hkept

/-- An encoded text has neither blanks nor controls. -/
theorem IsEncoded.isPrinted (h : IsEncoded cs) : IsPrinted cs := fun c hc => by
  simp_all [IsEncoded, inPath, inFragment]

theorem inPath_of_isAlpha (h : c.isAlpha = true) : inPath c = false :=
  forall_ascii (P := fun c => c.isAlpha = true → inPath c = false) (by decide)
    (toNat_lt_of_isAlpha h) h

/-- A drive letter is a letter, so it stands as it is. -/
theorem isEncoded_drive {letter : Char} (h : letter.isAlpha = true) :
    IsEncoded [letter, ':'] := by
  simp only [IsEncoded, List.forall_mem_cons]
  exact ⟨inPath_of_isAlpha h, rfl, List.forall_mem_nil _⟩

/-! ## Paths as far as they are read -/

namespace Course

variable {course : Course} {segments : List (List Char)}

/-- A path each segment of which is encoded. -/
def IsEncoded (course : Course) : Prop := ∀ segment ∈ course.segments, Url.IsEncoded segment

/-- A course stays encoded with encoded segments behind it. -/
theorem IsEncoded.append (h : course.IsEncoded)
    (hmore : ∀ segment ∈ segments, Url.IsEncoded segment) :
    ∀ segment ∈ course.segments ++ segments, Url.IsEncoded segment :=
  List.forall_mem_append.2 ⟨h, hmore⟩

/-- Going up a level adds nothing. -/
theorem IsEncoded.climb (h : course.IsEncoded) : course.climb.IsEncoded := by
  unfold Course.climb
  split
  · exact h
  · split
    · exact h
    · exact fun segment hsegment => h segment ((List.dropLast_sublist _).subset hsegment)

theorem isEncoded_ofFirst (segment : List Char) : (ofFirst segment).IsEncoded := by
  unfold ofFirst
  split
  · next drive behind hcut =>
    have hdrive : Url.IsEncoded drive := by
      unfold cutDrive? at hcut
      split at hcut
      · cases hcut
      · split at hcut
        · dsimp only at hcut
          split at hcut
          · next hletter =>
            cases hcut
            simp only [Bool.and_eq_true] at hletter
            exact isEncoded_drive hletter.1.1
          · cases hcut
        · cases hcut
    exact List.forall_mem_cons.2 ⟨hdrive, List.forall_mem_singleton.2 (isEncoded_encode _)⟩
  · dsimp only
    split
    · next hdrive =>
      refine List.forall_mem_singleton.2 ?_
      unfold isDriveLetter at hdrive
      split at hdrive
      · next letter mark heq =>
        rw [heq]
        simp only [Bool.and_eq_true] at hdrive
        exact isEncoded_drive hdrive.1
      · cases hdrive
    · exact List.forall_mem_singleton.2 (isEncoded_encode _)

/-- Every other segment is encoded when it is added. -/
theorem IsEncoded.add (h : course.IsEncoded) (file : Bool) (segment : List Char) :
    (course.add file segment).IsEncoded := by
  unfold Course.add
  dsimp only
  split
  · exact h.climb
  split
  · exact h
  split
  · exact isEncoded_ofFirst segment
  · exact h.append (List.forall_mem_singleton.2 (isEncoded_encode _))

theorem IsEncoded.addLast (h : course.IsEncoded) (file : Bool) (segment : List Char) :
    (course.addLast file segment).IsEncoded := by
  unfold Course.addLast
  dsimp only
  split
  · exact (h.add file segment).append (List.forall_mem_singleton.2 (List.forall_mem_nil _))
  · exact h.add file segment

theorem IsEncoded.addAll (h : course.IsEncoded) (file : Bool) (segments : List (List Char)) :
    (course.addAll file segments).IsEncoded := by
  induction segments generalizing course with
  | nil => exact h
  | cons segment rest ih =>
    rcases rest with _ | ⟨next, rest⟩
    · exact h.addLast file segment
    · exact ih (h.add file segment)

/-- Whatever a path is read from, it is encoded. -/
theorem isEncoded_read (special file : Bool) (cs : List Char) :
    (read special file cs).IsEncoded := by
  have hroot : root.IsEncoded := List.forall_mem_nil _
  exact hroot.addAll file _

/-! ## Paths have segments -/

theorem segments_ofFirst_ne_nil (segment : List Char) : (ofFirst segment).segments ≠ [] := by
  unfold ofFirst
  split
  · exact List.cons_ne_nil _ _
  · dsimp only
    split <;> exact List.cons_ne_nil _ _

/-- Whatever the last segment is, there is one behind the last slash. -/
theorem segments_addLast_ne_nil (course : Course) (file : Bool) (segment : List Char) :
    (course.addLast file segment).segments ≠ [] := by
  unfold addLast
  dsimp only
  split
  · simp
  next hdots =>
  rw [Bool.or_eq_true, not_or] at hdots
  unfold add
  dsimp only
  rw [if_neg hdots.1, if_neg hdots.2]
  split
  · exact segments_ofFirst_ne_nil segment
  · simp

theorem segments_addAll_ne_nil (h : segments ≠ []) :
    (course.addAll file segments).segments ≠ [] := by
  induction segments generalizing course with
  | nil => exact absurd rfl h
  | cons segment rest ih =>
    rcases rest with _ | ⟨next, rest⟩
    · exact segments_addLast_ne_nil course file segment
    · exact ih (List.cons_ne_nil _ _)

theorem segments_read_ne_nil (special file : Bool) (cs : List Char) :
    (read special file cs).segments ≠ [] :=
  segments_addAll_ne_nil (List.splitOnP_ne_nil _ _)

end Course

/-- Leading empty segments are dropped but for the last. -/
theorem dropLeadingEmpty_ne_nil {segments : List (List Char)} (h : segments ≠ []) :
    dropLeadingEmpty segments ≠ [] := by
  induction segments using dropLeadingEmpty.induct with
  | case1 segment rest ih => exact ih (List.cons_ne_nil _ _)
  | case2 segments hne => rwa [dropLeadingEmpty.eq_2 _ hne]

theorem mem_of_mem_dropLeadingEmpty {segment : List Char} {segments : List (List Char)}
    (h : segment ∈ dropLeadingEmpty segments) : segment ∈ segments := by
  induction segments using dropLeadingEmpty.induct with
  | case1 next rest ih => exact List.mem_cons_of_mem _ (ih h)
  | case2 segments hne => rwa [dropLeadingEmpty.eq_2 _ hne] at h

/-! ## Paths -/

/-- A path that has segments, all of them encoded. -/
def Path.IsEncoded (path : Path) : Prop :=
  ∃ first rest, path = .rooted (first :: rest) ∧
    ∀ segment ∈ first :: rest, Url.IsEncoded segment.toList

/-- **What is read of a path has segments, and they are encoded**, whatever was read. -/
theorem isEncoded_path_read (special file : Bool) (cs : List Char) :
    ((Course.read special file cs).path file).IsEncoded := by
  have hread := Course.isEncoded_read special file cs
  have hne := Course.segments_read_ne_nil special file cs
  have hkept : ∀ segments : List (List Char), segments ≠ [] →
      (∀ segment ∈ segments, Url.IsEncoded segment) →
      (Path.rooted (segments.map String.ofList)).IsEncoded := by
    intro segments hne hsegments
    rcases segments with _ | ⟨first, rest⟩
    · exact absurd rfl hne
    refine ⟨_, _, rfl, ?_⟩
    rw [← List.map_cons, List.forall_mem_map]
    intro segment hsegment
    rw [String.toList_ofList]
    exact hsegments segment hsegment
  unfold Course.path
  split
  · exact hkept _ (dropLeadingEmpty_ne_nil hne)
      fun segment hsegment => hread segment (mem_of_mem_dropLeadingEmpty hsegment)
  · exact hkept _ hne hread

/-- **A path starts with a slash, and nothing in it needs encoding.** -/
theorem Path.IsEncoded.exists_write_eq {path : Path} (h : path.IsEncoded) :
    ∃ rest, path.write = "/" ++ rest ∧ Url.IsEncoded rest.toList := by
  obtain ⟨first, rest, rfl, hsegments⟩ := h
  rw [List.forall_mem_cons] at hsegments
  refine ⟨first ++ String.join (rest.map ("/" ++ ·)), ?_, ?_⟩
  · rw [Path.write, List.map_cons, String.join_cons, String.append_assoc]
  · rw [String.toList_append, String.toList_join]
    refine List.forall_mem_append.2 ⟨hsegments.1, fun c hc => ?_⟩
    obtain ⟨s, hs, hc⟩ := List.mem_flatMap.1 hc
    obtain ⟨segment, hsegment, rfl⟩ := List.mem_map.1 hs
    rw [String.toList_append] at hc
    rcases List.mem_append.1 hc with hc | hc
    · obtain rfl := List.mem_singleton.1 hc
      rfl
    · exact hsegments.2 segment hsegment c hc

end Waybill.Url
