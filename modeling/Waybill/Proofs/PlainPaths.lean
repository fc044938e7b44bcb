import Waybill.Proofs.Encoding
import Waybill.Url.Path

/-!
# Paths that are kept

A path is written in another form than it is given in. Encoding loses nothing, for it can be
read back; but characters are passed over, dots climb, a backslash may be a slash, a drive
letter gets a colon, and a percent sign is not told from one that encodes. A text without any
of that is `Plain`, and plain texts give one path just if they are equal (`withPath_eq_iff`).
-/

namespace Waybill.Url

open Percent

variable {cs segment : List Char} {file : Bool}

/-- A text that is only encoded where it is made the path of a URL with this scheme. -/
structure Plain (scheme text : String) : Prop where
  notIgnored : ∀ c ∈ text.toList, isIgnored c = false
  noEscape : hasEscape text.toList = false
  noDots : ∀ segment ∈ text.toList.splitOn '/',
    isSingleDot segment = false ∧ isDoubleDot segment = false
  noBackslash : isSpecial scheme → '\\' ∉ text.toList
  /-- The path of a file starts with a name that is no drive. -/
  named : scheme = "file" → ∀ segment ∈ (text.toList.splitOn '/').head?,
    segment ≠ [] ∧ isDriveLetter segment = false

/-! ## Segments -/

theorem withoutIgnored_eq_self (h : ∀ c ∈ cs, isIgnored c = false) : withoutIgnored cs = cs := by
  refine List.filter_eq_self.2 fun c hc => ?_
  rw [h c hc]
  rfl

/-- Only a character that is passed over cuts off a drive letter. -/
theorem cutDrive?_eq_none (h : ∀ c ∈ cs, isIgnored c = false) : cutDrive? cs = none := by
  have hdrop : ∀ {l : List Char}, (∀ c ∈ l, isIgnored c = false) → l.dropWhile isIgnored = l := by
    intro l hl
    cases l with
    | nil => rfl
    | cons c l => simp [hl c List.mem_cons_self]
  unfold cutDrive?
  rw [hdrop h]
  rcases cs with _ | ⟨letter, rest⟩
  · rfl
  rw [List.forall_mem_cons] at h
  dsimp only
  rw [hdrop h.2]
  split
  · next rest' =>
    have hhead : rest'.head?.any isIgnored = false := by
      cases rest' with
      | nil => rfl
      | cons c rest' => exact h.2 c (List.mem_cons_of_mem _ List.mem_cons_self)
    simp [hhead]
  · rfl

/-- A hyphen is kept in lower case, so no name without one is the segment. -/
theorem contains_lower_of_hyphen {names : List String} (h : '-' ∈ segment)
    (hnames : ∀ name ∈ names, '-' ∉ name.toList) :
    names.contains (String.ofList (segment.map Char.toLower)) = false := by
  rw [Bool.eq_false_iff, ne_eq, List.contains_iff_mem]
  intro hmem
  refine hnames _ hmem ?_
  rw [String.toList_ofList]
  exact List.mem_map.2 ⟨'-', h, rfl⟩

/-- Dots and drive letters hold no hyphen. -/
theorem notDots_of_hyphen (h : '-' ∈ segment) : isSingleDot segment = false ∧
    isDoubleDot segment = false ∧ isDriveLetter segment = false := by
  refine ⟨contains_lower_of_hyphen h (by decide), contains_lower_of_hyphen h (by decide), ?_⟩
  unfold isDriveLetter
  split
  · next letter mark =>
    rcases List.mem_cons.1 h with rfl | h
    · rfl
    · obtain rfl := List.mem_singleton.1 h
      simp
  · rfl

/-- A segment that is only encoded. -/
structure PlainSegment (segment : List Char) : Prop where
  notIgnored : ∀ c ∈ segment, isIgnored c = false
  noSingleDot : isSingleDot segment = false
  noDoubleDot : isDoubleDot segment = false

namespace Course

variable {c : Course} {segments : List (List Char)}

/-- The path with some more segments. -/
def appended (c : Course) (segments : List (List Char)) : Course :=
  { c with segments := c.segments ++ segments }

/-- A plain first segment that is no drive is only encoded. -/
theorem ofFirst_of_plain (h : PlainSegment segment) (hdrive : isDriveLetter segment = false) :
    ofFirst segment = ⟨[encode inPath segment], false⟩ := by
  unfold ofFirst
  rw [cutDrive?_eq_none h.notIgnored, withoutIgnored_eq_self h.notIgnored]
  simp [hdrive]

/-- A plain segment is encoded and comes last. -/
theorem add_of_plain (h : PlainSegment segment)
    (hfirst : file → c.segments = [] → isDriveLetter segment = false ∧ c.onDrive = false) :
    c.add file segment = c.appended [encode inPath segment] := by
  unfold add
  dsimp only
  rw [withoutIgnored_eq_self h.notIgnored, h.noDoubleDot, h.noSingleDot]
  obtain ⟨before, onDrive⟩ := c
  cases file with
  | false => rfl
  | true =>
    cases before with
    | cons s before => rfl
    | nil =>
      obtain ⟨hdrive, rfl⟩ := hfirst rfl rfl
      exact ofFirst_of_plain h hdrive

theorem addLast_of_plain (h : PlainSegment segment) :
    c.addLast file segment = c.add file segment := by
  unfold addLast
  dsimp only
  rw [withoutIgnored_eq_self h.notIgnored, h.noDoubleDot, h.noSingleDot]
  rfl

/-- **Plain segments are added as they are**, but for the encoding. -/
theorem addAll_of_plain (h : ∀ segment ∈ segments, PlainSegment segment)
    (hfirst : file → c.segments = [] →
      (∀ segment ∈ segments.head?, isDriveLetter segment = false) ∧ c.onDrive = false) :
    addAll file c segments = c.appended (segments.map (encode inPath)) := by
  induction segments generalizing c with
  | nil => simp [addAll, appended]
  | cons segment rest ih =>
    rw [List.forall_mem_cons] at h
    have hadd : c.add file segment = c.appended [encode inPath segment] :=
      add_of_plain h.1 fun hfile hnil =>
        ⟨(hfirst hfile hnil).1 segment rfl, (hfirst hfile hnil).2⟩
    cases rest with
    | nil => rw [addAll, addLast_of_plain h.1, hadd, List.map_singleton]
    | cons next rest =>
      -- there is a segment now, so nothing is the first any more
      show addAll file (c.add file segment) (next :: rest) = _
      rw [hadd, ih h.2 fun _ hnil => by simp [appended] at hnil]
      simp [appended]

end Course

/-! ## Texts -/

section Lists

variable {α : Type} {p q : α → Bool} {l s sep : List α} {ls : List (List α)}

/-- Where to split is told by the members. -/
theorem splitOnP_congr (h : ∀ a ∈ l, p a = q a) : l.splitOnP p = l.splitOnP q := by
  induction l with
  | nil => rfl
  | cons a l ih =>
    rw [List.forall_mem_cons] at h
    rw [List.splitOnP_cons_eq_if_modifyHead, List.splitOnP_cons_eq_if_modifyHead, h.1, ih h.2]

theorem mem_intercalate_of_mem {a : α} (hs : s ∈ ls) (ha : a ∈ s) : a ∈ sep.intercalate ls := by
  induction ls with
  | nil => cases hs
  | cons s' ls ih =>
    cases ls with
    | nil =>
      rw [List.mem_singleton.1 hs] at ha
      simpa using ha
    | cons s'' ls =>
      rw [List.intercalate_cons_cons]
      rcases List.mem_cons.1 hs with rfl | hs
      · exact List.mem_append_left _ (List.mem_append_left _ ha)
      · exact List.mem_append_right _ (ih hs)

end Lists

theorem intercalate_splitOn_toList (text : String) :
    ['/'].intercalate (text.toList.splitOn '/') = text.toList :=
  List.intercalate_splitOn '/'

/-- Parts are encoded before they are joined or after. -/
theorem encode_intercalate (encoded : Char → Bool) (sep : List Char) (ls : List (List Char)) :
    encode encoded (sep.intercalate ls) =
      (encode encoded sep).intercalate (ls.map (encode encoded)) := by
  induction ls with
  | nil => rfl
  | cons s ls ih =>
    cases ls with
    | nil => simp
    | cons s' ls =>
      rw [List.intercalate_cons_cons, encode_append, encode_append, ih]
      exact List.intercalate_cons_cons.symm

namespace Plain

variable {scheme text text' : String}

/-- The segments of a plain text are plain. -/
theorem plainSegment (h : Plain scheme text) :
    ∀ segment ∈ text.toList.splitOn '/', PlainSegment segment := by
  intro segment hsegment
  obtain ⟨hsingle, hdouble⟩ := h.noDots segment hsegment
  refine ⟨fun c hc => h.notIgnored c ?_, hsingle, hdouble⟩
  rw [← intercalate_splitOn_toList]
  exact mem_intercalate_of_mem hsegment hc

/-- **A plain text is read segment by segment.** -/
theorem segments_read (h : Plain scheme text) :
    (Course.read (isSpecial scheme) (scheme == "file") text.toList).segments =
      (text.toList.splitOn '/').map (encode inPath) := by
  have hsplit : text.toList.splitOnP (fun c => c == '/' || (isSpecial scheme && c == '\\')) =
      text.toList.splitOn '/' := by
    rw [List.splitOn_eq_splitOnP]
    refine splitOnP_congr fun c hc => ?_
    rcases hspecial : isSpecial scheme with _ | _
    · simp
    · have hne : c ≠ '\\' := fun heq => h.noBackslash hspecial (heq ▸ hc)
      simp [hne]
  unfold Course.read
  have hnamed : (scheme == "file") = true →
      ∀ segment ∈ (text.toList.splitOn '/').head?, isDriveLetter segment = false :=
    fun hfile segment hsegment => (h.named (by simpa using hfile) segment hsegment).2
  rw [hsplit, Course.addAll_of_plain h.plainSegment fun hfile _ => ⟨hnamed hfile, rfl⟩]
  rfl

/-- The path of a file is not shortened, since it starts with a name. -/
theorem dropLeadingEmpty_segments (h : Plain scheme text) (hfile : scheme = "file") :
    dropLeadingEmpty ((text.toList.splitOn '/').map (encode inPath)) =
      (text.toList.splitOn '/').map (encode inPath) := by
  rcases hsplit : text.toList.splitOn '/' with _ | ⟨first, rest⟩
  · rfl
  · have hne : first ≠ [] := (h.named hfile first (by rw [hsplit]; rfl)).1
    rcases first with _ | ⟨c, first⟩
    · exact absurd rfl hne
    · obtain ⟨d, r, hencode⟩ := exists_encode_eq_cons inPath c first
      rw [List.map_cons, hencode]
      rfl

/-- **A plain text is set as a path segment by segment**, each encoded and none dropped.
-/
theorem path_withPath (u : Url) (h : Plain u.scheme text) : (u.withPath text).path =
    .rooted (((text.toList.splitOn '/').map (encode inPath)).map String.ofList) := by
  unfold withPath
  dsimp only
  rw [Course.path, h.segments_read]
  split
  · next hfile => rw [h.dropLeadingEmpty_segments (by simpa using hfile)]
  · rfl

/-- **Plain texts give one path just if they are equal.** -/
theorem withPath_eq_iff {u : Url} (h : Plain u.scheme text) (h' : Plain u.scheme text') :
    u.withPath text = u.withPath text' ↔ text = text' := by
  refine ⟨fun heq => ?_, fun heq => heq ▸ rfl⟩
  have hpath := congrArg Url.path heq
  rw [path_withPath u h, path_withPath u h'] at hpath
  have hsegments : (text.toList.splitOn '/').map (encode inPath) =
      (text'.toList.splitOn '/').map (encode inPath) :=
    (List.map_inj_right fun _ _ => String.ofList_injective).1 (Path.rooted.inj hpath)
  -- the segments tell the encoded text, and that tells the text
  have hencoded : encode inPath text.toList = encode inPath text'.toList := by
    rw [← intercalate_splitOn_toList text, ← intercalate_splitOn_toList text', encode_intercalate,
      encode_intercalate, hsegments]
  exact String.toList_injective (eq_of_encode_eq h.noEscape h'.noEscape hencoded)

end Plain

/-- A character on account of which a path may be rewritten. -/
def isRewritten (c : Char) : Bool :=
  isIgnored c || c == '%' || c == '/' || c == '\\'

/-- A text with a hyphen and without such characters is plain, whatever the scheme. -/
theorem plain_of_hyphen {scheme text : String} (hhyphen : '-' ∈ text.toList)
    (hkept : text.toList.any isRewritten = false) : Plain scheme text := by
  have hnot : ∀ c, isRewritten c = true → c ∉ text.toList := by
    intro c hc hmem
    exact List.any_eq_false.1 hkept c hmem hc
  have hsplit : text.toList.splitOn '/' = [text.toList] := List.splitOn_eq_singleton (hnot '/' rfl)
  obtain ⟨hsingle, hdouble, hdrive⟩ := notDots_of_hyphen hhyphen
  constructor
  case notIgnored =>
    intro c hc
    have hrewritten := Bool.eq_false_iff.2 (List.any_eq_false.1 hkept c hc)
    simp only [isRewritten, Bool.or_eq_false_iff] at hrewritten
    exact hrewritten.1.1.1
  case noEscape => exact hasEscape_of_notMem (hnot '%' rfl)
  case noDots =>
    intro segment hsegment
    rw [hsplit, List.mem_singleton] at hsegment
    exact hsegment ▸ ⟨hsingle, hdouble⟩
  case noBackslash => exact fun _ => hnot '\\' rfl
  case named =>
    intro _ segment hsegment
    rw [hsplit] at hsegment
    cases hsegment
    exact ⟨List.ne_nil_of_mem hhyphen, hdrive⟩

/-- Texts that are not plain may give the path of another text. -/
example (u : Url) (h : u.scheme = "flow") :
    u.withPath "a\tb" = u.withPath "ab" ∧ u.withPath "a b" = u.withPath "a%20b" ∧
      u.withPath "a/../b" = u.withPath "b" := by
  obtain ⟨scheme, username, password, host, port, path, query, fragment⟩ := u
  obtain rfl : scheme = "flow" := h
  exact ⟨rfl, rfl, rfl⟩

end Waybill.Url
