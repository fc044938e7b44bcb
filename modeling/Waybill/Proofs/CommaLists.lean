import Waybill.Proofs.Cutting
import Waybill.Proofs.GivenPaths

/-!
# What a comma list spells

A text spells names if it is blank, or a name with blanks around it, or two such texts with a
comma between them (`Spells`). Every text spells some names, and no others than are read of it
(`items_eq_iff`): they stand in the order of the text, and none is blank, padded or holds a comma
(`IsItem`). So blanks around the parts of a list and parts that are blank make no difference
(`items_pad`, `items_join_append_blank`), and what was read is read again from its own list
(`items_join_items`). Wherever names are written as one text, in settings or as the path to take,
they are read in this one way.
-/

namespace Waybill.CommaList

open Text

/-- A name that is an item by itself. -/
structure IsItem (name : String) : Prop where
  trimmed : trim name = name
  ne_empty : name ≠ ""
  comma_notMem : ',' ∉ name.toList

/-- A text spells some names, in their order. -/
inductive Spells : String → List String → Prop
  | blank {s : String} (h : isAllBlank s = true) : Spells s []
  | name {front name back : String} (hfront : isAllBlank front = true) (hname : IsItem name)
      (hback : isAllBlank back = true) : Spells (front ++ name ++ back) [name]
  | comma {s t : String} {names more : List String} (hfirst : Spells s names)
      (hrest : Spells t more) : Spells (s ++ "," ++ t) (names ++ more)

variable {s front back name : String} {names : List String}

/-! ## From comma to comma -/

/-- A text without a comma, or one cut at the first. -/
theorem comma_notMem_or_exists (s : String) : ',' ∉ s.toList ∨
    ∃ first rest : String, s = first ++ "," ++ rest ∧ ',' ∉ first.toList := by
  by_cases h : ',' ∈ s.toList
  · obtain ⟨before, after, hs, hbefore⟩ := List.eq_append_cons_of_mem h
    refine .inr ⟨.ofList before, .ofList after, String.toList_inj.1 ?_, ?_⟩
    · rw [hs]
      simp
    · rwa [String.toList_ofList]
  · exact .inl h

/-- What holds of texts without a comma and is passed on at each comma holds of every text. -/
theorem comma_induction {P : String → Prop} (single : ∀ s : String, ',' ∉ s.toList → P s)
    (comma : ∀ first rest : String, ',' ∉ first.toList → P rest → P (first ++ "," ++ rest))
    (s : String) : P s := by
  induction h : s.toList.length using Nat.strongRecOn generalizing s with
  | ind length ih =>
    rcases comma_notMem_or_exists s with hnot | ⟨first, rest, rfl, hfirst⟩
    · exact single s hnot
    · refine comma first rest hfirst (ih rest.toList.length ?_ rest rfl)
      rw [← h]
      simp only [String.toList_append, List.length_append]
      have : ",".toList.length = 1 := rfl
      omega

/-! ## Blanks -/

theorem isBlank_of_isAllBlank (h : isAllBlank s = true) : ∀ c ∈ s.toList, isBlank c = true :=
  List.all_eq_true.1 h

theorem comma_notMem_of_isAllBlank (h : isAllBlank s = true) : ',' ∉ s.toList := by
  intro hmem
  exact absurd (isBlank_of_isAllBlank h ',' hmem) (by decide)

theorem items_of_isAllBlank (h : isAllBlank s = true) : items s = [] := by
  rw [items_of_notMem (comma_notMem_of_isAllBlank h), isAllBlank_iff.1 h]
  rfl

/-- Padding is trimmed off. -/
theorem trim_pad (hfront : isAllBlank front = true) (hback : isAllBlank back = true) (s : String) :
    trim (front ++ s ++ back) = trim s := by
  rw [trim, trim, String.toList_append, String.toList_append, trimmed_eq_strip, trimmed_eq_strip,
    strip_append_right (isBlank_of_isAllBlank hback),
    strip_append_left (isBlank_of_isAllBlank hfront)]

/-- A text without a comma has one item at most, whatever blanks are around it. -/
theorem items_pad_of_notMem (hfront : isAllBlank front = true) (hback : isAllBlank back = true)
    (h : ',' ∉ s.toList) : items (front ++ s ++ back) = items s := by
  have hpadded : ',' ∉ (front ++ s ++ back).toList := by
    simp only [String.toList_append, List.mem_append, not_or]
    exact ⟨⟨comma_notMem_of_isAllBlank hfront, h⟩, comma_notMem_of_isAllBlank hback⟩
  rw [items_of_notMem hpadded, items_of_notMem h, trim_pad hfront hback]

theorem isAllBlank_empty : isAllBlank "" = true := rfl

/-- **Blanks around a list are no part of its items.** -/
theorem items_pad (hfront : isAllBlank front = true) (hback : isAllBlank back = true)
    (s : String) : items (front ++ s ++ back) = items s := by
  induction s using comma_induction generalizing front with
  | single s hs => exact items_pad_of_notMem hfront hback hs
  | comma first rest hfirst ih =>
    -- the blanks in front belong to the first part, those behind to the rest
    have hcut : front ++ (first ++ "," ++ rest) ++ back =
        front ++ first ++ "" ++ "," ++ ("" ++ rest ++ back) := by
      simp only [String.append_assoc, String.empty_append, String.append_empty]
    rw [hcut, items_append_comma, items_append_comma, ih isAllBlank_empty,
      items_pad_of_notMem hfront isAllBlank_empty hfirst]

/-- **A blank part adds nothing to a list**, wherever it stands. -/
theorem items_join_append_blank (h : isAllBlank s = true) (before after : List String) :
    items (join (before ++ s :: after)) = items (join (before ++ after)) := by
  simp only [items_join_eq_flatMap, List.flatMap_append, List.flatMap_cons, items_of_isAllBlank h,
    List.nil_append]

/-- Blanks around a part are no part of its items, wherever it stands. -/
theorem items_join_append_pad (hfront : isAllBlank front = true) (hback : isAllBlank back = true)
    (part : String) (before after : List String) :
    items (join (before ++ (front ++ part ++ back) :: after)) =
      items (join (before ++ part :: after)) := by
  simp only [items_join_eq_flatMap, List.flatMap_append, List.flatMap_cons,
    items_pad hfront hback]

/-! ## What is read -/

/-- What is left of a text without a comma is an item, unless it was blank. -/
theorem isItem_trim (h : ',' ∉ s.toList) (hne : trim s ≠ "") : IsItem (trim s) where
  trimmed := trim_trim s
  ne_empty := hne
  comma_notMem hmem := h (mem_of_mem_trim hmem)

/-- What is trimmed away at either end is blank. -/
theorem exists_eq_append_trim (s : String) : ∃ front back : String,
    s = front ++ trim s ++ back ∧ isAllBlank front = true ∧ isAllBlank back = true := by
  obtain ⟨front, back, hs, hfront, hback⟩ := exists_eq_append_strip isBlank s.toList
  refine ⟨.ofList front, .ofList back, String.toList_inj.1 ?_, ?_, ?_⟩
  · rw [String.toList_append, String.toList_append, String.toList_ofList, String.toList_ofList,
      toList_trim, trimmed_eq_strip]
    exact hs
  · rw [isAllBlank, String.toList_ofList]
    exact List.all_eq_true.2 hfront
  · rw [isAllBlank, String.toList_ofList]
    exact List.all_eq_true.2 hback

/-- A text without a comma spells its one entry, or nothing. -/
theorem spells_of_notMem (h : ',' ∉ s.toList) : Spells s (items s) := by
  rw [items_of_notMem h]
  by_cases hblank : trim s = ""
  · rw [hblank]
    exact .blank (isAllBlank_iff.2 hblank)
  · rw [List.filter_eq_self.2 (by simpa using hblank)]
    obtain ⟨front, back, hcut, hfront, hback⟩ := exists_eq_append_trim s
    have hspells := Spells.name hfront (isItem_trim h hblank) hback
    rwa [← hcut] at hspells

/-- Every text spells what is read of it. -/
theorem spells_items (s : String) : Spells s (items s) := by
  induction s using comma_induction with
  | single s hs => exact spells_of_notMem hs
  | comma first rest hfirst ih =>
    rw [items_append_comma]
    exact .comma (spells_of_notMem hfirst) ih

/-- An item lists itself. -/
theorem items_of_isItem (h : IsItem name) : items name = [name] := by
  rw [items_of_notMem h.comma_notMem, h.trimmed]
  exact List.filter_eq_self.2 (by simpa using h.ne_empty)

/-- **A text spells the names that are read of it and no others.** -/
theorem items_eq_iff : items s = names ↔ Spells s names := by
  refine ⟨fun h => h ▸ spells_items s, fun h => ?_⟩
  induction h with
  | blank h => exact items_of_isAllBlank h
  | name hfront hname hback => rw [items_pad hfront hback, items_of_isItem hname]
  | comma _ _ ihFirst ihRest => rw [items_append_comma, ihFirst, ihRest]

/-- Whatever is spelled is a list of items. -/
theorem Spells.forall_isItem (h : Spells s names) : ∀ name ∈ names, IsItem name := by
  induction h with
  | blank => exact List.forall_mem_nil _
  | name _ hname _ => exact List.forall_mem_singleton.2 hname
  | comma _ _ ihFirst ihRest => exact List.forall_mem_append.2 ⟨ihFirst, ihRest⟩

/-- **What is read of any text are items.** -/
theorem forall_isItem_items (s : String) : ∀ name ∈ items s, IsItem name :=
  (spells_items s).forall_isItem

/-- **A list that is written of items has these items.** -/
theorem items_join_of_isItem (h : ∀ name ∈ names, IsItem name) : items (join names) = names := by
  have hitems : names.flatMap items = names.flatMap fun name => [name] :=
    List.flatMap_congr fun name hname => items_of_isItem (h name hname)
  rw [items_join_eq_flatMap, hitems, List.flatMap_singleton']

/-- What was read once may be written and read again. -/
theorem items_join_items (s : String) : items (join (items s)) = items s :=
  items_join_of_isItem (forall_isItem_items s)

end Waybill.CommaList

namespace Waybill

open Text CommaList

/-! ## Where lists are read -/

/-- A list in settings is the list of the text under its key. -/
theorem KeyMap.items_of_get? {config : Properties} {key raw : String}
    (h : config.get? key = some raw) : config.items key = CommaList.items raw := by
  rw [KeyMap.items, h]
  rfl

theorem Flow.get?_withSetting (f : Flow) (key value key' : String) :
    (f.withSetting key value).config.get? key' =
      if key' = key then some value else f.config.get? key' :=
  KeyMap.get?_insert _ _ _ _

/-- The templates that are written into a flow are those that it asks for. -/
theorem Flow.templates_withTemplates {names : List String} (h : ∀ name ∈ names, IsItem name)
    (f : Flow) : (f.withTemplates names).templates = names := by
  have hget : (f.withTemplates names).config.get? Setting.templates = some (join names) :=
    (f.get?_withSetting _ _ _).trans (if_pos rfl)
  rw [Flow.templates, KeyMap.items_of_get? hget, items_join_of_isItem h]

namespace Network

variable {n : Network} {path source sink : String} {nodes : List String} {es : List Edge}

/-- Edges that are taken along some nodes pass just these. -/
theorem Takes.nodes_eq (h : n.Takes nodes es) (hlast : nodes.getLast? = some sink) :
    nodes = es.map (·.source) ++ [sink] := by
  induction nodes generalizing es with
  | nil => cases hlast
  | cons a nodes ih =>
    rcases nodes with _ | ⟨b, nodes⟩
    · cases h
      cases hlast
      rfl
    · obtain ⟨e, es', ⟨-, hsource, -, -⟩, hrest, rfl⟩ := List.forall₂_cons_left_iff.1 h
      rw [List.getLast?_cons_cons] at hlast
      rw [List.map_cons, List.cons_append, ← ih hrest hlast, hsource]

/-- A path that is taken leads along the names that are read of it. -/
theorem WellFormed.items_of_verifyPath (h : n.WellFormed)
    (hpath : n.verifyPath path source sink = .ok es) :
    CommaList.items path = es.map (·.source) ++ [sink] := by
  obtain ⟨-, -, hlast, -⟩ := verifyPath_eq_ok_iff.1 hpath
  exact (h.takes_of_verifyPath hpath).nodes_eq hlast

/-- A path is taken or refused by the names that are read of it; a refusal tells the text. -/
theorem verifyPath_eq_follow (n : Network) (path source sink : String) :
    n.verifyPath path source sink =
      (n.follow (CommaList.items path) source sink).mapError (.invalidPath path) := by
  unfold verifyPath
  rcases n.follow (CommaList.items path) source sink with fault | es <;> rfl

end Network

namespace CommaList

/-- **Writing names as one text and reading them again loses nothing, and reading leaves nothing
but names.** A written list of items is read as these items, also as the templates of a flow. Of
any text just those names are read that it spells, items all of them and in its order, and their
own list is read as them again; blanks around a part of it, and parts that are blank, make no
difference. A path to take is read as a setting would be: whether it can be taken is asked of
these names, and the edges that are taken pass them one after another. -/
theorem items_exact :
    (∀ names, (∀ name ∈ names, IsItem name) →
      items (join names) = names ∧ ∀ f : Flow, (f.withTemplates names).templates = names) ∧
    (∀ raw names, items raw = names ↔ Spells raw names) ∧
    (∀ raw, (∀ name ∈ items raw, IsItem name) ∧ items (join (items raw)) = items raw) ∧
    (∀ before after part front back, isAllBlank front = true → isAllBlank back = true →
      items (join (before ++ (front ++ part ++ back) :: after)) =
        items (join (before ++ part :: after)) ∧
      items (join (before ++ front :: after)) = items (join (before ++ after))) ∧
    ∀ (config : Properties) key raw, config.get? key = some raw →
      config.items key = items raw ∧
      ∀ ops source sink,
        (Network.after ops).verifyPath raw source sink =
          ((Network.after ops).follow (config.items key) source sink).mapError
            (.invalidPath raw) ∧
        ∀ es, (Network.after ops).verifyPath raw source sink = .ok es →
          config.items key = es.map (·.source) ++ [sink] := by
  refine ⟨fun names h => ⟨items_join_of_isItem h, Flow.templates_withTemplates h⟩,
    fun raw names => items_eq_iff, fun raw => ⟨forall_isItem_items raw, items_join_items raw⟩,
    fun before after part front back hfront hback => ⟨items_join_append_pad hfront hback _ _ _,
      items_join_append_blank hfront _ _⟩, fun config key raw hraw => ?_⟩
  rw [KeyMap.items_of_get? hraw]
  refine ⟨rfl, fun ops source sink => ⟨Network.verifyPath_eq_follow _ _ _ _, fun es hes => ?_⟩⟩
  exact (Network.wellFormed_after ops).items_of_verifyPath hes

/-- A list that is padded in many ways, with white space outside ASCII too. -/
def paddedList : String := " a,, \u2003b\u0085,"

theorem isItem_a_b : ∀ name ∈ ["a", "b"], IsItem name := by
  simp only [List.forall_mem_cons]
  exact ⟨⟨by decide, by decide, by decide⟩, ⟨by decide, by decide, by decide⟩,
    List.forall_mem_nil _⟩

theorem spells_paddedList : Spells paddedList ["a", "b"] := items_eq_iff.1 (by decide)

/-- What the padded list spells is read of it, written, and taken as a path. -/
theorem items_exact_padded :
    (Planner.loneFlow.withTemplates ["a", "b"]).templates = ["a", "b"] ∧
    items paddedList = ["a", "b"] ∧
    items (join ["\u3000a\t", "b"]) = items (join ["a", "b"]) ∧
    (KeyMap.ofList [(Setting.flowPath, paddedList)]).items Setting.flowPath = ["a", "b"] ∧
    ∃ es, (Network.after [.addEdge Network.single]).verifyPath paddedList "a" "b" = .ok es ∧
      ["a", "b"] = es.map (·.source) ++ ["b"] := by
  obtain ⟨hwritten, hspelled, -, hpadded, hset⟩ := items_exact
  have hitems : items paddedList = ["a", "b"] := (hspelled _ _).2 spells_paddedList
  have hget : (KeyMap.ofList [(Setting.flowPath, paddedList)]).get? Setting.flowPath =
      some paddedList := by decide
  obtain ⟨hread, hpath⟩ := hset _ _ _ hget
  obtain ⟨es, hes⟩ := (Network.wellFormed_after [.addEdge Network.single]).exists_verifyPath_iff.2
    (hitems ▸ Network.passable_after_single.1 : Network.Passable _ (items paddedList) "a" "b")
  refine ⟨(hwritten _ isItem_a_b).2 Planner.loneFlow, hitems,
    (hpadded [] ["b"] "a" "\u3000" "\t" (by decide) (by decide)).1, hread.trans hitems, es, hes, ?_⟩
  rw [← (hpath _ _ _).2 es hes, hread, hitems]

end CommaList

end Waybill
