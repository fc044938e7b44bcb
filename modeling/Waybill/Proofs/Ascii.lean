import Waybill.Proofs.Authorities
import Waybill.Proofs.EncodedPaths

/-!
# URLs are written in ASCII

Whatever text a URL is read from, it is written in ASCII and without control characters
(`isPrinted_write_of_parse`): scheme and authority are settled, and every other part is encoded. So
the blanks at the ends of a written URL are spaces, which are cleaned away before it is read, and a
URL that reads back does so trimmed (`parse_trim`).
-/

namespace Waybill.Url

open Text Percent

/-! ## All parts -/

/-- A URL each part of which is in ASCII and can be printed. -/
structure InPrint (u : Url) : Prop where
  settled : u.Settled
  path : IsPrinted u.path.write.toList
  query : ∀ query ∈ u.query, IsPrinted query.toList
  fragment : ∀ fragment ∈ u.fragment, IsPrinted fragment.toList

theorem inControls_of_isSchemeChar {c : Char} (h : isSchemeChar c = true) : inControls c = false :=
  forall_ascii (P := fun c => isSchemeChar c = true → inControls c = false) (by decide)
    (toNat_lt_of_isSchemeChar h) h

theorem Settled.isPrinted_scheme {u : Url} (h : u.Settled) : IsPrinted u.scheme.toList :=
  fun c hc => inControls_of_isSchemeChar (h.scheme.chars c hc)

/-- The authority of a settled URL is written without blanks and controls. -/
theorem Settled.isPrinted_authority {u : Url} (h : u.Settled) : IsPrinted u.authority.toList := by
  intro c hc
  have hseen := seen_of_isInAuthority (h.isInAuthority c hc)
  simp only [inControls, Bool.or_eq_false_iff, decide_eq_false_iff_not]
  omega

/-- **What can be printed is written so.** -/
theorem InPrint.write {u : Url} (h : u.InPrint) : IsPrinted u.write.toList := by
  have hbefore : IsPrinted u.beforePath.toList := by
    unfold beforePath
    split
    · rw [String.toList_append]
      exact isPrinted_append_iff.2 ⟨by decide, h.settled.isPrinted_authority⟩
    · decide
    · exact isPrinted_nil
  have hcolon : IsPrinted ":".toList := by decide
  simp only [Url.write, String.toList_append, isPrinted_append_iff]
  refine ⟨⟨⟨⟨⟨h.settled.isPrinted_scheme, hcolon⟩, hbefore⟩, h.path⟩, ?_⟩, ?_⟩
  · split
    · exact isPrinted_nil
    · next query hquery =>
      rw [String.toList_append]
      exact isPrinted_append_iff.2 ⟨by decide, h.query query hquery⟩
  · split
    · exact isPrinted_nil
    · next fragment hfragment =>
      rw [String.toList_append]
      exact isPrinted_append_iff.2 ⟨by decide, h.fragment fragment hfragment⟩

/-! ## Reading -/

theorem isPrinted_write_path (special file : Bool) (cs : List Char) :
    IsPrinted ((Course.read special file cs).path file).write.toList := by
  obtain ⟨rest, hwrite, hrest⟩ := (isEncoded_path_read special file cs).exists_write_eq
  rw [hwrite, String.toList_append]
  exact isPrinted_append_iff.2 ⟨by decide, hrest.isPrinted⟩

theorem yields_path_readHierarchical (scheme : String) (ended : Bool) (cs : List Char) :
    Yields (fun u => IsPrinted u.path.write.toList) (readHierarchical scheme ended cs) := by
  unfold readHierarchical
  extract_lets special
  split
  refine .bind (P := fun _ => True) (fun _ _ => trivial) fun a _ => ?_
  extract_lets pathText path
  refine .pure ?_
  show IsPrinted path.write.toList
  unfold path
  split
  · exact isPrinted_nil
  · exact isPrinted_write_path _ _ _

/-- **Every path that is read is written without blanks and controls.** -/
theorem yields_path_readBody (scheme : String) (ended : Bool) (cs : List Char) :
    Yields (fun u => IsPrinted u.path.write.toList) (readBody scheme ended cs) := by
  unfold readBody
  split
  · refine .bind (P := fun _ => True) (fun _ _ => trivial) fun _ _ => .pure ?_
    exact isPrinted_write_path _ _ _
  dsimp only
  split
  · exact yields_path_readHierarchical scheme ended _
  split
  · exact yields_path_readHierarchical scheme ended _
  · refine .pure ?_
    unfold readPlain
    dsimp only
    split
    · exact isPrinted_write_path _ _ _
    · show IsPrinted (String.ofList _).toList
      rw [String.toList_ofList]
      exact isPrinted_encode_inControls _

/-- A URL that was parsed is written in print throughout. -/
theorem inPrint_of_parse {s : String} {u : Url} (h : parse s = .ok u) : u.InPrint := by
  have hsettled := settled_of_parse h
  unfold parse at h
  split at h
  · cases h
  next scheme rest hscheme =>
  split at h
  next rest' fragment _ =>
  split at h
  next body query _ =>
  obtain ⟨body', hbody, h⟩ := bind_eq_ok_iff.1 h
  cases h
  have hpath := yields_path_readBody _ _ _ _ hbody
  refine ⟨hsettled, hpath, ?_, ?_⟩
  · intro text htext
    obtain ⟨cs, -, rfl⟩ := Option.map_eq_some_iff.1 htext
    rw [String.toList_ofList]
    exact isPrinted_encode_query _ _
  · intro text htext
    obtain ⟨cs, -, rfl⟩ := Option.map_eq_some_iff.1 htext
    rw [String.toList_ofList]
    exact isPrinted_encode_inFragment _

/-- **A URL that was read is written in ASCII**, without control characters. -/
theorem isPrinted_write_of_parse {s : String} {u : Url} (h : parse s = .ok u) :
    IsPrinted u.write.toList :=
  (inPrint_of_parse h).write

/-! ## Reading what was written -/

/-- A URL that is read back from its text as it is. -/
def Rereads (u : Url) : Prop := parse u.write = .ok u

theorem trimEnds_eq_strip (cs : List Char) : trimEnds cs = strip (fun c => c.toNat ≤ 0x20) cs := rfl

/-- Blanks and controls around a URL make no difference. -/
theorem parse_congr {s t : String} (h : trimEnds s.toList = trimEnds t.toList) :
    parse s = parse t := by
  unfold parse
  rw [h]

/-- In ASCII no other blanks are trimmed than those that reading cleans away. -/
theorem parse_trim {s : String} (h : IsAscii s.toList) : parse (trim s) = parse s := by
  refine parse_congr ?_
  rw [toList_trim, trimEnds_eq_strip, trimEnds_eq_strip, trimmed_eq_strip]
  refine strip_strip_of_imp fun c hc hblank => ?_
  refine forall_ascii (P := fun c => isBlank c = true → decide (c.toNat ≤ 0x20) = true)
    (by decide) (h c hc) hblank

/-- A URL that is read again is read again when its text was trimmed. -/
theorem Rereads.parse_trim {u : Url} (h : u.Rereads) : Url.parse (trim u.write) = .ok u :=
  (Url.parse_trim (isPrinted_write_of_parse h).isAscii).trans h

end Waybill.Url
