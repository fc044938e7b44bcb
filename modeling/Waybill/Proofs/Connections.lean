import Waybill.Policy.Declaration
import Waybill.Proofs.Ascii

/-!
# How connections and overrides are written

A connection is written in three parts and an override in two, and which text is one is told by
where it is cut (`EdgeId.parse_eq_ok_iff`, `Override.parse_eq_ok_iff`). The names of a connection
hold no colon and the number of an override holds no equals sign (`equals_notMem_of_read?`), so
the engine may hold both. Blanks around a part are no part of it; so what is written of an edge
reads back as that edge (`EdgeId.parse_write`).
-/

namespace Waybill

open Text

/-! ## Connections -/

namespace EdgeId

variable {s source target engine : String} {id : EdgeId}

/-- The three texts that a connection is written with, padded with blanks at will. -/
structure WrittenAs (id : EdgeId) (source target engine : String) : Prop where
  noColon_source : ':' ∉ source.toList
  noColon_target : ':' ∉ target.toList
  trim_source : trim source = id.source
  trim_target : trim target = id.target
  source_ne : id.source ≠ ""
  target_ne : id.target ≠ ""
  parse_engine : Url.parse (trim engine) = .ok id.engine.uri

theorem parts?_eq (cs : List Char) : parts? cs =
    (cutAtFirst? ':' cs).bind fun (source, rest) => (cutAtFirst? ':' rest).map
      fun (target, engine) => (trimmed source, trimmed target, trimmed engine) := by
  have hcolon : isBlank ':' = false := by decide
  unfold parts?
  rw [trimmed_eq_strip, cutAtFirst?_strip hcolon]
  rcases cutAtFirst? ':' cs with _ | ⟨source, rest⟩
  · rfl
  simp only [Option.map_some, Option.bind_eq_bind, Option.bind_some,
    cutAtFirst?_dropEndWhile hcolon]
  rcases cutAtFirst? ':' rest with _ | ⟨target, engine⟩
  · rfl
  simp only [Option.map_some, Option.bind_some, trimmed_eq_strip, strip_dropWhile,
    strip_dropEndWhile]
  rfl

/-- A text has the parts that are cut off so; more colons belong to the engine. -/
theorem parts?_eq_some_iff {cs a b c : List Char} : parts? cs = some (a, b, c) ↔
    ∃ source target engine, cs = source ++ ':' :: (target ++ ':' :: engine) ∧ ':' ∉ source ∧
      ':' ∉ target ∧ trimmed source = a ∧ trimmed target = b ∧ trimmed engine = c := by
  rw [parts?_eq, Option.bind_eq_some_iff]
  constructor
  · rintro ⟨⟨source, rest⟩, hfirst, h⟩
    obtain ⟨⟨target, engine⟩, hsecond, heq⟩ := Option.map_eq_some_iff.1 h
    obtain ⟨rfl, hsource⟩ := cutAtFirst?_eq_some_iff.1 hfirst
    obtain ⟨rfl, htarget⟩ := cutAtFirst?_eq_some_iff.1 hsecond
    cases heq
    exact ⟨source, target, engine, rfl, hsource, htarget, rfl, rfl, rfl⟩
  · rintro ⟨source, target, engine, rfl, hsource, htarget, rfl, rfl, rfl⟩
    exact ⟨_, cutAtFirst?_eq_some_iff.2 ⟨rfl, hsource⟩,
      Option.map_eq_some_iff.2 ⟨_, cutAtFirst?_eq_some_iff.2 ⟨rfl, htarget⟩, rfl⟩⟩

/-- Blanks around a connection are no part of it. -/
theorem parse_trim (s : String) : parse (trim s) = parse s := by
  have hparts : parts? (trim s).toList = parts? s.toList := by
    simp only [parts?, toList_trim, trimmed_eq_strip, strip_strip]
  rw [parse, hparts, parse]

/-- Blanks around a connection make no difference. -/
theorem parse_congr {t : String} (h : trim s = trim t) : parse s = parse t := by
  rw [← parse_trim s, h, parse_trim]

theorem engine_parse_eq_ok_iff {s : String} {engine : Engine} :
    Engine.parse s = .ok engine ↔ Url.parse s = .ok engine.uri := by
  obtain ⟨uri'⟩ := engine
  unfold Engine.parse
  rcases Url.parse s with cause | uri
  · exact iff_of_false nofun nofun
  · rw [Except.ok.injEq, Except.ok.injEq, Engine.mk.injEq]

/-- **A text is a connection just if it is written in three parts**, of which the first two hold
no colon. -/
theorem parse_eq_ok_iff : parse s = .ok id ↔
    ∃ source target engine, s = source ++ ":" ++ target ++ ":" ++ engine ∧
      id.WrittenAs source target engine := by
  constructor
  · intro h
    unfold parse at h
    split at h
    · cases h
    next a b c hparts =>
    obtain ⟨source, target, engine, hs, hsource, htarget, rfl, rfl, rfl⟩ :=
      parts?_eq_some_iff.1 hparts
    split at h
    · cases h
    next hne =>
    obtain ⟨hne₁, hne₂, -⟩ : trimmed source ≠ [] ∧ trimmed target ≠ [] ∧ trimmed engine ≠ [] := by
      simpa only [not_or] using hne
    split at h
    · cases h
    next e hengine =>
    cases h
    refine ⟨String.ofList source, String.ofList target, String.ofList engine, ?_, ?_⟩
    · rw [← String.toList_inj, hs]
      simp
    · exact {
        noColon_source := by rwa [String.toList_ofList]
        noColon_target := by rwa [String.toList_ofList]
        trim_source := trim_ofList source
        trim_target := trim_ofList target
        source_ne := fun h => hne₁ (String.ofList_eq_empty_iff.1 h)
        target_ne := fun h => hne₂ (String.ofList_eq_empty_iff.1 h)
        parse_engine := by
          rw [trim_ofList]
          exact engine_parse_eq_ok_iff.1 hengine }
  · rintro ⟨source, target, engine, rfl, h⟩
    -- colons of the engine stand behind both cuts
    have hparts : parts? (source ++ ":" ++ target ++ ":" ++ engine).toList =
        some (trimmed source.toList, trimmed target.toList, trimmed engine.toList) := by
      refine parts?_eq_some_iff.2 ⟨source.toList, target.toList, engine.toList, ?_,
        h.noColon_source, h.noColon_target, rfl, rfl, rfl⟩
      simp
    have hsource : trimmed source.toList ≠ [] := fun hnil =>
      h.source_ne (h.trim_source ▸ String.ofList_eq_empty_iff.2 hnil)
    have htarget : trimmed target.toList ≠ [] := fun hnil =>
      h.target_ne (h.trim_target ▸ String.ofList_eq_empty_iff.2 hnil)
    have hengine : trimmed engine.toList ≠ [] := by
      intro hnil
      have hparse := h.parse_engine
      rw [trim, hnil] at hparse
      cases hparse
    have hok : Engine.parse (String.ofList (trimmed engine.toList)) = .ok id.engine :=
      engine_parse_eq_ok_iff.2 h.parse_engine
    unfold parse
    rw [hparts]
    simp only [hsource, htarget, hengine, or_self, if_false, hok]
    rw [← trim, ← trim, h.trim_source, h.trim_target]

/-- A name that may stand in a connection. -/
structure Speakable (name : String) : Prop where
  ne_empty : name ≠ ""
  trim_eq : trim name = name
  noColon : ':' ∉ name.toList

/-- A name that is read has been trimmed, and had no colon before. -/
theorem speakable_of_trim {part name : String} (htrim : trim part = name) (hne : name ≠ "")
    (hcolon : ':' ∉ part.toList) : Speakable name := by
  subst htrim
  exact ⟨hne, trim_trim part, fun hmem => hcolon (mem_of_mem_trim hmem)⟩

/-- The nodes of a connection that was read can be written into one. -/
theorem speakable_of_parse (h : parse s = .ok id) : Speakable id.source ∧ Speakable id.target := by
  obtain ⟨source, target, engine, -, h⟩ := parse_eq_ok_iff.1 h
  exact ⟨speakable_of_trim h.trim_source h.source_ne h.noColon_source,
    speakable_of_trim h.trim_target h.target_ne h.noColon_target⟩

/-- **What is written of an edge reads back as that edge**, if its names may stand there. -/
theorem parse_write (hsource : Speakable id.source) (htarget : Speakable id.target)
    (hengine : id.engine.uri.Rereads) : parse id.write = .ok id := by
  refine parse_eq_ok_iff.2 ⟨id.source, id.target, id.engine.write, rfl, ?_⟩
  exact ⟨hsource.noColon, htarget.noColon, hsource.trim_eq, htarget.trim_eq, hsource.ne_empty,
    htarget.ne_empty, hengine.parse_trim⟩

/-- No connection is read from a text without a colon. -/
theorem colon_mem_of_parse (h : parse s = .ok id) : ':' ∈ s.toList := by
  obtain ⟨source, target, engine, rfl, -⟩ := parse_eq_ok_iff.1 h
  simp

end EdgeId

/-! ## Overrides -/

namespace Decimal

theorem equals_notMem_of_readWord? {cs : List Char} {x : Float} (h : readWord? cs = some x) :
    '=' ∉ cs := by
  intro hmem
  have hlower : '=' ∈ cs.map Char.toLower := List.mem_map.2 ⟨'=', hmem, by decide⟩
  have hword : ∀ word : String, '=' ∉ word.toList → String.ofList (cs.map Char.toLower) ≠ word := by
    rintro word hnot rfl
    rw [String.toList_ofList] at hnot
    exact hnot hlower
  unfold readWord? at h
  simp only [hword "inf" (by decide), hword "infinity" (by decide), hword "nan" (by decide),
    or_self, if_false] at h
  cases h

theorem mem_of_digitSpan {c : Char} {cs : List Char} (hc : c.isDigit = false) (hmem : c ∈ cs) :
    c ∈ (digitSpan cs).2 := by
  rw [digitSpan, List.span_eq_takeWhile_dropWhile]
  rw [← List.takeWhile_append_dropWhile (p := Char.isDigit) (l := cs)] at hmem
  refine (List.mem_append.1 hmem).resolve_left fun htake => ?_
  rw [List.mem_takeWhile_imp htake] at hc
  cases hc

/-- What stands behind a sign is all there is but the sign. -/
theorem mem_of_sign {c : Char} {cs rest : List Char} {negative : Bool}
    (h : (match cs with
      | '+' :: r => (false, r)
      | '-' :: r => (true, r)
      | r => (false, r)) = (negative, rest))
    (hplus : c ≠ '+') (hminus : c ≠ '-') (hmem : c ∈ cs) : c ∈ rest := by
  split at h <;> cases h
  · exact (List.mem_cons.1 hmem).resolve_left hplus
  · exact (List.mem_cons.1 hmem).resolve_left hminus
  · exact hmem

theorem equals_notMem_of_readExponent? {cs : List Char} {n : Int} (h : readExponent? cs = some n) :
    '=' ∉ cs := by
  intro hmem
  unfold readExponent? at h
  split at h
  next negative rest hsign =>
  have hrest : '=' ∈ (digitSpan rest).2 :=
    mem_of_digitSpan (by decide) (mem_of_sign hsign (by decide) (by decide) hmem)
  split at h
  · cases h
  · next digits hdigits =>
    rw [hdigits] at hrest
    cases hrest
  · cases h

theorem equals_notMem_of_finish (finish : Int → Numeral) {r : List Char} {n : Numeral}
    (h : (match r with
      | [] => some (finish 0)
      | c :: r => if c = 'e' ∨ c = 'E' then (readExponent? r).map finish else none) = some n) :
    '=' ∉ r := by
  split at h
  · exact List.not_mem_nil
  · split at h
    · next hmark =>
      obtain ⟨exponent, hexponent, -⟩ := Option.map_eq_some_iff.1 h
      refine List.not_mem_cons_of_ne_of_not_mem ?_ (equals_notMem_of_readExponent? hexponent)
      rintro rfl
      revert hmark
      decide
    · cases h

/-- Nor in a numeral, so that an override is cut at its last one. -/
theorem equals_notMem_of_readUnsigned? {negative : Bool} {cs : List Char} {n : Numeral}
    (h : readUnsigned? negative cs = some n) : '=' ∉ cs := by
  intro hmem
  -- Digits hold no equals sign, so it is carried on behind them until it must be read.
  have hbehind : '=' ∈ (digitSpan cs).2 := mem_of_digitSpan (by decide) hmem
  unfold readUnsigned? at h
  rcases hwhole : digitSpan cs with ⟨whole, r⟩
  rw [hwhole] at h hbehind
  dsimp only at h hbehind
  split at h
  · next r' =>
    have hfraction : '=' ∈ r' := (List.mem_cons.1 hbehind).resolve_left (by decide)
    have hrest : '=' ∈ (digitSpan r').2 := mem_of_digitSpan (by decide) hfraction
    split at h
    · cases h
    · let fraction := (digitSpan r').1
      exact equals_notMem_of_finish (fun exponent => ⟨negative, ofDigits (whole ++ fraction),
        exponent - fraction.length⟩) h hrest
  · split at h
    · cases h
    · exact equals_notMem_of_finish (fun exponent => ⟨negative, ofDigits (whole ++ []),
        exponent - ([] : List Char).length⟩) h hbehind

/-- No equals sign stands in a number. -/
theorem equals_notMem_of_read? {s : String} {x : Float} (h : read? s = some x) :
    '=' ∉ s.toList := by
  intro hmem
  unfold read? at h
  split at h
  next negative cs hsign =>
  have hcs : '=' ∈ cs := mem_of_sign hsign (by decide) (by decide) hmem
  split at h
  · next word hword => exact equals_notMem_of_readWord? hword hcs
  · obtain ⟨n, hn, -⟩ := Option.map_eq_some_iff.1 h
    exact equals_notMem_of_readUnsigned? hn hcs

end Decimal

namespace Override

variable {s : String} {o : Override}

/-- The two texts that an override is written with. -/
structure WrittenAs (o : Override) (connection weight : String) : Prop where
  noEquals_weight : '=' ∉ weight.toList
  parse_connection : EdgeId.parse connection = .ok o.edge
  read_weight : (Decimal.read? (trim weight)).bind Weight.ofFloat? = some o.weight

/-- **A text is an override just if it is written in two parts**, of which the second holds no
equals sign. -/
theorem parse_eq_ok_iff : parse s = .ok o ↔
    ∃ connection weight, s = connection ++ "=" ++ weight ∧ o.WrittenAs connection weight := by
  constructor
  · intro h
    unfold parse at h
    split at h
    · cases h
    next connection weight hcut =>
    obtain ⟨hs, hweight⟩ := cutAtLast?_eq_some_iff.1 hcut
    dsimp only at h
    split at h
    · cases h
    next value hvalue =>
    split at h
    · cases h
    next w hw =>
    split at h
    · cases h
    next edge hedge =>
    cases h
    refine ⟨String.ofList connection, String.ofList weight, ?_, ?_, hedge, ?_⟩
    · rw [← String.toList_inj, hs]
      simp
    · rwa [String.toList_ofList]
    · rw [trim_ofList, hvalue]
      exact hw
  · rintro ⟨connection, weight, rfl, h⟩
    obtain ⟨value, hvalue, hw⟩ := Option.bind_eq_some_iff.1 h.read_weight
    -- what reads as a weight has no equals sign, so the last one is that in between
    have hcut : cutAtLast? '=' (connection ++ "=" ++ weight).toList =
        some (connection.toList, weight.toList) :=
      cutAtLast?_eq_some_iff.2 ⟨by simp, h.noEquals_weight⟩
    unfold parse
    rw [hcut]
    dsimp only
    rw [← trim, hvalue]
    dsimp only
    rw [hw]
    dsimp only
    rw [String.ofList_toList, h.parse_connection]

/-- Blanks around an override are no part of it. -/
theorem parse_trim (s : String) : parse (trim s) = parse s := by
  have hequals : isBlank '=' = false := by decide
  unfold parse
  -- The text is cut at the same sign, and each part keeps its blanks on the inner side only.
  rw [toList_trim, trimmed_eq_strip, cutAtLast?_strip hequals]
  rcases cutAtLast? '=' s.toList with _ | ⟨connection, weight⟩
  · rfl
  have hconnection : EdgeId.parse (String.ofList (connection.dropWhile isBlank)) =
      EdgeId.parse (String.ofList connection) := by
    refine EdgeId.parse_congr ?_
    rw [trim_ofList, trim_ofList, trimmed_eq_strip, trimmed_eq_strip, strip_dropWhile]
  simp only [Option.map_some, trimmed_eq_strip, strip_dropEndWhile, hconnection]

/-- **An override is a connection and a number** behind an equals sign. The connection may hold
equals signs of its own. -/
theorem parse_append {connection weight : String} {id : EdgeId} {x : Float} {w : Weight}
    (hconnection : EdgeId.parse connection = .ok id)
    (hread : Decimal.read? (trim weight) = some x) (hweight : Weight.ofFloat? x = some w) :
    parse (connection ++ "=" ++ weight) = .ok ⟨id, w⟩ := by
  refine parse_eq_ok_iff.2 ⟨connection, weight, rfl, ?_, hconnection, ?_⟩
  · exact fun hmem => Decimal.equals_notMem_of_read? hread (mem_trim_of_mem hmem (by decide))
  · rw [hread]
    exact hweight

theorem equals_mem_of_parse (h : parse s = .ok o) : '=' ∈ s.toList := by
  obtain ⟨connection, weight, rfl, -⟩ := parse_eq_ok_iff.1 h
  simp

end Override

end Waybill
