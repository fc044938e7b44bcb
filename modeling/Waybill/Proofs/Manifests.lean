import Waybill.Manifest
import Waybill.Proofs.Documents

/-!
# Manifests read back

What is written of a manifest is a manifest again, and the same one (`Manifest.readsBack_written`).
An offer does not write what it does not say, and then it is the reading side that has to fill in
that nothing was said: a field that is passed over in writing is one that may be missing, and the
value that it has where it is missing is the one that was passed over
(`Field.Assigns.cons_omittedIf`).
-/

namespace Waybill

open Json
open Codec (recovers_text recovers_map recovers_float recovers_list recovers_nullable)

/-! ## Each manifest is recovered -/

/-- The weight of the offer reads back, if it has one. -/
def OfferEntry.Rereads (o : OfferEntry) : Prop :=
  ∀ weight ∈ o.weight, Codec.float.read (Codec.float.write weight) = .ok weight

/-- The weights of all offers in the manifest read back. -/
def TopologyManifest.Rereads (m : TopologyManifest) : Prop :=
  ∀ t ∈ m.topologies, ∀ o ∈ t.offers, o.Rereads

/-- A map without entries is the empty one, which is what is left out in writing. -/
theorem KeyMap.eq_empty_of_isEmpty {α : Type} {m : KeyMap α} (h : m.isEmpty = true) :
    m = .empty := by
  obtain ⟨entries, _⟩ := m
  obtain rfl := List.isEmpty_iff.1 h
  rfl

/-- A weight is a number and never null, so it is told from no weight. -/
theorem OfferEntry.recovers_weight {o : OfferEntry} (h : o.Rereads) :
    (Codec.nullable .float).Recovers o.weight :=
  recovers_nullable (fun weight hweight => recovers_float (h weight hweight)) nofun

/-- An offer recovers, also where its weight or its properties are left out. -/
theorem OfferEntry.recovers {o : OfferEntry} (h : o.Rereads) :
    OfferEntry.schema.codec.Recovers o := by
  refine Schema.recovers (by decide) <|
    .cons (Field.carries_of (recovers_text _) _ _ _) <|
    .cons (Field.carries_of (recovers_text _) _ _ _) <|
    .cons_omittedIf (OfferEntry.recovers_weight h) _ (fun hsilent => ?_) <|
    .cons_omittedIf (recovers_map _) _ (fun hsilent => ?_) (.nil _)
  · rw [Option.isNone_iff_eq_none.1 hsilent]
    rfl
  · rw [KeyMap.eq_empty_of_isEmpty hsilent]
    rfl

theorem TopologyEntry.recovers {t : TopologyEntry} (h : ∀ o ∈ t.offers, o.Rereads) :
    TopologyEntry.schema.codec.Recovers t :=
  Schema.recovers (by decide) <|
    .cons (Field.carries_of (recovers_text _) _ _ _) <|
    .cons (Field.carries_of (recovers_text _) _ _ _) <|
    .cons (Field.carries_of (recovers_text _) _ _ _) <|
    .cons (Field.carries_of (recovers_list fun o ho => OfferEntry.recovers (h o ho)) _ _ _) (.nil _)

theorem TopologyManifest.recovers {m : TopologyManifest} (h : m.Rereads) :
    TopologyManifest.codec.Recovers m :=
  Schema.recovers (by decide) <|
    .cons (Field.carries_of (recovers_list fun t ht => TopologyEntry.recovers (h t ht)) _ _ _)
      (.nil _)

theorem Template.recovers (t : Template) : Template.codec.Recovers t :=
  Schema.recovers (by decide) <|
    .cons (Field.carries_of (recovers_text _) _ _ _) <|
    .cons (Field.carries_of (recovers_text _) _ _ _) <|
    .cons (Field.carries_of (recovers_map _) _ _ _) <|
    .cons (Field.carries_of (recovers_list fun key _ => recovers_text key) _ _ _) (.nil _)

theorem TemplateManifest.recovers (m : TemplateManifest) : TemplateManifest.codec.Recovers m :=
  Schema.recovers (by decide) <|
    .cons (Field.carries_of (recovers_list fun t _ => Template.recovers t) _ _ _) (.nil _)

theorem FlowManifest.recovers (m : FlowManifest) : FlowManifest.codec.Recovers m :=
  Schema.recovers (by decide) <|
    .cons (Field.carries_of (recovers_text _) _ _ _) <|
    .cons (Field.carries_of (recovers_text _) _ _ _) <|
    .cons (Field.carries_of (recovers_text _) _ _ _) <|
    .cons (Field.carries_of (recovers_nullable (fun path _ => recovers_text path) nofun) _ _ _) <|
    .cons (Field.carries_of (recovers_list fun uri _ => recovers_text uri) _ _ _) <|
    .cons (Field.carries_of (recovers_map _) _ _ _) <|
    .cons (Field.carries_of (recovers_text _) _ _ _) <|
    .cons (Field.carries_of (recovers_nullable (fun version _ => recovers_text version) nofun)
      _ _ _) (.nil _)

/-! ## Manifests -/

namespace Manifest

variable {α : Type} {c : Codec α} {a : α}

/-- Both texts of the value are manifests, and of this value. -/
structure ReadsBack (c : Codec α) (a : α) : Prop where
  write : ofText c (c.write a) = .ok a
  writePretty : ofText c (c.writePretty a) = .ok a

/-- What recovers is read back from both of its texts. -/
theorem readsBack_of_recovers (h : c.Recovers a) : ReadsBack c a where
  write := by rw [ofText, h.read_write]
  writePretty := by rw [ofText, h.read_writePretty]

/-- What an offer writes: its weight if it has one, and its properties if there are any. -/
theorem map_fst_members (o : OfferEntry) : (OfferEntry.schema.members o).map (·.1) =
    ["source", "target"] ++ (if o.weight.isSome then ["weight"] else []) ++
      (if o.properties = .empty then [] else ["properties"]) := by
  have hproperties : o.properties.isEmpty = true ↔ o.properties = .empty :=
    ⟨KeyMap.eq_empty_of_isEmpty, fun h => by rw [h]; rfl⟩
  obtain ⟨source, target, weight, properties⟩ := o
  simp only [← hproperties]
  cases weight <;> rcases hempty : properties.isEmpty with _ | _ <;>
    simp [Schema.members, OfferEntry.schema, Field.of, Field.omittedIf, hempty]

/-- **Whatever its texts hold, a manifest is read back from what is written of it, in one line or
over several**: topologies, templates, flows and settings. Of a weight only this is asked, that it
reads back from its own text; a weight that is not there is not written, nor are properties of
which there are none. -/
theorem readsBack_written :
    (∀ m : TopologyManifest, m.Rereads → ReadsBack TopologyManifest.codec m) ∧
    (∀ m : TemplateManifest, ReadsBack TemplateManifest.codec m) ∧
    (∀ m : FlowManifest, ReadsBack FlowManifest.codec m) ∧
    (∀ config : Properties, ReadsBack Codec.map config) ∧
    ∀ o : OfferEntry, (OfferEntry.schema.members o).map (·.1) =
      ["source", "target"] ++ (if o.weight.isSome then ["weight"] else []) ++
        (if o.properties = .empty then [] else ["properties"]) :=
  ⟨fun _ h => readsBack_of_recovers (TopologyManifest.recovers h),
    fun m => readsBack_of_recovers m.recovers, fun m => readsBack_of_recovers m.recovers,
    fun config => readsBack_of_recovers (recovers_map config), map_fst_members⟩

/-- Offers that say all, one of the two, and nothing beyond their ends. -/
def harbours : TopologyManifest where
  topologies := [
    ⟨"topology/\x22east\x22", "", "azkaban://east:8443", [
      ⟨"a", "b\n", some 2.5, .ofList [("zone", "Köln"), ("", "\\")]⟩, ⟨"a", "c", some 0, .empty⟩,
      ⟨"c", "a", none, .ofList [("k", "木")]⟩, ⟨"", "", none, .empty⟩]⟩,
    ⟨"", "idle", "not a URL", []⟩]

/-- Topologies with and without weights and properties are read back. -/
theorem readsBack_written_harbours :
    harbours.Rereads ∧
      ofText TopologyManifest.codec (TopologyManifest.codec.write harbours) = .ok harbours ∧
      ofText TopologyManifest.codec (TopologyManifest.codec.writePretty harbours) =
        .ok harbours := by
  have hweighed : ∀ o ∈ harbours.topologies.flatMap (·.offers), o.Rereads := by
    refine List.forall_mem_cons.2 ⟨?_, List.forall_mem_cons.2 ⟨?_, List.forall_mem_cons.2
      ⟨nofun, List.forall_mem_singleton.2 nofun⟩⟩⟩
    · rintro _ ⟨⟩
      rfl
    · rintro _ ⟨⟩
      rfl
  have hrereads : harbours.Rereads := fun t ht o ho =>
    hweighed o (List.mem_flatMap.2 ⟨t, ht, ho⟩)
  obtain ⟨hwrite, hpretty⟩ := readsBack_written.1 harbours hrereads
  exact ⟨hrereads, hwrite, hpretty⟩

/-- What a flow does not say has its default. -/
example : (ofText FlowManifest.codec ("\x7b\x22uri\x22: \x22flow://f\x22, " ++
    "\x22source\x22: \x22a\x22, \x22destination\x22: \x22b\x22\x7d")).toOption =
      some ⟨"flow://f", "a", "b", none, [], .empty, "", none⟩ := by
  decide +kernel

end Manifest

end Waybill
