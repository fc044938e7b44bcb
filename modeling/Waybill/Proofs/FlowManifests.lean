import Waybill.Manifest
import Waybill.Proofs.CommaLists

/-!
# The flow that a manifest describes

A manifest has fields of its own for what a flow keeps among its settings. Every setting of the
flow is either what a field was written as or what the settings of the manifest say
(`get?_flowAt`); what the flow reads back of it is told from there (`Describes`). The ends are
trimmed twice over, which is no different from once, and the templates are written as one list and
cut again at every comma, also at those that a name had of its own
(`CommaList.items_join_eq_flatMap`).
-/

namespace Waybill

open Text

/-! ## Settings that are read back -/

namespace Flow

variable {f : Flow} {key raw : String}

theorem node_of_get? (h : f.config.get? key = some raw) (hblank : trim raw ≠ "") :
    f.node key = .ok (trim raw) := by
  have hname : f.config.nonBlank? key = some (trim raw) :=
    KeyMap.nonBlank?_eq_some_iff.2 ⟨raw, h, hblank, rfl⟩
  rw [node, hname]

end Flow

namespace KeyMap

variable {config config' : Properties} {key raw : String}

theorem nonBlank?_of_get? (h : config.get? key = some raw) :
    config.nonBlank? key = if trim raw = "" then none else some (trim raw) := by
  rw [nonBlank?, h, Option.map_some, Option.filter_some]
  by_cases hblank : trim raw = "" <;> simp [hblank]

theorem nonBlank?_congr (h : config.get? key = config'.get? key) :
    config.nonBlank? key = config'.nonBlank? key := by
  rw [nonBlank?, nonBlank?, h]

theorem items_congr (h : config.get? key = config'.get? key) :
    config.items key = config'.items key := by
  rw [items, items, h]

end KeyMap

namespace FlowManifest

/-! ## What becomes of the settings -/

section Settings

variable (m : FlowManifest) (f : Flow) (key : String)

/-- A path is set under its key and goes before the setting there. -/
theorem get?_addPath (path : Option String) : (addPath path f).config.get? key =
    if key = Setting.flowPath then path.or (f.config.get? key) else f.config.get? key := by
  rcases path with _ | path
  · rw [Option.none_or, ite_self]
    rfl
  · exact f.get?_withSetting _ path key

/-- Templates are joined under their key, unless there are none. -/
theorem get?_addTemplates (uris : List String) : (addTemplates uris f).config.get? key =
    if key = Setting.templates ∧ uris ≠ [] then some (CommaList.join uris)
    else f.config.get? key := by
  rcases uris with _ | ⟨uri, uris⟩
  · rw [if_neg fun h => h.2 rfl]
    rfl
  · simp only [ne_eq, reduceCtorEq, not_false_eq_true, and_true]
    exact f.get?_withSetting _ _ key

/-- The flow that a manifest describes, at the URL that is read of it. -/
def flowAt (uri : Url) : Flow :=
  addTemplates m.templates (addPath m.path
    (((⟨uri, m.config, m.description, m.version.getD Flow.defaultVersion⟩ : Flow).withSource
      (trim m.source)).withDestination (trim m.destination)))

/-- **Fields go before settings**, and the fields for the ends are always there. -/
theorem get?_flowAt (uri : Url) : (m.flowAt uri).config.get? key =
    if key = Setting.templates ∧ m.templates ≠ [] then some (CommaList.join m.templates)
    else if key = Setting.flowPath then m.path.or (m.config.get? key)
    else if key = Setting.destination then some (trim m.destination)
    else if key = Setting.source then some (trim m.source)
    else m.config.get? key := by
  rw [flowAt, get?_addTemplates, get?_addPath, Flow.withDestination, Flow.get?_withSetting,
    Flow.withSource, Flow.get?_withSetting]
  by_cases hpath : key = Setting.flowPath
  · -- the path has a key of its own
    have hdestination : Setting.flowPath ≠ Setting.destination := by decide
    have hsource : Setting.flowPath ≠ Setting.source := by decide
    rw [hpath, if_neg hdestination, if_neg hsource]
  · rw [if_neg hpath, if_neg hpath]

/-- The fields for settings leave the rest of the flow as it is. -/
theorem exists_config_flowAt (uri : Url) : ∃ config, m.flowAt uri =
    ⟨uri, config, m.description, m.version.getD Flow.defaultVersion⟩ := by
  unfold flowAt
  rcases m.path with _ | path <;> rcases m.templates with _ | ⟨first, rest⟩ <;> exact ⟨_, rfl⟩

end Settings

/-! ## Paths -/

/-- The manifest with a path of its own. -/
def withPath (m : FlowManifest) (path : String) : FlowManifest := { m with path := some path }

/-- A path on the command line is set like a path in the manifest. -/
theorem flowAt_withPath (m : FlowManifest) (path : String) (uri : Url) :
    (m.withPath path).flowAt uri = (m.flowAt uri).withPath path := by
  have hget : ∀ key, ((m.withPath path).flowAt uri).config.get? key =
      ((m.flowAt uri).withPath path).config.get? key := by
    intro key
    rw [Flow.withPath, Flow.get?_withSetting, get?_flowAt, get?_flowAt]
    by_cases hpath : key = Setting.flowPath
    · -- the path has a key of its own
      have hne : Setting.flowPath ≠ Setting.templates := by decide
      rw [hpath, if_neg fun h => hne h.1, if_pos rfl, if_pos rfl]
      rfl
    · rw [if_neg hpath, if_neg hpath, if_neg hpath]
      rfl
  have hconfig := KeyMap.ext_get? hget
  obtain ⟨config, hrest⟩ := m.exists_config_flowAt uri
  obtain ⟨config', hrest'⟩ := (m.withPath path).exists_config_flowAt uri
  rw [hrest, hrest'] at hconfig ⊢
  rw [Flow.withPath, Flow.withSetting] at hconfig ⊢
  exact congrArg (Flow.mk uri · m.description _) hconfig

/-- **To set the path of a flow is to set it in the manifest.** -/
theorem toFlow_withPath (m : FlowManifest) (path : String) :
    (m.withPath path).toFlow = m.toFlow.map (·.withPath path) := by
  have hat := m.flowAt_withPath path
  unfold toFlow
  by_cases hblank : isAllBlank m.source ∨ isAllBlank m.destination
  · rw [if_pos hblank]
    exact if_pos hblank
  · rw [if_neg hblank]
    refine (if_neg hblank).trans ?_
    rw [show (m.withPath path).uri = m.uri from rfl]
    rcases Url.parse m.uri with cause | uri
    · rfl
    · exact congrArg Except.ok (hat uri)

/-! ## What is read back -/

/-- A flow says what a manifest says: its fields as they are read, and its settings under all
other keys. -/
structure Describes (m : FlowManifest) (f : Flow) : Prop where
  uri : Url.parse m.uri = .ok f.uri
  description : f.description = m.description
  version : f.version = m.version.getD "1"
  source : f.source = .ok (trim m.source)
  destination : f.destination = .ok (trim m.destination)
  /-- A path that is given counts, also if it is blank: then the flow names none. -/
  path_given : ∀ path, m.path = some path →
    f.path? = if trim path = "" then none else some (trim path)
  path_kept : m.path = none → f.path? = m.config.nonBlank? Setting.flowPath
  /-- Templates that are given are cut at their commas. -/
  templates_given : m.templates ≠ [] → f.templates = m.templates.flatMap CommaList.items
  templates_plain : m.templates ≠ [] →
    (∀ uri ∈ m.templates, trim uri = uri ∧ uri ≠ "" ∧ ',' ∉ uri.toList) →
      f.templates = m.templates
  templates_kept : m.templates = [] → f.templates = m.config.items Setting.templates
  /-- A setting that no field speaks for is kept, or is missing as before. -/
  kept : ∀ key, key ≠ Setting.source → key ≠ Setting.destination →
    (key = Setting.flowPath → m.path = none) → (key = Setting.templates → m.templates = []) →
      f.config.get? key = m.config.get? key

variable {m : FlowManifest}

/-- Names without blanks around them and without commas are the items of their list. -/
theorem flatMap_items_eq_self {uris : List String}
    (h : ∀ uri ∈ uris, trim uri = uri ∧ uri ≠ "" ∧ ',' ∉ uri.toList) :
    uris.flatMap CommaList.items = uris := by
  rw [← CommaList.items_join_eq_flatMap]
  exact CommaList.items_join_of_isItem fun uri huri =>
    ⟨(h uri huri).1, (h uri huri).2.1, (h uri huri).2.2⟩

/-- A flow that is made of a manifest is what the manifest describes. -/
theorem describes_flowAt {uri : Url} (huri : Url.parse m.uri = .ok uri)
    (hsource : trim m.source ≠ "") (hdestination : trim m.destination ≠ "") :
    m.Describes (m.flowAt uri) := by
  obtain ⟨config, hrest⟩ := m.exists_config_flowAt uri
  have hget := fun key => m.get?_flowAt key uri
  have hgetSource : (m.flowAt uri).config.get? Setting.source = some (trim m.source) := hget _
  have hgetDestination : (m.flowAt uri).config.get? Setting.destination =
      some (trim m.destination) := hget _
  have hgetPath : (m.flowAt uri).config.get? Setting.flowPath =
      m.path.or (m.config.get? Setting.flowPath) := hget _
  have hgiven : m.templates ≠ [] →
      (m.flowAt uri).templates = m.templates.flatMap CommaList.items := by
    intro hne
    have hgetTemplates := hget Setting.templates
    rw [if_pos ⟨rfl, hne⟩] at hgetTemplates
    rw [Flow.templates, KeyMap.items, hgetTemplates, ← CommaList.items_join_eq_flatMap]
    rfl
  constructor
  case uri => rw [huri, hrest]
  case description => rw [hrest]
  case version => rw [hrest, Flow.defaultVersion]
  case source =>
    rw [Flow.source, Flow.node_of_get? hgetSource (by rwa [trim_trim]), trim_trim]
  case destination =>
    rw [Flow.destination, Flow.node_of_get? hgetDestination (by rwa [trim_trim]), trim_trim]
  case path_given =>
    intro path hpath
    rw [hpath, Option.some_or] at hgetPath
    exact KeyMap.nonBlank?_of_get? hgetPath
  case path_kept =>
    intro hpath
    rw [hpath, Option.none_or] at hgetPath
    exact KeyMap.nonBlank?_congr hgetPath
  case templates_given => exact hgiven
  case templates_plain => exact fun hne hplain => (hgiven hne).trans (flatMap_items_eq_self hplain)
  case templates_kept =>
    intro hnil
    have hgetTemplates := hget Setting.templates
    rw [hnil] at hgetTemplates
    exact KeyMap.items_congr hgetTemplates
  case kept =>
    intro key hsource hdestination hpath htemplates
    rw [hget, if_neg hdestination, if_neg hsource]
    split
    · next hgiven => exact absurd (htemplates hgiven.1) hgiven.2
    · split
      · next hkey => rw [hpath hkey, Option.none_or]
      · rfl

/-! ## Which manifests describe a flow -/

/-- **A manifest names both ends or describes no flow**; then its URL decides. -/
theorem toFlow_cases (m : FlowManifest) :
    ((trim m.source = "" ∨ trim m.destination = "") ∧ m.toFlow = .error .blankEnd) ∨
    (trim m.source ≠ "" ∧ trim m.destination ≠ "") ∧
      ((∃ cause, Url.parse m.uri = .error cause ∧ m.toFlow = .error (.badUrl m.uri cause)) ∨
        ∃ uri, Url.parse m.uri = .ok uri ∧ m.toFlow = .ok (m.flowAt uri)) := by
  unfold toFlow
  split
  · next hblank =>
    exact .inl ⟨hblank.imp Text.isAllBlank_iff.1 Text.isAllBlank_iff.1, rfl⟩
  · next hends =>
    rw [not_or, Text.isAllBlank_iff, Text.isAllBlank_iff] at hends
    refine .inr ⟨hends, ?_⟩
    rcases Url.parse m.uri with cause | uri
    · exact .inl ⟨cause, rfl, rfl⟩
    · exact .inr ⟨uri, rfl, rfl⟩

/-- A manifest makes a flow if it names both ends and a URL. -/
theorem exists_toFlow_iff : (∃ f, m.toFlow = .ok f) ↔
    trim m.source ≠ "" ∧ trim m.destination ≠ "" ∧ ∃ uri, Url.parse m.uri = .ok uri := by
  rcases m.toFlow_cases with ⟨hblank, h⟩ | ⟨hends, ⟨cause, hcause, h⟩ | ⟨uri, huri, h⟩⟩
  · rw [h]
    exact iff_of_false nofun fun hends => hblank.elim hends.1 hends.2.1
  · rw [h, hcause]
    exact iff_of_false nofun nofun
  · exact iff_of_true ⟨_, h⟩ ⟨hends.1, hends.2, uri, huri⟩

/-- The flow that it makes is the one that it describes. -/
theorem describes_of_toFlow {f : Flow} (hflow : m.toFlow = .ok f) : m.Describes f := by
  rcases m.toFlow_cases with ⟨-, h⟩ | ⟨hends, ⟨cause, -, h⟩ | ⟨uri, huri, h⟩⟩
  · rw [hflow] at h
    cases h
  · rw [hflow] at h
    cases h
  · rw [hflow] at h
    cases h
    exact describes_flowAt huri hends.1 hends.2

/-- What is wrong is told, the ends before the URL. -/
theorem toFlow_eq_error_iff {fault : FlowFault} : m.toFlow = .error fault ↔
    ((trim m.source = "" ∨ trim m.destination = "") ∧ fault = .blankEnd) ∨
    (trim m.source ≠ "" ∧ trim m.destination ≠ "") ∧
      ∃ cause, Url.parse m.uri = .error cause ∧ fault = .badUrl m.uri cause := by
  rcases m.toFlow_cases with ⟨hblank, h⟩ | ⟨hends, ⟨cause, hcause, h⟩ | ⟨uri, huri, h⟩⟩
  · have hnot : ¬ (trim m.source ≠ "" ∧ trim m.destination ≠ "") :=
      fun hends => hblank.elim hends.1 hends.2
    rw [h, Except.error.injEq, or_iff_left fun hlate => hnot hlate.1, and_iff_right hblank, eq_comm]
  · have hnot : ¬ (trim m.source = "" ∨ trim m.destination = "") :=
      fun hblank => hblank.elim hends.1 hends.2
    rw [h, hcause, or_iff_right fun hearly => hnot hearly.1, and_iff_right hends]
    simp only [Except.error.injEq, exists_eq_left', eq_comm]
  · have hnot : ¬ (trim m.source = "" ∨ trim m.destination = "") :=
      fun hblank => hblank.elim hends.1 hends.2
    rw [h, huri, or_iff_right fun hearly => hnot hearly.1]
    exact iff_of_false nofun nofun

/-- **A manifest describes a flow just if it names both ends and has a URL, and then the flow says
what it says.** Otherwise it is told which of the two it is, the ends before the URL. -/
theorem toFlow_exact (m : FlowManifest) :
    ((∃ f, m.toFlow = .ok f) ↔
      trim m.source ≠ "" ∧ trim m.destination ≠ "" ∧ ∃ uri, Url.parse m.uri = .ok uri) ∧
    (∀ f, m.toFlow = .ok f → m.Describes f) ∧
    ∀ fault, m.toFlow = .error fault ↔
      ((trim m.source = "" ∨ trim m.destination = "") ∧ fault = .blankEnd) ∨
      (trim m.source ≠ "" ∧ trim m.destination ≠ "") ∧
        ∃ cause, Url.parse m.uri = .error cause ∧ fault = .badUrl m.uri cause :=
  ⟨exists_toFlow_iff, fun _ => describes_of_toFlow, fun _ => toFlow_eq_error_iff⟩

/-- Blanks and commas in the fields, and settings under their keys. -/
def padded : FlowManifest where
  uri := "flow://gate/orders"
  source := " a"
  destination := "b "
  path := some " "
  templates := ["job://copy, job://zip", ""]
  config := .ofList [(Setting.source, "c"), (Setting.flowPath, "c,b"), ("user", "me")]
  description := ""
  version := none

/-- What the padded manifest says is read back without the padding, and its settings for the
source and the path are not. -/
theorem toFlow_exact_padded : ∃ f, padded.toFlow = .ok f ∧ f.source = .ok "a" ∧ f.path? = none ∧
    f.templates = ["job://copy", "job://zip"] ∧ f.config.get? "user" = some "me" := by
  obtain ⟨hexists, hdescribes, -⟩ := toFlow_exact padded
  obtain ⟨f, hf⟩ := hexists.2 ⟨by decide, by decide, _, rfl⟩
  have h := hdescribes f hf
  refine ⟨f, hf, h.source, h.path_given " " rfl, ?_, ?_⟩
  · exact (h.templates_given (by decide)).trans (by decide)
  · exact h.kept "user" (by decide) (by decide) (by decide) (by decide)

end FlowManifest

end Waybill
