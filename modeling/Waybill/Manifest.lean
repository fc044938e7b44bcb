import Waybill.Disk
import Waybill.Document
import Waybill.Edge
import Waybill.Flow
import Waybill.Json.Codec
import Waybill.Topology

/-!
# Manifests

A manifest is a JSON text that describes topologies, templates, a flow or
settings as users write them. Settings are a manifest as they are: an object of
texts.

A topology manifest lists engines with what they offer. An offer may have a
weight, which goes before one among its properties; what an offer does not say
is not written. A template manifest lists the templates of a catalog; of two
with one name the later counts. A flow manifest names both ends of a flow beside
its settings, and may name a path and the templates it would like. What it names
goes before what its settings say.
-/

namespace Waybill

/-! ## Manifests as such -/

/-- Why a manifest cannot be used. -/
inductive ManifestError where
  | unreadable (path : String) (fault : FileFault)
  | malformed (error : Json.Error)
  | badEngine (topology : String) (refusal : Engine.Refusal)
  deriving DecidableEq

/-- The words for an error. -/
def ManifestError.message : ManifestError → String
  | unreadable path fault => s!"Failed to read manifest '{path}': {fault.message}"
  | malformed error => s!"Failed to parse manifest: {error.message}"
  | badEngine topology refusal =>
    s!"Invalid manifest: topology '{topology}': {refusal.message}"

namespace Manifest

variable {α : Type}

/-- The manifest in a text. -/
def ofText (c : Json.Codec α) (text : String) : Except ManifestError α :=
  match c.read text with
  | .ok a => .ok a
  | .error e => .error (.malformed e)

/-- The manifest in a file. -/
def ofFile (c : Json.Codec α) (files : Files) (path : String) : Except ManifestError α :=
  match files path with
  | .ok text => ofText c text
  | .error fault => .error (.unreadable path fault)

end Manifest

/-! ## Topologies -/

open Json Text

/-- An offer as users write it. -/
structure OfferEntry where
  source : String
  target : String
  weight : Option Float
  properties : Properties
  deriving DecidableEq

/-- A topology as users write it. -/
structure TopologyEntry where
  uri : String
  description : String
  engine : String
  offers : List OfferEntry
  deriving DecidableEq

/-- Topologies as users write them. -/
structure TopologyManifest where
  topologies : List TopologyEntry
  deriving DecidableEq

namespace OfferEntry

/-- The record of an offer. -/
def schema : Schema OfferEntry where
  name := "CapabilityEntry"
  blank := ⟨"", "", none, .empty⟩
  fields := [
    .of "source" .required .text (·.source) fun source o => { o with source },
    .of "target" .required .text (·.target) fun target o => { o with target },
    (Field.of "weight" .optional (.nullable .float) (·.weight)
      fun weight o => { o with weight }).omittedIf (·.weight.isNone),
    (Field.of "properties" .optional .map (·.properties)
      fun properties o => { o with properties }).omittedIf (·.properties.isEmpty)]

/-- The offer that an entry describes. -/
def toOffer (o : OfferEntry) : Offer :=
  let offer : Offer := ⟨o.source, o.target, o.properties⟩
  match o.weight with
  | some weight => offer.withWeight weight
  | none => offer

end OfferEntry

namespace TopologyEntry

/-- The record of a topology. -/
def schema : Schema TopologyEntry where
  name := "TopologyEntry"
  blank := ⟨"", "", "", []⟩
  fields := [
    .of "uri" .required .text (·.uri) fun uri t => { t with uri },
    .of "description" .optional .text (·.description) fun description t => { t with description },
    .of "engine" .required .text (·.engine) fun engine t => { t with engine },
    .of "capabilities" .optional (.list OfferEntry.schema.codec) (·.offers)
      fun offers t => { t with offers }]

/-- The topology that an entry describes. Its engine answers at once. -/
def toTopology (t : TopologyEntry) : Except ManifestError Topology :=
  match Engine.parse t.engine with
  | .error refusal => .error (.badEngine t.uri refusal)
  | .ok engine => .ok ⟨t.uri, t.description, engine, .offered 0 (t.offers.map (·.toOffer))⟩

end TopologyEntry

namespace TopologyManifest

/-- The record of a topology manifest. -/
def schema : Schema TopologyManifest where
  name := "TopologyManifest"
  blank := ⟨[]⟩
  fields := [
    .of "topologies" .required (.list TopologyEntry.schema.codec) (·.topologies)
      fun topologies m => { m with topologies }]

/-- A topology manifest in JSON. -/
def codec : Codec TopologyManifest := schema.codec

/-- The topologies that a manifest describes, in its order. -/
def toTopologies (m : TopologyManifest) : Except ManifestError (List Topology) :=
  m.topologies.mapM (·.toTopology)

end TopologyManifest

/-! ## Templates -/

/-- Templates as users write them. -/
structure TemplateManifest where
  templates : List Template
  deriving DecidableEq

namespace TemplateManifest

/-- The record of a template manifest. -/
def schema : Schema TemplateManifest where
  name := "TemplateManifest"
  blank := ⟨[]⟩
  fields := [
    .of "templates" .required (.list Template.codec) (·.templates)
      fun templates m => { m with templates }]

/-- A template manifest in JSON. -/
def codec : Codec TemplateManifest := schema.codec

/-- The catalog that a manifest describes. -/
def toCatalog (m : TemplateManifest) : Catalog := .ofTemplates m.templates

end TemplateManifest

/-! ## Flows -/

/-- A flow as users write it. -/
structure FlowManifest where
  uri : String
  source : String
  destination : String
  path : Option String
  templates : List String
  config : Properties
  description : String
  version : Option String
  deriving DecidableEq

/-- Why a manifest describes no flow. -/
inductive FlowFault where
  | blankEnd
  | badUrl (uri : String) (cause : Url.Error)
  deriving DecidableEq, Repr

/-- The words for a fault. -/
def FlowFault.message : FlowFault → String
  | blankEnd => "Invalid custom flow data: flow source and destination must not be blank"
  | badUrl uri cause => s!"Invalid custom flow data: {(PlanError.invalidFlow uri cause).message}"

namespace FlowManifest

/-- The record of a flow manifest. -/
def schema : Schema FlowManifest where
  name := "FlowManifest"
  blank := ⟨"", "", "", none, [], .empty, "", none⟩
  fields := [
    .of "uri" .required .text (·.uri) fun uri m => { m with uri },
    .of "source" .required .text (·.source) fun source m => { m with source },
    .of "destination" .required .text (·.destination) fun destination m => { m with destination },
    .of "explicit_path" .optional (.nullable .text) (·.path) fun path m => { m with path },
    .of "template_uris" .optional (.list .text) (·.templates)
      fun templates m => { m with templates },
    .of "config" .optional .map (·.config) fun config m => { m with config },
    .of "description" .optional .text (·.description) fun description m => { m with description },
    .of "version" .optional (.nullable .text) (·.version) fun version m => { m with version }]

/-- A flow manifest in JSON. -/
def codec : Codec FlowManifest := schema.codec

/-- The flow with a path to take, if there is one. -/
def addPath (path : Option String) (f : Flow) : Flow :=
  match path with
  | some path => f.withPath path
  | none => f

/-- The flow with the templates it would like, if there are any. -/
def addTemplates (uris : List String) (f : Flow) : Flow :=
  match uris with
  | [] => f
  | uris => f.withTemplates uris

/-- The flow that a manifest describes. -/
def toFlow (m : FlowManifest) : Except FlowFault Flow :=
  if isAllBlank m.source ∨ isAllBlank m.destination then .error .blankEnd
  else match Url.parse m.uri with
    | .error cause => .error (.badUrl m.uri cause)
    | .ok uri =>
      let flow : Flow := {
        uri
        config := m.config
        description := m.description
        version := m.version.getD Flow.defaultVersion }
      .ok (addTemplates m.templates (addPath m.path
        ((flow.withSource (trim m.source)).withDestination (trim m.destination))))

end FlowManifest

end Waybill
