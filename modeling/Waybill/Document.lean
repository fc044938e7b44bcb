import Waybill.Edge
import Waybill.Json.Codec
import Waybill.Plan

/-!
# Plans and their parts in JSON

A URL stands as its text; a text that is no URL is refused with the reason. An
engine and the identity of an edge are records. An edge is written with all
that is known of it, and is not read.

Flows, jobs and templates carry settings. A flow and a template may leave out
whatever has a value where nothing is said; a job is written with every field,
and only the template it is bound to may be missing. A plan is written with its
steps in order, each step with its job, its edge and its weight, so that a
stored plan can be read again.
-/

namespace Waybill

open Json

/-! ## Engines and edges -/

/-- A URL as its text. -/
def Url.codec : Codec Url :=
  .byText "a string representing an URL" Url.write fun s =>
    match Url.parse s with
    | .ok u => .ok u
    | .error cause => .error (.invalidText cause.message s)

namespace Engine

/-- The record of an engine. -/
def schema : Schema Engine where
  name := "ExecutionEngine"
  blank := default
  fields := [.of "uri" .required Url.codec (·.uri) fun uri e => { e with uri }]

/-- An engine in JSON. -/
def codec : Codec Engine := schema.codec

end Engine

namespace EdgeId

/-- The record of what identifies an edge. -/
def schema : Schema EdgeId where
  name := "EdgeIdentity"
  blank := default
  fields := [
    .of "source" .required .text (·.source) fun source id => { id with source },
    .of "target" .required .text (·.target) fun target id => { id with target },
    .of "engine" .required Engine.codec (·.engine) fun engine id => { id with engine }]

/-- What identifies an edge, in JSON. -/
def codec : Codec EdgeId := schema.codec

end EdgeId

/-- An edge in JSON. -/
def Edge.json (e : Edge) : Value :=
  .object [
    ("source", .text e.source),
    ("target", .text e.target),
    ("engine", Engine.codec.encode e.engine),
    ("props", .ofMap e.properties),
    ("weight", .number e.weight.value)]

/-! ## Flows, jobs and templates -/

namespace Flow

/-- The record of a flow. -/
def schema : Schema Flow where
  name := "FlowSpec"
  blank := .ofUrl default .empty
  fields := [
    .of "uri" .required Url.codec (·.uri) fun uri f => { f with uri },
    .of "config" .optional .map (·.config) fun config f => { f with config },
    .of "description" .optional .text (·.description) fun description f => { f with description },
    .of "version" .optional .text (·.version) fun version f => { f with version }]

/-- A flow in JSON. -/
def codec : Codec Flow := schema.codec

end Flow

namespace Job

/-- The record of a job. -/
def schema : Schema Job where
  name := "JobSpec"
  blank := ⟨default, .empty, "", "", none⟩
  fields := [
    .of "uri" .required Url.codec (·.uri) fun uri j => { j with uri },
    .of "config" .required .map (·.config) fun config j => { j with config },
    .of "description" .required .text (·.description) fun description j => { j with description },
    .of "version" .required .text (·.version) fun version j => { j with version },
    .of "template_uri" .inArrays (.nullable .text) (·.template)
      fun template j => { j with template }]

/-- A job in JSON. -/
def codec : Codec Job := schema.codec

end Job

namespace Template

/-- The record of a template. -/
def schema : Schema Template where
  name := "JobTemplate"
  blank := ⟨"", "", .empty, []⟩
  fields := [
    .of "uri" .required .text (·.uri) fun uri t => { t with uri },
    .of "description" .optional .text (·.description) fun description t => { t with description },
    .of "config" .optional .map (·.config) fun config t => { t with config },
    .of "required_keys" .optional (.list .text) (·.requiredKeys)
      fun requiredKeys t => { t with requiredKeys }]

/-- A template in JSON. -/
def codec : Codec Template := schema.codec

end Template

/-! ## Plans -/

namespace Step

/-- The record of a step. -/
def schema : Schema Step where
  name := "PlanStep"
  blank := ⟨Job.schema.blank, default, "", "", default, 0⟩
  fields := [
    .of "work_unit" .required Job.codec (·.job) fun job s => { s with job },
    .of "engine" .required Engine.codec (·.engine) fun engine s => { s with engine },
    .of "source" .required .text (·.source) fun source s => { s with source },
    .of "target" .required .text (·.target) fun target s => { s with target },
    .of "edge" .required EdgeId.codec (·.edge) fun edge s => { s with edge },
    .of "weight" .required .float (·.weight) fun weight s => { s with weight }]

/-- A step in JSON. -/
def codec : Codec Step := schema.codec

end Step

namespace Plan

/-- The record of a plan. -/
def schema : Schema Plan where
  name := "ExecutionPlan"
  blank := ⟨default, []⟩
  fields := [
    .of "flow_uri" .required Url.codec (·.flow) fun flow p => { p with flow },
    .of "steps" .required (.list Step.codec) (·.steps) fun steps p => { p with steps }]

/-- A plan in JSON. -/
def codec : Codec Plan := schema.codec

end Plan

end Waybill
