import Waybill.PlanError

/-!
# Flows

A flow asks for data to be moved from a source to a destination. Its settings
name both, and may name a path to take and the templates it would like; they
travel with the flow into every job.
-/

namespace Waybill

/-- A request to move data. -/
structure Flow where
  uri : Url
  config : Properties
  description : String
  version : String
  deriving DecidableEq

namespace Flow

/-- The version of a flow or a job that names none. -/
def defaultVersion : String := "1"

/-- The flow with these settings and nothing else said. -/
def ofUrl (uri : Url) (config : Properties) : Flow :=
  ⟨uri, config, "", defaultVersion⟩

/-- The flow of a URL given as a text. -/
def parse (uri : String) (config : Properties) : Except PlanError Flow :=
  match Url.parse uri with
  | .ok u => .ok (ofUrl u config)
  | .error cause => .error (.invalidFlow uri cause)

/-- The flow with a setting. -/
def withSetting (f : Flow) (key value : String) : Flow :=
  { f with config := f.config.insert key value }

/-- The flow from a source. -/
def withSource (f : Flow) (node : String) : Flow := f.withSetting Setting.source node

/-- The flow to a destination. -/
def withDestination (f : Flow) (node : String) : Flow := f.withSetting Setting.destination node

/-- The flow with a path to take. -/
def withPath (f : Flow) (path : String) : Flow := f.withSetting Setting.flowPath path

/-- The flow with the templates it would like. -/
def withTemplates (f : Flow) (uris : List String) : Flow :=
  f.withSetting Setting.templates (CommaList.join uris)

/-- A node that the settings must name. -/
def node (f : Flow) (key : String) : Except PlanError String :=
  match f.config.nonBlank? key with
  | some name => .ok name
  | none => .error (.missingSetting f.uri key)

/-- The node a flow starts at. -/
def source (f : Flow) : Except PlanError String := f.node Setting.source

/-- The node a flow ends at. -/
def destination (f : Flow) : Except PlanError String := f.node Setting.destination

/-- Both ends of a flow. The source is asked for first. -/
def ends (f : Flow) : Except PlanError (String × String) := do
  let source ← f.source
  let destination ← f.destination
  return (source, destination)

/-- The path that a flow wants to take, if it names one. -/
def path? (f : Flow) : Option String := f.config.nonBlank? Setting.flowPath

/-- The templates that a flow would like, the most wanted first. -/
def templates (f : Flow) : List String := f.config.items Setting.templates

end Flow

end Waybill
