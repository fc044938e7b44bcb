import Waybill.CommandLine.Arguments
import Waybill.Manifest
import Waybill.Planner

/-!
# Requests for a plan

A request names the manifests to plan from. They are loaded in a fixed order,
settings, topologies, templates, flow, and the first that cannot be used is
reported.
-/

namespace Waybill.CommandLine

/-- What to plan, and how to show it. -/
structure Request where
  topologies : String
  flow : String
  config : Option String
  templates : Option String
  /-- The path to take in place of that of the flow. -/
  path : Option String
  /-- Whether the plan is shown as JSON. -/
  json : Bool
  deriving DecidableEq, Repr

namespace Request

/-- The switches of a request. To be verbose is to log more; what is logged is
left open. -/
def switches : List Switch := [
  ⟨"config", some 'c', true⟩,
  ⟨"templates", some 't', true⟩,
  ⟨"path", some 'p', true⟩,
  ⟨"json", none, false⟩,
  ⟨"verbose", some 'v', false⟩]

/-- How a request is written. -/
def usage : String :=
  "[--config FILE] [--templates FILE] [--path NODES] [--json] [--verbose] TOPOLOGIES FLOW"

/-- The request that some words make. -/
def ofWords (w : Words) : Except UsageError Request :=
  match w.plain with
  | [] => .error (.missingWord "TOPOLOGIES")
  | [_] => .error (.missingWord "FLOW")
  | [topologies, flow] => .ok {
      topologies, flow
      config := w.value? "config"
      templates := w.value? "templates"
      path := w.value? "path"
      json := w.has "json" }
  | _ :: _ :: word :: _ => .error (.surplusWord word)

/-- The request of a command line. -/
def ofArguments (args : List String) : Except UsageError Request := do
  ofWords (← read switches args)

/-- The files that a request names. -/
def files (r : Request) : List String :=
  r.config.toList ++ [r.topologies] ++ r.templates.toList ++ [r.flow]

end Request

/-! ## Loading -/

/-- Why a request cannot be loaded. -/
inductive LoadError where
  | manifest (error : ManifestError)
  | flow (fault : FlowFault)
  deriving DecidableEq

/-- The words for an error. -/
def LoadError.message : LoadError → String
  | manifest error => error.message
  | flow fault => s!"Failed to convert flow: {fault.message}"

/-- What the manifests of a request say. -/
structure Inputs where
  config : Properties
  topologies : List Topology
  catalog : Option Catalog
  flow : Flow

namespace Inputs

/-- The settings that a request names, none if it names none. -/
def loadConfig (files : Files) : Option String → Except ManifestError Properties
  | none => .ok .empty
  | some path => Manifest.ofFile .map files path

/-- The topologies that a request names. -/
def loadTopologies (files : Files) (path : String) : Except ManifestError (List Topology) := do
  let m ← Manifest.ofFile TopologyManifest.codec files path
  m.toTopologies

/-- The catalog that a request names, if it names one. -/
def loadCatalog (files : Files) : Option String → Except ManifestError (Option Catalog)
  | none => .ok none
  | some path => do
    let m ← Manifest.ofFile TemplateManifest.codec files path
    return some m.toCatalog

/-- The flow that a request names. -/
def loadFlow (files : Files) (path : String) : Except LoadError Flow :=
  match Manifest.ofFile FlowManifest.codec files path with
  | .error e => .error (.manifest e)
  | .ok m =>
    match m.toFlow with
    | .error fault => .error (.flow fault)
    | .ok flow => .ok flow

/-- What a request names, with the path that it asks for. -/
def load (files : Files) (r : Request) : Except LoadError Inputs := do
  let config ← (loadConfig files r.config).mapError .manifest
  let topologies ← (loadTopologies files r.topologies).mapError .manifest
  let catalog ← (loadCatalog files r.templates).mapError .manifest
  let flow ← loadFlow files r.flow
  return { config, topologies, catalog, flow := FlowManifest.addPath r.path flow }

/-- The planner for what was loaded. -/
def planner (i : Inputs) : Except PolicyError Planner :=
  { Setup.ofConfig i.config with topologies := i.topologies, catalog := i.catalog }.build

end Inputs

end Waybill.CommandLine
