import Waybill.Network.Basic
import Waybill.Plan
import Waybill.Policy.Basic
import Waybill.Route.Basic

/-!
# The planner

A planner knows some topologies, a policy and perhaps a catalog, and turns a
flow into a plan. Every flow is planned over a network of its own, made from
what the engines offer at that time: nothing that an earlier flow did is
found in a later plan. The last network is kept to be looked at, and so is a
picture of every network, under the name of its flow.

The path that a flow asks for goes before the path of the policy; it is not
consulted if the flow asks for any.

A planner is made from settings and parts. What is wrong with the settings is
found then, the policy before the time limit, and not when a flow is planned.
-/

namespace Waybill

/-- What a planner knows. -/
structure Planner where
  registry : PolicyRegistry
  policy : Policy
  catalog : Option Catalog
  edgeTemplates : EdgeTemplates
  topologies : KeyMap Topology
  /-- How long an engine may take to answer, in milliseconds. -/
  queryTimeout : Nat
  /-- The network of the flow planned last. -/
  lastNetwork : Option Network
  /-- Pictures of networks, by name. -/
  pictures : KeyMap String

namespace Planner

/-! ## Topologies, templates and policy -/

/-- The planner with a topology, and the topology that had its name before. -/
def register (p : Planner) (t : Topology) : Option Topology × Planner :=
  (p.topologies.get? t.uri, { p with topologies := p.topologies.insert t.uri t })

/-- The planner without the topology of a name, and that topology. -/
def unregister (p : Planner) (uri : String) : Option Topology × Planner :=
  (p.topologies.get? uri, { p with topologies := p.topologies.erase uri })

/-- The planner with a template in its catalog, and the template that had its
name before. Without a catalog nothing changes. -/
def addTemplate (p : Planner) (t : Template) : Option Template × Planner :=
  (p.catalog.bind (·.get? t.uri), { p with catalog := p.catalog.map (·.add t) })

/-- The planner without the template of a name in its catalog, and that template. -/
def removeTemplate (p : Planner) (uri : String) : Option Template × Planner :=
  (p.catalog.bind (·.get? uri), { p with catalog := p.catalog.map (·.erase uri) })

/-- The planner with the policy that some settings describe. Settings that
describe none change nothing. -/
def reload (p : Planner) (config : Properties) : Except PolicyError Unit × Planner :=
  match Policy.ofConfig p.registry config with
  | .ok policy => (.ok (), { p with policy })
  | .error e => (.error e, p)

/-! ## Planning -/

/-- The network to route over: what the engines offer, less what the policy
excludes. -/
def network (p : Planner) : Except PlanError Network := do
  let answers ← Topology.askAll p.queryTimeout p.topologies.values
  match Network.assemble p.policy answers with
  | .ok n => return n.restrict p.policy
  | .error refusal => throw (.invalidWeight refusal)

/-- The step of a flow over an edge. -/
def step (p : Planner) (n : Network) (flow : Flow) (e : Edge) : Except PlanError Step := do
  let job ← Job.ofHop p.edgeTemplates n p.catalog flow e.id e.source e.target
  return .ofEdge job e

/-- The path that a flow should take, if any. -/
def path? (p : Planner) (flow : Flow) : Option String :=
  flow.path?.or p.policy.path?

/-- The plan of a flow from a source to a sink over a network. -/
def planOver (p : Planner) (n : Network) (flow : Flow) (source sink : String) :
    Except PlanError Plan := do
  let route ← n.selectRoute source sink (p.path? flow)
  let steps ← route.mapM (p.step n flow)
  return { flow := flow.uri, steps }

/-! ## Keeping what was seen -/

/-- A character that may stand in the name of a picture. -/
def isPictureChar (c : Char) : Bool :=
  c.isAlphanum || c == '_' || c == '-'

/-- The name of the picture of a flow's network: what may stand in it of the
flow's path. Flows that differ in other characters share a picture. -/
def pictureName (flow : Flow) : String :=
  "graph_" ++ String.ofList (flow.uri.path.write.toList.filter isPictureChar) ++ ".dot"

/-- The length that a name of a picture may have. -/
def pictureNameLimit : Nat := 255

/-- The planner after a network was made for a flow. A picture whose name is too
long is not kept. -/
def keep (p : Planner) (flow : Flow) (n : Network) : Planner :=
  let name := pictureName flow
  { p with
    lastNetwork := some n
    pictures := if name.length ≤ pictureNameLimit then p.pictures.insert name n.toDot
      else p.pictures }

/-- The pictures kept since they were taken last, and the planner without them. -/
def takePictures (p : Planner) : KeyMap String × Planner :=
  (p.pictures, { p with pictures := .empty })

/-- The plan of a flow, and the planner afterwards. The network is kept also if
no plan is found over it. -/
def plan (p : Planner) (flow : Flow) : Except PlanError Plan × Planner :=
  match flow.ends with
  | .error e => (.error e, p)
  | .ok (source, sink) =>
    match p.network with
    | .error e => (.error e, p)
    | .ok n => (p.planOver n flow source sink, p.keep flow n)

end Planner

/-! ## Setting up -/

/-- What a planner is made from. -/
structure Setup where
  config : Properties
  registry : PolicyRegistry
  catalog : Option Catalog
  edgeTemplates : EdgeTemplates
  /-- The topologies; of two with one name the later counts. -/
  topologies : List Topology
  /-- The time limit, in milliseconds; if there is none the settings are asked. -/
  queryTimeout : Option Nat

namespace Setup

/-- The settings and nothing else. -/
def ofConfig (config : Properties) : Setup :=
  ⟨config, .standard, none, .wholeCatalog, [], none⟩

/-- The time limit in the settings. -/
def timeoutOf (config : Properties) : Except PolicyError Nat :=
  match config.nonBlank? Setting.queryTimeout with
  | none => .ok Setting.defaultQueryTimeout
  | some value =>
    match Decimal.readCount value with
    | .ok limit => .ok limit
    | .error fault => .error (.badCount Setting.queryTimeout value fault)

/-- The planner. -/
def build (s : Setup) : Except PolicyError Planner := do
  let policy ← Policy.ofConfig s.registry s.config
  let queryTimeout ← match s.queryTimeout with
    | some limit => pure limit
    | none => timeoutOf s.config
  return {
    registry := s.registry
    policy
    catalog := s.catalog
    edgeTemplates := s.edgeTemplates
    topologies := .ofList (s.topologies.map fun t => (t.uri, t))
    queryTimeout
    lastNetwork := none
    pictures := .empty }

end Setup

end Waybill
