import Waybill.Flow
import Waybill.Template

/-!
# Jobs and plans

A job is the work of one hop of a flow. It is named by the flow's scheme and
authority and by the two nodes, so that the same hop of the same flow always
has the same name. A hop whose edge may use templates is bound to one of them
and completed from it; the flow's most wanted template comes first, else the
first that the edge may use. A hop whose edge may use none carries the flow's
settings alone.

A plan lists the hops of a flow in the order in which they must run, each with
its job and with the engine that carries it out.
-/

namespace Waybill

/-! ## Jobs -/

/-- The work of one hop. -/
structure Job where
  uri : Url
  config : Properties
  description : String
  version : String
  /-- The template it is bound to. -/
  template : Option String
  deriving DecidableEq

namespace Job

/-- The name of the work between two nodes. -/
def uriFor (flow : Url) (source target : String) : Url :=
  flow.withPath (source ++ "-" ++ target)

/-- Whether a job is bound to a template. -/
def isBound (j : Job) : Bool := j.template.isSome

/-- The job of a hop that no template completes. -/
def plain (flow : Flow) (source target : String) : Job where
  uri := uriFor flow.uri source target
  config := flow.config
  description := flow.description
  version := flow.version
  template := none

/-- The template to bind a hop to, out of those its edge may use. -/
def choose (wanted candidates : List String) : Option String :=
  (wanted.find? candidates.contains).or candidates.head?

/-- The settings of a flow completed from a template of the catalog. -/
def complete (catalog : Option Catalog) (template : String) (config : Properties) :
    Except BindingFault Properties :=
  match catalog with
  | none => .error .noCatalog
  | some c =>
    match c.find template with
    | .error cause => .error (.notFound cause)
    | .ok t =>
      match t.resolve config with
      | .error cause => .error (.incomplete cause)
      | .ok config => .ok config

/-- The job of the hop between two nodes over an edge. -/
def ofHop (templates : EdgeTemplates) (n : Network) (catalog : Option Catalog) (flow : Flow)
    (edge : EdgeId) (source target : String) : Except PlanError Job :=
  match choose flow.templates (templates.candidates n catalog edge) with
  | none => .ok (plain flow source target)
  | some template =>
    match complete catalog template flow.config with
    | .error fault => .error (.notBound template (source ++ "-" ++ target) fault)
    | .ok config => .ok { plain flow source target with config, template := some template }

end Job

/-! ## Plans -/

/-- One hop: its job, who carries it out, and the edge it takes. -/
structure Step where
  job : Job
  engine : Engine
  source : String
  target : String
  edge : EdgeId
  weight : Float
  deriving DecidableEq

/-- The step of a job over an edge. -/
def Step.ofEdge (job : Job) (e : Edge) : Step where
  job
  engine := e.engine
  source := e.source
  target := e.target
  edge := e.id
  weight := e.weight.value

/-- The steps of a flow in order. -/
structure Plan where
  flow : Url
  steps : List Step
  deriving DecidableEq

namespace Plan

/-- The jobs, each with the engine that carries it out. -/
def jobs (p : Plan) : List (Job × Engine) :=
  p.steps.map fun s => (s.job, s.engine)

/-- The nodes that are passed, with both ends. -/
def route (p : Plan) : List String :=
  p.steps.map (·.source) ++ (p.steps.getLast?.map (·.target)).toList

/-- The sum of the weights from the first step on. -/
def totalWeight (p : Plan) : Float :=
  Weight.total (p.steps.map (·.weight))

end Plan

end Waybill
