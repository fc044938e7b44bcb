import Waybill.Edge

/-!
# Why a flow has no plan

Planning yields a whole plan or exactly one of these causes; `message` puts a
cause into words.
-/

namespace Waybill

/-- Why a list of nodes is no path between two nodes of a network. -/
inductive PathFault where
  /-- It names fewer than two nodes. -/
  | tooShort
  /-- It does not run from the source to the sink. -/
  | otherEnds (source sink : String)
  /-- It names a node that the network lacks. -/
  | missingNode (node : String)
  /-- Two nodes that follow each other have no edge between them. -/
  | missingEdge (source target : String)
  deriving DecidableEq, Repr

/-- The words for a fault. -/
def PathFault.message : PathFault → String
  | tooShort => "a path needs at least two nodes"
  | otherEnds source sink => s!"path must run from '{source}' to '{sink}'"
  | missingNode node => s!"node '{node}' is not in the graph"
  | missingEdge source target => s!"no edge from '{source}' to '{target}'"

/-- A template that the catalog does not hold. -/
structure TemplateMissing where
  uri : String
  deriving DecidableEq, Repr

/-- The words for a missing template. -/
def TemplateMissing.message (e : TemplateMissing) : String :=
  s!"Template '{e.uri}' not found in catalog"

/-- Settings that a template asks for and nobody gives, in the order in which it
asks. -/
structure MissingKeys where
  keys : List String
  deriving DecidableEq, Repr

/-- The words for missing settings. -/
def MissingKeys.message (e : MissingKeys) : String :=
  "missing required keys [" ++ String.intercalate ", " e.keys ++ "]"

/-- Why a job cannot be bound to a template. -/
inductive BindingFault where
  | noCatalog
  | notFound (cause : TemplateMissing)
  | incomplete (cause : MissingKeys)
  deriving DecidableEq, Repr

/-- The words for a fault. -/
def BindingFault.message : BindingFault → String
  | noCatalog => "no template catalog configured"
  | notFound cause => cause.message
  | incomplete cause => cause.message

/-- Why an engine did not say what it offers. -/
inductive QueryFault where
  | unavailable (detail : String)
  | failed (detail : String)
  /-- No answer within that many milliseconds. -/
  | timedOut (limit : Nat)
  deriving DecidableEq, Repr

/-- The words for a fault. -/
def QueryFault.message : QueryFault → String
  | unavailable detail => s!"Execution engine is unavailable: {detail}"
  | failed detail => s!"Capability query failed: {detail}"
  | timedOut limit => s!"timed out after {limit} ms"

/-- Why a flow has no plan. -/
inductive PlanError where
  | queryFailed (topology : String) (engine : Engine) (fault : QueryFault)
  | noPath (source sink : String)
  | invalidPath (path : String) (fault : PathFault)
  | notBound (template hop : String) (fault : BindingFault)
  | invalidWeight (refusal : WeightRefusal)
  | missingSetting (flow : Url) (key : String)
  | invalidFlow (uri : String) (cause : Url.Error)
  deriving DecidableEq

/-- The words for a cause. -/
def PlanError.message : PlanError → String
  | queryFailed topology engine fault =>
    s!"Capability query for topology '{topology}' (engine '{engine}') failed: {fault.message}"
  | noPath source sink => s!"No path found from '{source}' to '{sink}'"
  | invalidPath path fault => s!"Explicit path '{path}' is invalid: {fault.message}"
  | notBound template hop fault =>
    s!"Template '{template}' advertised for hop '{hop}' could not be resolved: {fault.message}"
  | invalidWeight refusal =>
    s!"Edge '{refusal.edge}' has invalid weight {Decimal.plain refusal.weight}; " ++
      "weights must be finite and non-negative"
  | missingSetting flow key =>
    s!"Flow '{flow}' is missing required configuration key '{key}'"
  | invalidFlow uri cause => s!"Invalid flow URI '{uri}': {cause.message}"

end Waybill
