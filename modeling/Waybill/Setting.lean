import Waybill.KeyMap
import Waybill.Text.CommaList

/-!
# Settings

Flows, edges, jobs, templates and the planner itself are configured by flat
settings: a text under each of some keys. Here stand the keys that are
understood, the values taken where a key is missing, and the three ways to ask
for a setting: as it stands, as a text that is not blank, and as a comma list.
-/

namespace Waybill.Setting

/-! ## Flows -/

/-- The node a flow starts at. -/
def source : String := "flow.sourceIdentifier"

/-- The node a flow ends at. -/
def destination : String := "flow.destinationIdentifier"

/-- A comma list of the nodes that a flow should pass. -/
def flowPath : String := "flow.dataMovementPath"

/-- A comma list of the templates that a flow would like its jobs bound to. -/
def templates : String := "flow.templateUris"

/-! ## Routing policy -/

/-- The name of the routing policy. -/
def policyName : String := "service.policy.name"

/-- The policy where none is named. -/
def defaultPolicyName : String := "static"

/-- A comma list of connections that are never used. -/
def blockedConnections : String := "service.policy.blockedConnections"

/-- A comma list of nodes that are never used. -/
def blockedNodes : String := "service.policy.blockedNodes"

/-- A comma list of connections with the weights they are given. -/
def edgeWeights : String := "service.policy.edgeWeights"

/-- A comma list of the nodes to pass for flows that name none. -/
def policyPath : String := "service.policy.dataMovementPath"

/-! ## Edges and engines -/

/-- The weight of an edge. -/
def weight : String := "flow.edge.weight"

/-- How long an engine may take to say what it offers, in milliseconds. -/
def queryTimeout : String := "service.topology.queryTimeoutMs"

/-- The time allowed where none is set, in milliseconds. -/
def defaultQueryTimeout : Nat := 30000

end Waybill.Setting

namespace Waybill.KeyMap

/-- The trimmed value of a key, if it has one that is not blank. -/
def nonBlank? (p : Properties) (key : String) : Option String :=
  ((p.get? key).map Text.trim).filter (· ≠ "")

/-- The entries of the comma list under a key, none if the key has no value. -/
def items (p : Properties) (key : String) : List String :=
  ((p.get? key).map CommaList.items).getD []

end Waybill.KeyMap
