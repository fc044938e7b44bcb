import Waybill.Network.Basic
import Waybill.Policy.Declaration
import Waybill.Topology

/-!
# Routing policies

A policy says which nodes and edges of a network must not be used and which
edges weigh something else than they say. Two kinds of policy are built in: one
does what the declarations say, the other ignores them and leaves the whole
network open. Any other kind may be made from the declarations in its own way,
and what it proposes as a weight need not be one.

Policies are made by name. The registry says which names there are; the two
built-in kinds stand in it under their own names, and more names may be given to
them and to other kinds.
-/

namespace Waybill

/-! ## Kinds of policy -/

/-- A number that a policy puts in place of what an edge says itself. It is
checked like any other number that is to weigh an edge. -/
structure Proposal where
  value : Float
  deriving DecidableEq

/-- What a policy says of networks and edges. -/
structure Rules where
  name : String
  /-- The nodes that must not be used. -/
  blockedNodes : List String
  /-- The edges of a network that must not be used. -/
  excluded : Network → List EdgeId
  /-- What an edge with some properties is to weigh, if the policy has a say. -/
  weightOf? : EdgeId → Properties → Option Proposal

/-- What a kind of policy makes of the declarations. -/
structure PolicyKind where
  rules : Declarations → Rules

namespace Declarations

/-- Whether an edge must not be used: it is blocked, or one of its nodes is. -/
def blocks (d : Declarations) (id : EdgeId) : Bool :=
  d.blockedConnections.contains id || d.blockedNodes.contains id.source ||
    d.blockedNodes.contains id.target

/-- The last weight declared for an edge, if any. -/
def override? (d : Declarations) (id : EdgeId) : Option Weight :=
  (d.overrides.reverse.find? (·.edge = id)).map (·.weight)

end Declarations

namespace PolicyKind

/-- The kind that keeps to the declarations. -/
def declared : PolicyKind where
  rules d := {
    name := "static"
    blockedNodes := d.blockedNodes.eraseDups
    excluded := fun n => (n.edges.map (·.id)).filter d.blocks
    weightOf? := fun id _ => (d.override? id).map fun w => ⟨w.value⟩ }

/-- The kind that ignores the declarations. -/
def unrestricted : PolicyKind where
  rules _ := {
    name := "open"
    blockedNodes := []
    excluded := fun _ => []
    weightOf? := fun _ _ => none }

/-- The built-in kind with a name. -/
def ofName? : String → Option PolicyKind
  | "static" => some declared
  | "open" => some unrestricted
  | _ => none

end PolicyKind

/-! ## Policies -/

/-- A policy with the declarations it was made from. -/
structure Policy where
  kind : PolicyKind
  declarations : Declarations
  /-- The path for flows that name none. -/
  path? : Option String

namespace Policy

/-- What a policy says. -/
def rules (p : Policy) : Rules := p.kind.rules p.declarations

/-- The name of a policy. -/
def name (p : Policy) : String := p.rules.name

/-- The nodes that must not be used. -/
def blockedNodes (p : Policy) : List String := p.rules.blockedNodes

/-- The edges of a network that must not be used. -/
def excluded (p : Policy) (n : Network) : List EdgeId := p.rules.excluded n

/-- What an edge is to weigh in place of what its properties say, if the policy
has a say. -/
def weightOf? (p : Policy) (id : EdgeId) (properties : Properties := .empty) : Option Proposal :=
  p.rules.weightOf? id properties

end Policy

/-! ## Policies by name -/

/-- Kinds of policy by name. -/
abbrev PolicyRegistry := KeyMap PolicyKind

namespace PolicyRegistry

/-- The registry with a name for a kind of policy. -/
def register (r : PolicyRegistry) (name : String) (kind : PolicyKind) : PolicyRegistry :=
  r.insert name kind

/-- Both built-in kinds under their own names. -/
def standard : PolicyRegistry :=
  register (register .empty "static" .declared) "open" .unrestricted

/-- The registry with another name for a built-in kind, which is given by its own
name. Under any other name nothing changes. -/
def addAlias (r : PolicyRegistry) (name kindName : String) : PolicyRegistry :=
  match PolicyKind.ofName? kindName with
  | some kind => r.register name kind
  | none => r

/-- The policy of a name with some declarations. -/
def create (r : PolicyRegistry) (name : String) (declarations : Declarations) :
    Except PolicyError Policy :=
  match r.get? name with
  | some kind => .ok ⟨kind, declarations, declarations.path?⟩
  | none => .error (.unknownPolicy name)

end PolicyRegistry

/-- The policy that some settings describe. The declarations are read before the
name is looked up. -/
def Policy.ofConfig (r : PolicyRegistry) (config : Properties) : Except PolicyError Policy := do
  let declarations ← Declarations.ofConfig config
  r.create ((config.nonBlank? Setting.policyName).getD Setting.defaultPolicyName) declarations

/-! ## Networks under a policy

Offers are added to an empty network in the order in which they were made, each
weighed by the policy, else by its properties. What is offered twice is one edge,
and the first offer of it counts; yet every offer must have a weight, also one
that adds nothing.

Then what the policy excludes is removed. What it excludes is told from the whole
network, before anything is removed.
-/

/-- The edge as it is offered, weighed by the policy, else by its properties. -/
def Policy.weigh (p : Policy) (id : EdgeId) (properties : Properties) :
    Except WeightRefusal Edge :=
  match p.weightOf? id properties with
  | some proposal => Edge.weighted id properties proposal.value
  | none => Edge.ofProperties id properties

namespace Network

/-- The network with an offer of an engine. -/
def addOffer (p : Policy) (n : Network) (engine : Engine) (o : Offer) :
    Except WeightRefusal Network := do
  let e ← p.weigh (o.edgeId engine) o.properties
  return (n.addEdge e).2

/-- The network with some offers, each of some engine. -/
def addOffers (p : Policy) (n : Network) (offers : List (Engine × Offer)) :
    Except WeightRefusal Network :=
  offers.foldlM (fun n o => n.addOffer p o.1 o.2) n

/-- The network of what some engines offer. -/
def assemble (p : Policy) (answers : List (Engine × List Offer)) :
    Except WeightRefusal Network :=
  addOffers p empty (answers.flatMap fun a => a.2.map (a.1, ·))

/-- The network without some nodes and some edges. -/
def without (n : Network) (nodes : List String) (edges : List EdgeId) : Network :=
  let n := nodes.foldl (fun n node => (n.removeNode node).2) n
  edges.foldl (fun n id => (n.removeEdge id).2) n

/-- The network without what a policy excludes. -/
def restrict (n : Network) (p : Policy) : Network :=
  n.without p.blockedNodes (p.excluded n)

end Network

end Waybill
