import Waybill.Cost
import Waybill.Network.Basic
import Waybill.PlanError
import Waybill.Route.Search

/-!
# Routes

A route from a source to a sink is the list of edges to take. A path that is
given as a list of nodes is taken if every step of it can be taken, over the
newest edge of the step; otherwise the cheapest route is searched for. Between
two nodes of a searched route the lightest edge is taken, and of several such
the newest.
-/

namespace Waybill

namespace Weight

/-- The place of a number in the total order of its format, where the negative
zero stands before the positive one. -/
def rank (x : Float) : Int :=
  let bits := x.toBits.toNat
  if bits < Decimal.signBit then bits else (Decimal.signBit : Int) - 1 - bits

/-- Whether a weight stands before another. -/
def lighter (a b : Weight) : Bool := rank a.value < rank b.value

end Weight

namespace Network

/-! ## Given paths -/

/-- The first edge of one step of a path. -/
def stepBetween (n : Network) (source target : String) : Except PathFault Edge :=
  if !n.containsNode source then .error (.missingNode source)
  else if !n.containsNode target then .error (.missingNode target)
  else match n.firstBetween? source target with
    | none => .error (.missingEdge source target)
    | some e => .ok e

/-- An edge for each step of a path. -/
def stepsAlong (n : Network) : List String → Except PathFault (List Edge)
  | a :: b :: rest => do
    let e ← n.stepBetween a b
    let es ← n.stepsAlong (b :: rest)
    return e :: es
  | _ => .ok []

/-- The edges along some nodes, which must lead from the source to the sink. -/
def follow (n : Network) (nodes : List String) (source sink : String) :
    Except PathFault (List Edge) :=
  if nodes.length < 2 then .error .tooShort
  else if nodes.head? ≠ some source ∨ nodes.getLast? ≠ some sink then
    .error (.otherEnds source sink)
  else n.stepsAlong nodes

/-- The edges along a path given as a comma list. -/
def verifyPath (n : Network) (path source sink : String) : Except PlanError (List Edge) :=
  match n.follow (CommaList.items path) source sink with
  | .ok es => .ok es
  | .error fault => .error (.invalidPath path fault)

/-! ## Searched routes -/

/-- The hops that leave a slot, the newest first. -/
def hops (n : Network) (slot : Nat) : List (Nat × Cost) :=
  (n.linksFrom slot).map fun l => (l.head, l.edge.weight.cost)

/-- The search for a cheapest way from one slot to another. Every edge is tried
at most once, so that no more slots can come out of the queue than there are
edges, and the first; then the queue is found empty. -/
def search (n : Network) (tail head : Nat) : Route.Outcome Nat :=
  Route.Search.run n.hops head (n.edgeCount + 2) (.start Cost.zero tail)

/-- The lightest of some edges, the first of several such. -/
def lightest? : List Edge → Option Edge
  | [] => none
  | e :: rest =>
    match lightest? rest with
    | none => some e
    | some f => if f.weight.lighter e.weight then some f else some e

/-- The lightest edge from one slot to another. -/
def lightestBetween? (n : Network) (tail head : Nat) : Option Edge :=
  lightest? ((n.linksBetween tail head).map (·.edge))

/-- The lightest edge for each step along some slots. -/
def lightestAlong (n : Network) : List Nat → Option (List Edge)
  | a :: b :: rest => do
    let e ← n.lightestBetween? a b
    let es ← n.lightestAlong (b :: rest)
    return e :: es
  | _ => some []

/-- A cheapest route between two different nodes. -/
def shortestPath (n : Network) (source sink : String) : Except PlanError (List Edge) :=
  let route := do
    guard (source ≠ sink)
    let tail ← n.slotOf? source
    let head ← n.slotOf? sink
    let slots ← (n.search tail head).nodes?
    n.lightestAlong slots
  match route with
  | some es => .ok es
  | none => .error (.noPath source sink)

/-! ## Choosing -/

/-- The given path if there is one that can be taken, else a cheapest route. -/
def selectRoute (n : Network) (source sink : String) (path : Option String) :
    Except PlanError (List Edge) :=
  match path.map (n.verifyPath · source sink) with
  | some (.ok es) => .ok es
  | _ => n.shortestPath source sink

end Network

end Waybill
