import Std.Data.HashMap
import Waybill.Edge
import Waybill.Network.Slots

/-!
# Networks

The directed multigraph that is routed over. Nodes and edges are kept in slots,
which they keep until they are removed; a node lists the slots of the edges that
leave it and of those that reach it, the newest first, and an edge holds the
slots of its ends. Two indexes lead from the name of a node and from the
identity of an edge to the slot, and neither is ever in the network twice.

A network is also written as a text that drawing programs read: one line for each
node, with its slot and its name, then one for each edge, with the slots of its
ends and the edge as it is shown.
-/

namespace Waybill

/-- A node with the slots of its edges. -/
structure Vertex where
  node : String
  /-- The edges that leave the node, the newest first. -/
  leaving : List Nat
  /-- The edges that reach the node, the newest first. -/
  reaching : List Nat
  deriving DecidableEq, Repr

/-- An edge with the slots of its ends. -/
structure Link where
  edge : Edge
  /-- The slot of the node that the edge leaves. -/
  tail : Nat
  /-- The slot of the node that the edge leads to. -/
  head : Nat
  deriving DecidableEq

/-- Nodes and edges in slots, with an index of each. -/
structure Network where
  vertices : Slots Vertex
  links : Slots Link
  /-- The slots of the nodes. -/
  nodeIndex : Std.HashMap String Nat
  /-- The slots of the edges. -/
  edgeIndex : Std.HashMap EdgeId Nat

namespace Network

/-- The network without nodes. -/
def empty : Network := ⟨.empty, .empty, ∅, ∅⟩

instance : Inhabited Network := ⟨empty⟩

/-! ## Looking up -/

/-- The slot of a node. -/
def slotOf? (n : Network) (node : String) : Option Nat := n.nodeIndex[node]?

/-- The slot of an edge. -/
def linkOf? (n : Network) (id : EdgeId) : Option Nat := n.edgeIndex[id]?

/-- Whether a node is in the network. -/
def containsNode (n : Network) (node : String) : Bool :=
  (n.slotOf? node).isSome

/-- Whether an edge is in the network. -/
def containsEdge (n : Network) (id : EdgeId) : Bool :=
  (n.linkOf? id).isSome

/-- The edge with an identity. -/
def edge? (n : Network) (id : EdgeId) : Option Edge :=
  ((n.linkOf? id).bind n.links.get?).map (·.edge)

/-- The nodes in slot order. -/
def nodes (n : Network) : List String :=
  n.vertices.values.map (·.node)

/-- The edges in slot order. -/
def edges (n : Network) : List Edge :=
  n.links.values.map (·.edge)

/-- The number of nodes. -/
def nodeCount (n : Network) : Nat := n.vertices.count

/-- The number of edges. -/
def edgeCount (n : Network) : Nat := n.links.count

/-- The edges that leave a slot, the newest first. -/
def linksFrom (n : Network) (slot : Nat) : List Link :=
  match n.vertices.get? slot with
  | none => []
  | some v => v.leaving.filterMap n.links.get?

/-- The edges that reach a slot, the newest first. -/
def linksTo (n : Network) (slot : Nat) : List Link :=
  match n.vertices.get? slot with
  | none => []
  | some v => v.reaching.filterMap n.links.get?

/-- The edges from one slot to another, the newest first. -/
def linksBetween (n : Network) (tail head : Nat) : List Link :=
  (n.linksFrom tail).filter (·.head = head)

/-- The edges that leave a node, the newest first. -/
def outgoing (n : Network) (node : String) : List Edge :=
  match n.slotOf? node with
  | none => []
  | some slot => (n.linksFrom slot).map (·.edge)

/-- The edges from one node to another, the newest first. -/
def edgesBetween (n : Network) (source target : String) : List Edge :=
  match n.slotOf? source, n.slotOf? target with
  | some tail, some head => (n.linksBetween tail head).map (·.edge)
  | _, _ => []

/-- The newest edge from one node to another. -/
def firstBetween? (n : Network) (source target : String) : Option Edge := do
  let tail ← n.slotOf? source
  let head ← n.slotOf? target
  ((n.linksFrom tail).find? (·.head = head)).map (·.edge)

/-- Whether an edge leads from one node to another. -/
def hasEdgeBetween (n : Network) (source target : String) : Bool :=
  (n.firstBetween? source target).isSome

/-! ## Adding -/

/-- The network with a node, and the node's slot. A node that is there already
keeps its slot. -/
def addNode (n : Network) (node : String) : Nat × Network :=
  match n.slotOf? node with
  | some slot => (slot, n)
  | none =>
    let (slot, vertices) := n.vertices.put ⟨node, [], []⟩
    (slot, { n with vertices, nodeIndex := n.nodeIndex.insert node slot })

/-- The network with an edge between two slots. -/
def connect (n : Network) (e : Edge) (tail head : Nat) : Network :=
  let (slot, links) := n.links.put ⟨e, tail, head⟩
  let vertices := n.vertices.update tail fun v => { v with leaving := slot :: v.leaving }
  let vertices := vertices.update head fun v => { v with reaching := slot :: v.reaching }
  { n with vertices, links, edgeIndex := n.edgeIndex.insert e.id slot }

/-- The network with an edge and its two nodes, and whether the edge is new. An
edge that is there already is kept as it is. -/
def addEdge (n : Network) (e : Edge) : Bool × Network :=
  if n.containsEdge e.id then (false, n)
  else
    let (tail, n) := n.addNode e.source
    let (head, n) := n.addNode e.target
    (true, n.connect e tail head)

/-! ## Removing -/

/-- The slots without the edge in one of them. The indexes are left as they
are. -/
def dropLink (n : Network) (slot : Nat) : Network :=
  match n.links.get? slot with
  | none => n
  | some l =>
    let vertices := n.vertices.update l.tail fun v => { v with leaving := v.leaving.erase slot }
    let vertices := vertices.update l.head fun v => { v with reaching := v.reaching.erase slot }
    { n with vertices, links := n.links.vacate slot }

/-- The network without an edge, and the edge if it was there. -/
def removeEdge (n : Network) (id : EdgeId) : Option Edge × Network :=
  match n.linkOf? id with
  | none => (none, n)
  | some slot =>
    ((n.links.get? slot).map (·.edge),
      { n with edgeIndex := n.edgeIndex.erase id }.dropLink slot)

/-- The slots without the edges of a node: first those that leave it, then
those that still reach it. The indexes are left as they are. -/
def isolate (n : Network) (slot : Nat) : Network :=
  let leaving := ((n.vertices.get? slot).map (·.leaving)).getD []
  let n := leaving.foldl dropLink n
  let reaching := ((n.vertices.get? slot).map (·.reaching)).getD []
  reaching.foldl dropLink n

/-- The identities of the edges that leave or reach a slot. -/
def incident (n : Network) (slot : Nat) : List EdgeId :=
  (n.linksFrom slot ++ n.linksTo slot).map (·.edge.id)

/-- The network without a node and its edges, and whether the node was there. -/
def removeNode (n : Network) (node : String) : Bool × Network :=
  match n.slotOf? node with
  | none => (false, n)
  | some slot =>
    let edgeIndex := (n.incident slot).foldl (fun index id => index.erase id) n.edgeIndex
    let n := { n with nodeIndex := n.nodeIndex.erase node, edgeIndex }.isolate slot
    (true, { n with vertices := n.vertices.vacate slot })

/-! ## Weighing anew -/

/-- The network with the weight of an edge changed, and whether the edge is
there. A value that is no weight is refused if it is, and changes nothing. -/
def setWeight (n : Network) (id : EdgeId) (weight : Float) :
    Except WeightRefusal Bool × Network :=
  match n.linkOf? id with
  | none => (.ok false, n)
  | some slot =>
    match n.links.get? slot with
    | none => (.ok false, n)
    | some l =>
      match l.edge.setWeight weight with
      | .error refusal => (.error refusal, n)
      | .ok edge => (.ok true, { n with links := n.links.update slot fun l => { l with edge } })

end Network

end Waybill

namespace Waybill.Dot

/-- A character within a quoted label. A line break is written so that the line
before it is set to the left. -/
def quoteChar (c : Char) : List Char :=
  if c = '\x22' ∨ c = '\\' then ['\\', c]
  else if c = '\n' then ['\\', 'l']
  else [c]

/-- A label in quotes. -/
def quote (label : String) : String :=
  String.ofList ('\x22' :: label.toList.flatMap quoteChar ++ ['\x22'])

/-- The line of a node. -/
def nodeLine (slot : Nat) (node : String) : String :=
  "    " ++ toString slot ++ " [ label = " ++ quote node ++ " ]\n"

/-- The line of an edge between two slots. -/
def edgeLine (source target : Nat) (e : Edge) : String :=
  "    " ++ toString source ++ " -> " ++ toString target ++
    " [ label = " ++ quote e.write ++ " ]\n"

end Waybill.Dot

namespace Waybill.Network

/-- The text of the picture of a network. -/
def toDot (n : Network) : String :=
  let nodeLines := n.vertices.entries.map fun (slot, v) => Dot.nodeLine slot v.node
  let edgeLines := n.links.values.map fun l => Dot.edgeLine l.tail l.head l.edge
  "digraph \x7b\n" ++ String.join nodeLines ++ String.join edgeLines ++ "\x7d\n"

end Waybill.Network
