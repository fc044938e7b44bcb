import Waybill.Proofs.Alike
import Waybill.Proofs.Removal

/-!
# How additions are listed

In a network from which nothing was removed (`Packed`) what is added is listed last:
`nodes_addNode`, `edges_addEdge_of_new`. A node lists the edges that leave it from the
newest to the oldest, and a new edge moves none of the others (`outgoing_addEdge_of_new`).
So, where nothing was removed, the list of all edges tells the list of every node
(`Newest`).
-/

namespace Waybill

/-- Without repetitions, what is put behind a list is dropped if the list has it. -/
theorem eraseDups_concat {α : Type} [DecidableEq α] (l : List α) (a : α) :
    (l ++ [a]).eraseDups = if a ∈ l then l.eraseDups else l.eraseDups ++ [a] := by
  rw [List.eraseDups_append]
  by_cases ha : a ∈ l <;> simp [List.removeAll, List.eraseDups_cons, ha]

namespace Network

variable {n : Network} {node other : String} {e : Edge} {slot tail head : Nat}

/-! ## Networks without gaps -/

/-- No slot is vacant. -/
structure Packed (n : Network) : Prop where
  vertices : n.vertices.vacant = []
  links : n.links.vacant = []

theorem packed_empty : empty.Packed := ⟨rfl, rfl⟩

/-- A node takes a slot at the end, so that nothing is vacant still. -/
theorem Packed.addNode (h : n.Packed) (node : String) : (n.addNode node).2.Packed := by
  unfold Network.addNode
  split
  · exact h
  · exact ⟨congrArg List.tail h.vertices, h.links⟩

theorem Packed.connect (h : n.Packed) (e : Edge) (tail head : Nat) :
    (n.connect e tail head).Packed :=
  ⟨h.vertices, congrArg List.tail h.links⟩

theorem Packed.addEdge (h : n.Packed) (e : Edge) : (n.addEdge e).2.Packed := by
  rcases hnew : n.containsEdge e.id with _ | _
  · rw [addEdge_of_new hnew]
    exact ((h.addNode _).addNode _).connect _ _ _
  · rwa [addEdge_of_contains hnew]

/-! ## Nodes and edges in order -/

/-- A new node comes last. -/
theorem nodes_addNode (h : n.Packed) (node : String) :
    (n.addNode node).2.nodes = if n.containsNode node then n.nodes else n.nodes ++ [node] := by
  unfold addNode containsNode
  rcases n.slotOf? node with _ | slot
  · simp [nodes, Slots.values_put_of_vacant_eq_nil h.vertices]
  · simp

/-- The nodes are those that were added, each where it was added first. -/
theorem nodes_addNode_of_eq_eraseDups (hwell : n.WellFormed) (h : n.Packed) {names : List String}
    (hnodes : n.nodes = names.eraseDups) (node : String) :
    (n.addNode node).2.nodes = (names ++ [node]).eraseDups := by
  have hmem : n.containsNode node ↔ node ∈ names := by
    rw [hwell.represents.containsNode_iff, hnodes, List.mem_eraseDups]
  rw [nodes_addNode h, eraseDups_concat, hnodes]
  simp only [hmem]

theorem nodes_connect (n : Network) (e : Edge) (tail head : Nat) :
    (n.connect e tail head).nodes = n.nodes := by
  refine Slots.map_values_eq fun i => ?_
  rw [get?_vertices_connect, Option.map_map]
  rfl

theorem edges_addNode (n : Network) (node : String) : (n.addNode node).2.edges = n.edges := by
  rw [edges, WellFormed.links_addNode]
  rfl

theorem edges_connect (h : n.Packed) (e : Edge) (tail head : Nat) :
    (n.connect e tail head).edges = n.edges ++ [e] := by
  simp [edges, Network.connect, Slots.values_put_of_vacant_eq_nil h.links]

theorem edges_addEdge_of_new (h : n.Packed) (hnew : n.containsEdge e.id = false) :
    (n.addEdge e).2.edges = n.edges ++ [e] := by
  rw [addEdge_of_new hnew, edges_connect ((h.addNode _).addNode _), edges_addNode, edges_addNode]

/-! ## The edges that leave a node -/

/-- A node that is there stays as it is when another is added. -/
theorem get?_vertices_addNode_of_some {v : Vertex} (hv : n.vertices.get? slot = some v)
    (node : String) : (n.addNode node).2.vertices.get? slot = some v := by
  unfold addNode
  split
  · exact hv
  · exact Slots.get?_put_of_some hv _

/-- A new node has no edges, and no other node is changed. -/
theorem WellFormed.outgoing_addNode (h : n.WellFormed) (node other : String) :
    (n.addNode node).2.outgoing other = n.outgoing other := by
  rcases hslot : n.slotOf? other with _ | slot
  · have hold : n.outgoing other = [] := by simp only [outgoing, hslot]
    rw [hold, List.eq_nil_iff_forall_not_mem]
    intro e he
    rw [(h.addNode node).mem_outgoing_iff, edges_addNode, ← h.mem_outgoing_iff, hold] at he
    exact List.not_mem_nil he
  · obtain ⟨v, hv, -⟩ := h.get?_of_slotOf? hslot
    simp only [outgoing, slotOf?_addNode_of_some hslot node, hslot, linksFrom,
      get?_vertices_addNode_of_some hv node, hv, WellFormed.links_addNode]

/-- A new edge is the newest at the node that it leaves, and no other node is changed. -/
theorem WellFormed.outgoing_connect (h : n.WellFormed) (e : Edge)
    (htail : n.slotOf? node = some tail) (head : Nat) (other : String) :
    (n.connect e tail head).outgoing other =
      if other = node then e :: n.outgoing other else n.outgoing other := by
  simp only [outgoing, slotOf?_connect]
  rcases hslot : n.slotOf? other with _ | i
  · rw [if_neg]
    rintro rfl
    rw [hslot] at htail
    cases htail
  obtain ⟨v, hv, -⟩ := h.get?_of_slotOf? hslot
  -- the edges that were there are in other slots than the new one
  have hkept : ∀ k ∈ v.leaving, (n.connect e tail head).links.get? k = n.links.get? k := by
    intro k hk
    obtain ⟨l, hl, -⟩ := (h.stored.leaving.mem_iff i v hv k).1 hk
    rw [hl]
    exact Slots.get?_put_of_some hl _
  have hnew : (n.connect e tail head).links.get? n.links.next = some ⟨e, tail, head⟩ := by
    rw [get?_links_connect, if_pos rfl]
  simp only [linksFrom, get?_vertices_connect, hv, Option.map_some, ← h.slot_eq_iff hslot htail]
  split
  · rw [List.filterMap_cons_some hnew, List.filterMap_congr hkept, List.map_cons]
  · rw [List.filterMap_congr hkept]

/-- Every node lists the edges that leave it from the newest to the oldest. -/
def Newest (n : Network) : Prop :=
  ∀ node, n.outgoing node = (n.edges.filter (·.source = node)).reverse

theorem newest_empty : empty.Newest := by
  intro node
  have hnone : empty.slotOf? node = none := by simp [slotOf?, empty]
  simp only [outgoing, hnone]
  rfl

/-- An edge that is added is the newest at the node that it leaves, and no other node is
changed. -/
theorem WellFormed.outgoing_addEdge_of_new (h : n.WellFormed) (hnew : n.containsEdge e.id = false)
    (other : String) : (n.addEdge e).2.outgoing other =
      if other = e.source then e :: n.outgoing other else n.outgoing other := by
  have h1 := h.addNode e.source
  have htail := slotOf?_addNode_of_some (slotOf?_addNode_self n e.source) e.target
  rw [addEdge_of_new hnew, (h1.addNode e.target).outgoing_connect e htail, h1.outgoing_addNode,
    h.outgoing_addNode]

/-- A list with one more edge at its end has it first, read from the end, at the node that it
leaves. -/
theorem reverse_filter_concat (es : List Edge) (e : Edge) (node : String) :
    ((es ++ [e]).filter (·.source = node)).reverse =
      if node = e.source then e :: (es.filter (·.source = node)).reverse
      else (es.filter (·.source = node)).reverse := by
  by_cases hnode : e.source = node
  · simp [hnode]
  · simp [hnode, Ne.symm hnode]

/-- An added edge comes first among those that leave its source, as it should, being the
newest. -/
theorem Newest.addEdge (hnewest : n.Newest) (h : n.WellFormed) (hpacked : n.Packed) (e : Edge) :
    (n.addEdge e).2.Newest := by
  rcases hnew : n.containsEdge e.id with _ | _
  · intro node
    rw [edges_addEdge_of_new hpacked hnew, h.outgoing_addEdge_of_new hnew, hnewest,
      reverse_filter_concat]
  · rwa [addEdge_of_contains hnew]

/-- Where every node lists its edges as a list of all has them, the newest first, it goes on to
do so with what is left of the list, if an edge does not outlast the node that it leaves. -/
theorem Leaves.outgoing_eq_reverse {passNode : String → Bool} {passEdge : Edge → Bool}
    {n' : Network} (h : Leaves passNode passEdge n n') (hwell : n.WellFormed) {es : List Edge}
    (hlisted : ∀ node, n.outgoing node = (es.filter (·.source = node)).reverse)
    (hsource : ∀ e, passEdge e = true → passNode e.source = true) (node : String) :
    n'.outgoing node = ((es.filter passEdge).filter (·.source = node)).reverse := by
  rw [List.filter_filter]
  rcases hpass : passNode node with _ | _
  · rw [h.outgoing_eq_nil hwell hpass, eq_comm, List.reverse_eq_nil_iff, List.filter_eq_nil_iff]
    intro e _ he
    rw [Bool.and_eq_true, decide_eq_true_iff] at he
    obtain ⟨rfl, he⟩ := he
    rw [hsource e he] at hpass
    cases hpass
  · rw [h.outgoing_eq hwell hpass, hlisted, List.filter_reverse, List.filter_filter]
    simp only [Bool.and_comm]

/-- What is left of a network lists its edges as before, if an edge does not outlast the
node that it leaves. -/
theorem Leaves.newest {passNode : String → Bool} {passEdge : Edge → Bool} {n' : Network}
    (h : Leaves passNode passEdge n n') (hwell : n.WellFormed) (hnewest : n.Newest)
    (hsource : ∀ e, passEdge e = true → passNode e.source = true) : n'.Newest := by
  intro node
  rw [h.edges_eq]
  exact h.outgoing_eq_reverse hwell hnewest hsource node

/-- Networks that list the same edges, and every node's from the newest to the oldest, are
alike. -/
theorem alike_of_newest {n' : Network} (h : n.WellFormed) (h' : n'.WellFormed)
    (hnewest : n.Newest) (hnewest' : n'.Newest) (hedges : n.edges = n'.edges) : Alike n n' :=
  ⟨h, h', fun node => by rw [hnewest, hnewest', hedges]⟩

end Network

end Waybill
