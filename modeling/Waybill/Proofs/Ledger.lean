import Waybill.Proofs.Retuning

/-!
# Networks as lists of edges

A network keeps its edges in slots that are handed out again, and every node links the edges at
it. What it answers about them does not show that: it is read off a plain list of the edges in the
order in which they were added (`ledger`), where what is removed is left out and what is added
again stands at the end (`readsOff_ledger`). Every operation keeps the list and the network in
step (`Entered.apply`). The order of the slots is the one thing that the list does not tell.
-/

namespace Waybill.Network

variable {n : Network} {es : List Edge} {id : EdgeId}

/-! ## The list -/

/-- A list of edges, in the order in which they were added, after an operation. -/
def enter (es : List Edge) : Operation → List Edge
  | .addNode _ => es
  | .addEdge e => if e.id ∈ es.map (·.id) then es else es ++ [e]
  | .removeNode node => es.filter fun e => e.source ≠ node ∧ e.target ≠ node
  | .removeEdge id => es.filter (·.id ≠ id)
  | .setWeight id weight =>
    match Weight.ofFloat? weight with
    | some weight => es.map fun e => if e.id = id then { e with weight } else e
    | none => es

/-- The edges that are there after some operations, the one added last at the end. -/
def ledger (ops : List Operation) : List Edge := ops.foldl enter []

/-! ## List and network in step -/

/-- The network has the edges of the list, and every node lists those that leave it from the end
of the list to its start. -/
structure Entered (es : List Edge) (n : Network) : Prop where
  wellFormed : n.WellFormed
  perm_edges : n.edges.Perm es
  outgoing_eq : ∀ node, n.outgoing node = (es.filter (·.source = node)).reverse

theorem entered_empty : Entered [] empty :=
  ⟨wellFormed_empty, .nil, newest_empty⟩

theorem Entered.nodup (h : Entered es n) : (es.map (·.id)).Nodup :=
  (h.perm_edges.map _).nodup_iff.1 h.wellFormed.represents.nodup_edges

theorem Entered.containsEdge_iff (h : Entered es n) : n.containsEdge id ↔ id ∈ es.map (·.id) := by
  rw [h.wellFormed.containsEdge_iff, List.mem_map]
  simp only [h.perm_edges.mem_iff]

/-- A node enters nothing. -/
theorem Entered.addNode (h : Entered es n) (node : String) : Entered es (n.addNode node).2 where
  wellFormed := h.wellFormed.addNode node
  perm_edges := by
    rw [edges_addNode]
    exact h.perm_edges
  outgoing_eq other := by rw [h.wellFormed.outgoing_addNode, h.outgoing_eq]

/-- A new edge is put into whatever slot is free. -/
theorem perm_edges_addEdge_of_new {e : Edge} (hnew : n.containsEdge e.id = false) :
    (n.addEdge e).2.edges.Perm (e :: n.edges) := by
  have hconnect : ∀ (m : Network) (tail head : Nat),
      (m.connect e tail head).edges.Perm (e :: m.edges) := fun m tail head =>
    (Slots.perm_values_put m.links ⟨e, tail, head⟩).map Link.edge
  rw [addEdge_of_new hnew]
  refine (hconnect _ _ _).trans ?_
  rw [edges_addNode, edges_addNode]

/-- A new edge is entered at the end; one that is there leaves the ledger as it is. -/
theorem Entered.addEdge (h : Entered es n) (e : Edge) :
    Entered (enter es (.addEdge e)) (n.addEdge e).2 := by
  rw [enter]
  rcases hnew : n.containsEdge e.id with _ | _
  · rw [if_neg (by rw [← h.containsEdge_iff, hnew]; nofun)]
    refine ⟨h.wellFormed.addEdge e, ?_, fun node => ?_⟩
    · exact ((perm_edges_addEdge_of_new hnew).trans (h.perm_edges.cons e)).trans
        (List.perm_append_singleton e es).symm
    · rw [h.wellFormed.outgoing_addEdge_of_new hnew, h.outgoing_eq, reverse_filter_concat]
  · rw [if_pos (h.containsEdge_iff.1 hnew), addEdge_of_contains hnew]
    exact h

/-- What is left of a network keeps step with what is left of the list. -/
theorem Entered.leaves (h : Entered es n) {passNode : String → Bool} {passEdge : Edge → Bool}
    {n' : Network} (hleaves : Leaves passNode passEdge n n')
    (hsource : ∀ e, passEdge e = true → passNode e.source = true) :
    Entered (es.filter passEdge) n' where
  wellFormed := hleaves.wellFormed
  perm_edges := by
    rw [hleaves.edges_eq]
    exact h.perm_edges.filter passEdge
  outgoing_eq := hleaves.outgoing_eq_reverse h.wellFormed h.outgoing_eq hsource

/-- A value that is no weight changes nothing. -/
theorem setWeight_of_ofFloat?_eq_none {weight : Float} (hnone : Weight.ofFloat? weight = none)
    (n : Network) (id : EdgeId) : (n.setWeight id weight).2 = n := by
  unfold setWeight
  split
  · rfl
  · split
    · rfl
    · simp only [Edge.setWeight, Edge.weighted, hnone]

/-- A weight set anew is corrected where the edge stands, and a refused one is not. -/
theorem Entered.setWeight (h : Entered es n) (id : EdgeId) (weight : Float) :
    Entered (enter es (.setWeight id weight)) (n.setWeight id weight).2 := by
  rw [enter]
  rcases hweight : Weight.ofFloat? weight with _ | w
  · rw [setWeight_of_ofFloat?_eq_none hweight]
    exact h
  · have hset := h.wellFormed.setWeight_eq ⟨id, w⟩
    have hwell := h.wellFormed.setWeight id weight
    rw [Weight.value_of_ofFloat? hweight] at hset
    rw [hset] at hwell ⊢
    have hretuned : (fun e : Edge => if e.id = id then { e with weight := w } else e) =
        Edge.retuned (Override.last [⟨id, w⟩]) := (Edge.retuned_singleton ⟨id, w⟩).symm
    dsimp only
    rw [hretuned]
    refine ⟨hwell, ?_, fun node => ?_⟩
    · rw [edges_retuned]
      exact h.perm_edges.map _
    · -- another weight does not move an edge to another node
      have hsource : ((fun e : Edge => decide (e.source = node)) ∘
          Edge.retuned (Override.last [⟨id, w⟩])) = fun e => decide (e.source = node) := rfl
      rw [outgoing_retuned, h.outgoing_eq, List.filter_map, hsource, List.map_reverse]

/-- **Every operation keeps list and network in step.** -/
theorem Entered.apply (h : Entered es n) (op : Operation) : Entered (enter es op) (n.apply op) := by
  cases op with
  | addNode node => exact h.addNode node
  | addEdge e => exact h.addEdge e
  | removeNode node =>
    refine h.leaves (leaves_removeNode h.wellFormed node) fun e he => decide_eq_true ?_
    exact (of_decide_eq_true he).1
  | removeEdge id => exact h.leaves (leaves_removeEdge h.wellFormed id) fun _ _ => rfl
  | setWeight id weight => exact h.setWeight id weight

/-- **A run is kept account of step by step.** -/
theorem Entered.foldl_apply (h : Entered es n) (ops : List Operation) :
    Entered (ops.foldl enter es) (ops.foldl Network.apply n) := by
  induction ops generalizing es n with
  | nil => exact h
  | cons op ops ih => exact ih (h.apply op)

/-- So every network that is reached has its ledger. -/
theorem entered_after (ops : List Operation) : Entered (ledger ops) (after ops) :=
  entered_empty.foldl_apply ops

/-! ## What is read off the list -/

/-- Listed one after another, the edges of a network are found in ascending slots. -/
theorem WellFormed.exists_slots_of_edges (h : n.WellFormed) :
    ∃ slots : List Nat, n.edges.map (fun e => n.linkOf? e.id) = slots.map some ∧
      slots.Pairwise (· < ·) := by
  refine ⟨n.links.entries.map (·.1), ?_, List.pairwise_map.2 (Slots.pairwise_lt_entries _)⟩
  rw [edges, ← Slots.map_snd_entries, List.map_map, List.map_map, List.map_map]
  refine List.map_congr_left fun x hl => ?_
  obtain ⟨k, l⟩ := x
  exact (h.indexed_edges l.edge.id k).2 (by rw [Slots.mem_entries_iff.1 hl, Option.map_some])

/-- The edges between two nodes are those that leave the one for the other. -/
theorem WellFormed.edgesBetween_eq (h : n.WellFormed) (a b : String) :
    n.edgesBetween a b = (n.outgoing a).filter (·.target = b) := by
  unfold edgesBetween
  rcases ha : n.slotOf? a with _ | i
  · simp [outgoing, ha]
  rcases hb : n.slotOf? b with _ | j
  · -- no edge leads to a node that is not there
    refine (List.filter_eq_nil_iff.2 fun e he htarget => ?_).symm
    have hcontains := (h.containsNode_of_mem_edges (h.mem_outgoing_iff.1 he).1).2
    rw [of_decide_eq_true htarget, containsNode, hb] at hcontains
    cases hcontains
  · exact h.linksBetween_map_edge ha hb

/-- What a network answers about its edges, read off a list of them in the order in which they
were added. -/
structure ReadsOff (es : List Edge) (n : Network) : Prop where
  /-- No identity is in the list twice. -/
  nodup : (es.map (·.id)).Nodup
  /-- All edges, in the order of their slots, are those of the list. -/
  edges : n.edges.Perm es ∧ ∃ slots : List Nat,
    n.edges.map (fun e => n.linkOf? e.id) = slots.map some ∧ slots.Pairwise (· < ·)
  /-- The edges that leave a node, the newest first. -/
  outgoing_eq : ∀ node, n.outgoing node = (es.filter (·.source = node)).reverse
  edgesBetween_eq : ∀ a b, n.edgesBetween a b = (n.outgoing a).filter (·.target = b)
  firstBetween?_eq : ∀ a b, n.firstBetween? a b = (n.edgesBetween a b).head?
  hasEdgeBetween_iff : ∀ a b, n.hasEdgeBetween a b ↔ n.edgesBetween a b ≠ []
  /-- Nothing leaves a node that is not there. -/
  absent : ∀ a, n.containsNode a = false → n.outgoing a = []
  /-- Nothing joins two nodes one of which is not there. -/
  absent_between : ∀ a b, n.containsNode a = false ∨ n.containsNode b = false →
    n.edgesBetween a b = [] ∧ n.firstBetween? a b = none ∧ n.hasEdgeBetween a b = false

/-- The first edge between two nodes is the first of them all. -/
theorem WellFormed.firstBetween?_eq_head? (h : n.WellFormed) (a b : String) :
    n.firstBetween? a b = (n.edgesBetween a b).head? := by
  rw [h.firstBetween?_eq, h.edgesBetween_eq, List.head?_filter]

/-- There is an edge between two nodes if there are any to list. -/
theorem WellFormed.hasEdgeBetween_iff (h : n.WellFormed) (a b : String) :
    n.hasEdgeBetween a b ↔ n.edgesBetween a b ≠ [] := by
  rw [hasEdgeBetween, h.firstBetween?_eq_head?, List.isSome_head?]

theorem outgoing_of_containsNode_eq_false {a : String} (ha : n.containsNode a = false) :
    n.outgoing a = [] := by
  have hnone : n.slotOf? a = none := by simpa [containsNode] using ha
  simp only [outgoing, hnone]

/-- Nothing joins two nodes of which one is not there. -/
theorem edgesBetween_of_containsNode_eq_false {a b : String}
    (hab : n.containsNode a = false ∨ n.containsNode b = false) : n.edgesBetween a b = [] := by
  have hnone : n.slotOf? a = none ∨ n.slotOf? b = none := by simpa [containsNode] using hab
  unfold edgesBetween
  rcases hnone with ha | hb
  · rw [ha]
  · rw [hb]
    rcases n.slotOf? a with _ | i <;> rfl

/-- What the network answers is read off its ledger. -/
theorem Entered.readsOff (h : Entered es n) : ReadsOff es n where
  nodup := h.nodup
  edges := ⟨h.perm_edges, h.wellFormed.exists_slots_of_edges⟩
  outgoing_eq := h.outgoing_eq
  edgesBetween_eq := h.wellFormed.edgesBetween_eq
  firstBetween?_eq := h.wellFormed.firstBetween?_eq_head?
  hasEdgeBetween_iff := h.wellFormed.hasEdgeBetween_iff
  absent _ := outgoing_of_containsNode_eq_false
  absent_between a b hab := by
    have hnil := edgesBetween_of_containsNode_eq_false hab
    have hnone : n.firstBetween? a b = none := by
      rw [h.wellFormed.firstBetween?_eq_head?, hnil, List.head?_nil]
    exact ⟨hnil, hnone, by rw [hasEdgeBetween, hnone]; rfl⟩

/-- **What a network answers about its edges is read off the list of them in the order in which
they were added**, whatever was removed in between and whatever slots were handed out again. -/
theorem readsOff_ledger (ops : List Operation) : ReadsOff (ledger ops) (after ops) :=
  (entered_after ops).readsOff

/-- An edge that is removed and added again is the newest. -/
example : ledger [.addEdge single, .addEdge ⟨⟨"a", "c", default⟩, ∅, .one⟩,
    .removeEdge single.id, .addEdge single] = [⟨⟨"a", "c", default⟩, ∅, .one⟩, single] := by decide

end Waybill.Network
