import Waybill.Proofs.Adjacency

/-!
# What a network represents

A network is reached from the empty one by adding, removing and weighing anew
(`Operation`, `after`). Every operation keeps it well formed: its nodes and edges
are stored as `Stored` says, and each index leads from the key of every value to its
slot and nowhere else (`IsIndex`). From that, what the network answers is read off
what is in its slots (`represents_after`).
-/

namespace Waybill

/-! ## Indexes -/

section Index

variable {κ α : Type} [BEq κ] [LawfulBEq κ] [Hashable κ]
variable {index : Std.HashMap κ Nat} {slots slots' : Slots α} {key : α → κ}

/-- The index and the keys of the slots are inverse to each other: every entry of
the index leads to a value with that key, and from every value its key leads back. -/
def IsIndex (index : Std.HashMap κ Nat) (slots : Slots α) (key : α → κ) : Prop :=
  ∀ k i, index[k]? = some i ↔ (slots.get? i).map key = some k

omit [LawfulBEq κ] in
/-- An index stays one as long as every slot keeps its key, whatever else of the value
changes. -/
theorem IsIndex.congr (h : IsIndex index slots key)
    (hkeys : ∀ i, (slots'.get? i).map key = (slots.get? i).map key) :
    IsIndex index slots' key := fun k i => by rw [hkeys, h k i]

/-- A value with a new key is stored and entered; the slot it takes was led to by no key.
-/
theorem IsIndex.put (h : IsIndex index slots key) {a : α} (hnew : index[key a]? = none) :
    IsIndex (index.insert (key a) (slots.put a).1) (slots.put a).2 key := by
  intro k i
  rw [Std.HashMap.getElem?_insert, Slots.get?_put]
  have hfree : slots.get? (slots.put a).1 = none := Slots.get?_next slots
  by_cases hi : i = (slots.put a).1
  · rw [if_pos hi, Option.map_some]
    split
    · next hk => simp [hi, beq_iff_eq.1 hk]
    · next hk =>
      have hne : key a ≠ k := by simpa using hk
      simp only [Option.some.injEq, hne, iff_false]
      -- no key led to the slot while it was free
      intro hsome
      rw [h k i, hi, hfree] at hsome
      cases hsome
  · rw [if_neg hi]
    split
    · next hk =>
      obtain rfl := beq_iff_eq.1 hk
      rw [← h, hnew]
      simp [Ne.symm hi]
    · exact h k i

/-- A slot is vacated and its key taken from the index, which no other slot had. -/
theorem IsIndex.erase (h : IsIndex index slots key) {slot : Nat} {a : α}
    (ha : slots.get? slot = some a) : IsIndex (index.erase (key a)) (slots.vacate slot) key := by
  intro k i
  rw [Std.HashMap.getElem?_erase, Slots.get?_vacate]
  have hslot : index[key a]? = some slot := (h _ _).2 (by rw [ha, Option.map_some])
  split
  · next hk =>
    obtain rfl := beq_iff_eq.1 hk
    split
    · simp
    · next hi =>
      rw [← h, hslot]
      simp [Ne.symm hi]
  · next hk =>
    split
    · next hi =>
      rw [h, hi, ha]
      simpa using hk
    · exact h k i

omit [LawfulBEq κ] in
/-- No key is in two slots. -/
theorem IsIndex.slot_unique (h : IsIndex index slots key) {i j : Nat} {a b : α}
    (ha : slots.get? i = some a) (hb : slots.get? j = some b) (hkey : key a = key b) : i = j := by
  have hi := (h (key a) i).2 (by rw [ha, Option.map_some])
  have hj := (h (key a) j).2 (by rw [hb, Option.map_some, hkey])
  rw [hi] at hj
  exact Option.some.inj hj

omit [LawfulBEq κ] in
theorem IsIndex.nodup_keys (h : IsIndex index slots key) : (slots.values.map key).Nodup := by
  rw [← Slots.map_snd_entries, List.map_map]
  refine List.pairwise_map.2 ((Slots.nodup_entries slots).imp_of_mem ?_)
  rintro ⟨i, a⟩ ⟨j, b⟩ ha hb hne hkey
  rw [Slots.mem_entries_iff] at ha hb
  obtain rfl := h.slot_unique ha hb hkey
  rw [ha] at hb
  cases hb
  exact hne rfl

omit [LawfulBEq κ] in
/-- The index knows the keys that are stored and no others. -/
theorem IsIndex.isSome_iff (h : IsIndex index slots key) (k : κ) :
    (index[k]?).isSome ↔ k ∈ slots.values.map key := by
  rw [Option.isSome_iff_exists, List.mem_map]
  constructor
  · rintro ⟨i, hi⟩
    obtain ⟨a, ha, hkey⟩ := Option.map_eq_some_iff.1 ((h k i).1 hi)
    exact ⟨a, Slots.mem_values_iff.2 ⟨i, ha⟩, hkey⟩
  · rintro ⟨a, ha, hkey⟩
    obtain ⟨i, hi⟩ := Slots.mem_values_iff.1 ha
    exact ⟨i, (h k i).2 (by rw [hi, Option.map_some, hkey])⟩

end Index

/-! ## Well-formed networks -/

theorem Edge.of_weighted {id : EdgeId} {properties : Properties} {weight : Float} {e : Edge}
    (h : weighted id properties weight = .ok e) :
    e.id = id ∧ e.properties = properties ∧ e.weight.value = weight := by
  unfold weighted at h
  split at h
  · next w hw =>
    cases h
    exact ⟨rfl, rfl, Weight.value_of_ofFloat? hw⟩
  · cases h

namespace Network

variable {n : Network} {node : String} {slot : Nat} {e : Edge} {id : EdgeId} {l : Link}

/-- The slots are stored well, and the indexes lead to them. -/
structure WellFormed (n : Network) : Prop where
  stored : n.Stored
  indexed_nodes : IsIndex n.nodeIndex n.vertices (·.node)
  indexed_edges : IsIndex n.edgeIndex n.links (·.edge.id)

theorem wellFormed_empty : empty.WellFormed :=
  ⟨stored_empty, fun k i => by simp [empty], fun k i => by simp [empty]⟩

/-- Where the index of nodes leads, the node is. -/
theorem WellFormed.get?_of_slotOf? (h : n.WellFormed) (hslot : n.slotOf? node = some slot) :
    ∃ v, n.vertices.get? slot = some v ∧ v.node = node :=
  Option.map_eq_some_iff.1 ((h.indexed_nodes node slot).1 hslot)

theorem WellFormed.get?_of_linkOf? (h : n.WellFormed) (hslot : n.linkOf? id = some slot) :
    ∃ l, n.links.get? slot = some l ∧ l.edge.id = id :=
  Option.map_eq_some_iff.1 ((h.indexed_edges id slot).1 hslot)

/-! ### Adding -/

/-- The slot that a node is added at is the node's slot afterwards. -/
theorem slotOf?_addNode_self (n : Network) (node : String) :
    (n.addNode node).2.slotOf? node = some (n.addNode node).1 := by
  unfold addNode
  split
  · next h => exact h
  · simp [slotOf?]

theorem slotOf?_addNode_of_some (h : n.slotOf? node = some slot) (other : String) :
    (n.addNode other).2.slotOf? node = some slot := by
  unfold addNode
  split
  · exact h
  · next hnone =>
    have hne : other ≠ node := by
      rintro rfl
      rw [hnone] at h
      cases h
    simp only [slotOf?, Std.HashMap.getElem?_insert, beq_iff_eq, hne, if_false]
    exact h

theorem edgeIndex_addNode (n : Network) (node : String) :
    (n.addNode node).2.edgeIndex = n.edgeIndex := by
  unfold addNode
  split <;> rfl

theorem WellFormed.addNode (h : n.WellFormed) (node : String) : (n.addNode node).2.WellFormed := by
  unfold Network.addNode
  split
  · exact h
  · next hnone =>
    exact ⟨⟨h.stored.leaving.put rfl, h.stored.reaching.put rfl, h.stored.vertices_counted.put _,
      h.stored.links_counted⟩, h.indexed_nodes.put (a := ⟨node, [], []⟩) hnone, h.indexed_edges⟩

/-- An edge that is entered changes its two ends and no other node: it comes first among
the edges that leave the one and among those that reach the other. -/
theorem get?_vertices_connect (n : Network) (e : Edge) (tail head i : Nat) :
    (n.connect e tail head).vertices.get? i = (n.vertices.get? i).map fun v =>
      { v with
        leaving := if i = tail then n.links.next :: v.leaving else v.leaving
        reaching := if i = head then n.links.next :: v.reaching else v.reaching } := by
  simp only [connect, Slots.put, Slots.get?_update]
  rcases n.vertices.get? i with _ | v
  · split <;> split <;> rfl
  · split <;> split <;> rfl

theorem get?_links_connect (n : Network) (e : Edge) (tail head k : Nat) :
    (n.connect e tail head).links.get? k =
      if k = n.links.next then some ⟨e, tail, head⟩ else n.links.get? k :=
  Slots.get?_put n.links ⟨e, tail, head⟩ k

/-- Entering a new edge between the slots of its ends keeps a network well formed. -/
theorem WellFormed.connect (h : n.WellFormed) {tail head : Nat} (hnew : n.linkOf? e.id = none)
    (htail : ∃ v, n.vertices.get? tail = some v ∧ v.node = e.source)
    (hhead : ∃ v, n.vertices.get? head = some v ∧ v.node = e.target) :
    (n.connect e tail head).WellFormed := by
  have hfree := Slots.get?_next n.links
  refine ⟨⟨?_, ?_, ?_, ?_⟩, ?_, ?_⟩
  · exact h.stored.leaving.join hfree htail (get?_links_connect n e tail head)
      fun i => ⟨_, get?_vertices_connect n e tail head i, fun v => ⟨rfl, rfl⟩⟩
  · exact h.stored.reaching.join hfree hhead (get?_links_connect n e tail head)
      fun i => ⟨_, get?_vertices_connect n e tail head i, fun v => ⟨rfl, rfl⟩⟩
  · exact (h.stored.vertices_counted.update _ _).update _ _
  · exact h.stored.links_counted.put _
  · refine h.indexed_nodes.congr fun i => ?_
    rw [get?_vertices_connect, Option.map_map]
    rfl
  · exact h.indexed_edges.put (a := ⟨e, tail, head⟩) hnew

/-- A new edge is entered after both of its ends are there. -/
theorem addEdge_of_new (hnew : n.containsEdge e.id = false) :
    (n.addEdge e).2 = ((n.addNode e.source).2.addNode e.target).2.connect e
      (n.addNode e.source).1 ((n.addNode e.source).2.addNode e.target).1 := by
  simp only [Network.addEdge, hnew, Bool.false_eq_true, if_false]

/-- An edge that is there changes nothing when it is added. -/
theorem addEdge_of_contains (h : n.containsEdge e.id = true) : (n.addEdge e).2 = n := by
  simp only [Network.addEdge, h, if_true]

theorem WellFormed.addEdge (h : n.WellFormed) (e : Edge) : (n.addEdge e).2.WellFormed := by
  rcases hnew : n.containsEdge e.id with _ | _
  · rw [addEdge_of_new hnew]
    have h1 := h.addNode e.source
    have h2 := h1.addNode e.target
    have htail := slotOf?_addNode_of_some (slotOf?_addNode_self n e.source) e.target
    have hhead := slotOf?_addNode_self (n.addNode e.source).2 e.target
    -- both ends are nodes by now, and no node has moved
    refine h2.connect ?_ (h2.get?_of_slotOf? htail) (h2.get?_of_slotOf? hhead)
    rw [linkOf?, edgeIndex_addNode, edgeIndex_addNode]
    simpa [containsEdge, linkOf?] using hnew
  · rwa [addEdge_of_contains hnew]

/-! ### Removing -/

theorem WellFormed.removeEdge (h : n.WellFormed) (id : EdgeId) :
    (n.removeEdge id).2.WellFormed := by
  unfold Network.removeEdge
  split
  · exact h
  · next slot hslot =>
    obtain ⟨l, hl, rfl⟩ := h.get?_of_linkOf? hslot
    refine ⟨(h.stored.reindex _ _).dropLink slot, ?_, ?_⟩
    · rw [(index_dropLink _ slot).1]
      exact h.indexed_nodes.congr fun i => node_dropLink _ slot i
    · rw [(index_dropLink _ slot).2]
      refine (h.indexed_edges.erase hl).congr fun k => ?_
      rw [get?_links_dropLink, Slots.get?_vacate]

/-- What is left of an index when the keys of a list are taken from it one by one. -/
theorem getElem?_foldl_erase (ids : List EdgeId) (index : Std.HashMap EdgeId Nat) (id : EdgeId) :
    (ids.foldl (fun index id => index.erase id) index)[id]? =
      if id ∈ ids then none else index[id]? := by
  induction ids generalizing index with
  | nil => rfl
  | cons other ids ih =>
    rw [List.foldl_cons, ih, Std.HashMap.getElem?_erase]
    by_cases hid : id ∈ ids
    · simp [hid]
    · by_cases heq : id = other
      · simp [heq]
      · simp [hid, heq, Ne.symm heq]

/-- The links listed as leaving a node are the stored ones whose tail it is. -/
theorem Stored.mem_linksFrom_iff (h : n.Stored) {v : Vertex} (hv : n.vertices.get? slot = some v) :
    l ∈ n.linksFrom slot ↔ ∃ k, n.links.get? k = some l ∧ l.tail = slot := by
  simp only [linksFrom, hv]
  exact h.leaving.mem_filterMap_iff hv

/-- The links listed as reaching a node are the stored ones whose head it is. -/
theorem Stored.mem_linksTo_iff (h : n.Stored) {v : Vertex} (hv : n.vertices.get? slot = some v) :
    l ∈ n.linksTo slot ↔ ∃ k, n.links.get? k = some l ∧ l.head = slot := by
  simp only [linksTo, hv]
  exact h.reaching.mem_filterMap_iff hv

/-- The identities collected around a node are those of the stored links with that end, so
that removing a node takes the right keys from the index of edges. -/
theorem Stored.mem_incident_iff (h : n.Stored) {v : Vertex} (hv : n.vertices.get? slot = some v) :
    id ∈ n.incident slot ↔
      ∃ k l, n.links.get? k = some l ∧ (l.tail = slot ∨ l.head = slot) ∧ l.edge.id = id := by
  simp only [incident, List.mem_map, List.mem_append, h.mem_linksFrom_iff hv,
    h.mem_linksTo_iff hv]
  constructor
  · rintro ⟨l, ⟨k, hl, htail⟩ | ⟨k, hl, hhead⟩, rfl⟩
    · exact ⟨k, l, hl, .inl htail, rfl⟩
    · exact ⟨k, l, hl, .inr hhead, rfl⟩
  · rintro ⟨k, l, hl, htail | hhead, rfl⟩
    · exact ⟨l, .inl ⟨k, hl, htail⟩, rfl⟩
    · exact ⟨l, .inr ⟨k, hl, hhead⟩, rfl⟩

/-- Without the identities of the edges of a node, the index leads to the edges that
do not touch it. -/
theorem WellFormed.isIndex_foldl_erase (h : n.WellFormed) {v : Vertex}
    (hv : n.vertices.get? slot = some v) {links : Slots Link}
    (hlinks : ∀ k l, links.get? k = some l ↔
      n.links.get? k = some l ∧ l.tail ≠ slot ∧ l.head ≠ slot) :
    IsIndex ((n.incident slot).foldl (fun index id => index.erase id) n.edgeIndex) links
      (·.edge.id) := by
  intro id k
  rw [getElem?_foldl_erase, Option.map_eq_some_iff]
  simp only [hlinks]
  constructor
  · intro hk
    split at hk
    · cases hk
    · next hnot =>
      obtain ⟨l, hl, rfl⟩ := Option.map_eq_some_iff.1 ((h.indexed_edges id k).1 hk)
      refine ⟨l, ⟨hl, fun htail => hnot ?_, fun hhead => hnot ?_⟩, rfl⟩
      · exact (h.stored.mem_incident_iff hv).2 ⟨k, l, hl, .inl htail, rfl⟩
      · exact (h.stored.mem_incident_iff hv).2 ⟨k, l, hl, .inr hhead, rfl⟩
  · rintro ⟨l, ⟨hl, htail, hhead⟩, rfl⟩
    rw [if_neg, h.indexed_edges, hl, Option.map_some]
    -- an edge of that identity at the node would be this one
    rw [h.stored.mem_incident_iff hv]
    rintro ⟨k', l', hl', hend, hid⟩
    obtain rfl := h.indexed_edges.slot_unique hl' hl hid
    rw [hl] at hl'
    cases hl'
    exact hend.elim htail hhead

/-- A node goes with every edge at it, and the indexes lose just these. -/
theorem WellFormed.removeNode (h : n.WellFormed) (node : String) :
    (n.removeNode node).2.WellFormed := by
  unfold Network.removeNode
  split
  · exact h
  · next slot hslot =>
    obtain ⟨v, hv, rfl⟩ := h.get?_of_slotOf? hslot
    -- the indexes are cleared before the edges are dropped
    generalize hedges : (n.incident slot).foldl (fun index id => index.erase id) n.edgeIndex = index
    obtain ⟨hstored, hlinks, hnodes⟩ :=
      (h.stored.reindex (n.nodeIndex.erase v.node) index).isolate hv
    have hindex :=
      index_isolate { n with nodeIndex := n.nodeIndex.erase v.node, edgeIndex := index } slot
    dsimp only at *
    generalize Network.isolate _ slot = m at *
    refine ⟨⟨?_, ?_, ?_, ?_⟩, ?_, ?_⟩
    · exact hstored.leaving.vacate fun k l hl => ((hlinks k l).1 hl).2.1
    · exact hstored.reaching.vacate fun k l hl => ((hlinks k l).1 hl).2.2
    · exact hstored.vertices_counted.vacate slot
    · exact hstored.links_counted
    · rw [hindex.1]
      refine (h.indexed_nodes.erase hv).congr fun i => ?_
      rw [Slots.get?_vacate, Slots.get?_vacate]
      split
      · rfl
      · exact hnodes i
    · rw [hindex.2, ← hedges]
      exact h.isIndex_foldl_erase hv hlinks

/-! ### Weighing anew -/

/-- A weight set anew keeps the identity of its edge, which is all that the index of edges
knows. -/
theorem WellFormed.setWeight (h : n.WellFormed) (id : EdgeId) (weight : Float) :
    (n.setWeight id weight).2.WellFormed := by
  unfold Network.setWeight
  split
  · exact h
  · next slot hslot =>
    split
    · exact h
    · next l hl =>
      split
      · exact h
      · next edge hedge =>
        -- weighing anew keeps the identity, and with it the ends
        have hid : edge.id = l.edge.id := (Edge.of_weighted hedge).1
        refine ⟨⟨?_, ?_, ?_, ?_⟩, ?_, ?_⟩
        · refine h.stored.leaving.update fun l' hl' => ⟨rfl, ?_⟩
          rw [hl] at hl'
          cases hl'
          exact congrArg EdgeId.source hid
        · refine h.stored.reaching.update fun l' hl' => ⟨rfl, ?_⟩
          rw [hl] at hl'
          cases hl'
          exact congrArg EdgeId.target hid
        · exact h.stored.vertices_counted
        · exact h.stored.links_counted.update _ _
        · exact h.indexed_nodes
        · refine h.indexed_edges.congr fun k => ?_
          rw [Slots.get?_update]
          split
          · next hk => simp [hk, hl, hid]
          · rfl

/-! ## Every network that is reached -/

/-- What may be done to a network. -/
inductive Operation where
  | addNode (node : String)
  | addEdge (e : Edge)
  | removeNode (node : String)
  | removeEdge (id : EdgeId)
  | setWeight (id : EdgeId) (weight : Float)

/-- The network after an operation, whatever the operation answers. -/
def apply (n : Network) : Operation → Network
  | .addNode node => (n.addNode node).2
  | .addEdge e => (n.addEdge e).2
  | .removeNode node => (n.removeNode node).2
  | .removeEdge id => (n.removeEdge id).2
  | .setWeight id weight => (n.setWeight id weight).2

/-- The network after some operations on the empty one. -/
def after (ops : List Operation) : Network := ops.foldl apply empty

/-- **What one step keeps.** Every operation keeps a network well formed. -/
theorem WellFormed.apply (h : n.WellFormed) (op : Operation) : (n.apply op).WellFormed := by
  cases op with
  | addNode node => exact h.addNode node
  | addEdge e => exact h.addEdge e
  | removeNode node => exact h.removeNode node
  | removeEdge id => exact h.removeEdge id
  | setWeight id weight => exact h.setWeight id weight

/-- And so does any run of operations. -/
theorem WellFormed.foldl_apply (h : n.WellFormed) (ops : List Operation) :
    (ops.foldl Network.apply n).WellFormed := by
  induction ops generalizing n with
  | nil => exact h
  | cons op ops ih => exact ih (h.apply op)

/-- **Every network that is reached is well formed.** -/
theorem wellFormed_after (ops : List Operation) : (after ops).WellFormed :=
  wellFormed_empty.foldl_apply ops

/-! ### A node keeps its slot -/

theorem slotOf?_connect (n : Network) (e : Edge) (tail head : Nat) (node : String) :
    (n.connect e tail head).slotOf? node = n.slotOf? node := rfl

/-- A node keeps its slot when an edge is added, one at the node included. -/
theorem slotOf?_addEdge_of_some (h : n.slotOf? node = some slot) (e : Edge) :
    (n.addEdge e).2.slotOf? node = some slot := by
  rcases hnew : n.containsEdge e.id with _ | _
  · rw [addEdge_of_new hnew, slotOf?_connect]
    exact slotOf?_addNode_of_some (slotOf?_addNode_of_some h e.source) e.target
  · rwa [addEdge_of_contains hnew]

/-- A node keeps its slot when another is removed. -/
theorem slotOf?_removeNode_of_ne {other : String} (hne : other ≠ node) :
    (n.removeNode other).2.slotOf? node = n.slotOf? node := by
  unfold Network.removeNode
  split
  · rfl
  · simp only [slotOf?, (index_isolate _ _).1, Std.HashMap.getElem?_erase, beq_iff_eq, hne,
      if_false]

theorem slotOf?_removeEdge (n : Network) (id : EdgeId) (node : String) :
    (n.removeEdge id).2.slotOf? node = n.slotOf? node := by
  unfold Network.removeEdge
  split
  · rfl
  · simp only [slotOf?, (index_dropLink _ _).1]

/-- Weights are no matter of nodes and their slots. -/
theorem slotOf?_setWeight (n : Network) (id : EdgeId) (weight : Float) (node : String) :
    (n.setWeight id weight).2.slotOf? node = n.slotOf? node := by
  unfold Network.setWeight
  split
  · rfl
  · split
    · rfl
    · split <;> rfl

/-- One operation moves no node: a node keeps its slot unless it is removed. -/
theorem slotOf?_apply_of_some (h : n.slotOf? node = some slot) {op : Operation}
    (hop : op ≠ .removeNode node) : (n.apply op).slotOf? node = some slot := by
  cases op with
  | addNode other => exact slotOf?_addNode_of_some h other
  | addEdge e => exact slotOf?_addEdge_of_some h e
  | removeNode other =>
    have hne : other ≠ node := fun heq => hop (heq ▸ rfl)
    exact (slotOf?_removeNode_of_ne hne).trans h
  | removeEdge id => exact (slotOf?_removeEdge n id node).trans h
  | setWeight id weight => exact (slotOf?_setWeight n id weight node).trans h

/-- A node keeps its slot for as long as no operation removes it. -/
theorem slotOf?_foldl_apply_of_some (h : n.slotOf? node = some slot) {ops : List Operation}
    (hops : .removeNode node ∉ ops) : (ops.foldl Network.apply n).slotOf? node = some slot := by
  induction ops generalizing n with
  | nil => exact h
  | cons op ops ih =>
    simp only [List.mem_cons, not_or] at hops
    exact ih (slotOf?_apply_of_some h (Ne.symm hops.1)) hops.2

/-! ### What is read off -/

/-- What a network represents: its nodes, each once, and its edges, each once, between
those nodes. -/
structure Represents (n : Network) : Prop where
  /-- The node index is a bijection between the names of the nodes and their slots. -/
  nodeIndex : IsIndex n.nodeIndex n.vertices (·.node)
  /-- The edge index is a bijection between the identities of the edges and their
  slots. -/
  edgeIndex : IsIndex n.edgeIndex n.links (·.edge.id)
  containsNode_iff : ∀ node, n.containsNode node ↔ node ∈ n.nodes
  containsEdge_iff : ∀ id, n.containsEdge id ↔ ∃ e ∈ n.edges, e.id = id
  edge?_iff : ∀ id e, n.edge? id = some e ↔ e ∈ n.edges ∧ e.id = id
  nodup_nodes : n.nodes.Nodup
  nodup_edges : (n.edges.map (·.id)).Nodup
  /-- The node that an edge leaves is the source it says. -/
  tail_eq : ∀ slot l, n.links.get? slot = some l →
    (n.vertices.get? l.tail).map (·.node) = some l.edge.source
  /-- The node that an edge reaches is the target it says. -/
  head_eq : ∀ slot l, n.links.get? slot = some l →
    (n.vertices.get? l.head).map (·.node) = some l.edge.target
  nodeCount_eq : n.nodeCount = n.nodes.length
  edgeCount_eq : n.edgeCount = n.edges.length

/-- The edges of a network are those that are stored in its slots. -/
theorem mem_edges_iff : e ∈ n.edges ↔ ∃ slot l, n.links.get? slot = some l ∧ l.edge = e := by
  simp only [edges, List.mem_map, Slots.mem_values_iff]
  constructor
  · rintro ⟨l, ⟨slot, hl⟩, heq⟩
    exact ⟨slot, l, hl, heq⟩
  · rintro ⟨slot, l, hl, heq⟩
    exact ⟨l, ⟨slot, hl⟩, heq⟩

/-- An edge is found by its identity, and it is the only one with that identity. -/
theorem WellFormed.edge?_eq_some_iff (h : n.WellFormed) :
    n.edge? id = some e ↔ e ∈ n.edges ∧ e.id = id := by
  rw [mem_edges_iff]
  simp only [edge?, linkOf?, Option.map_eq_some_iff, Option.bind_eq_some_iff]
  constructor
  · rintro ⟨l, ⟨slot, hslot, hl⟩, rfl⟩
    obtain ⟨l', hl', hid⟩ := h.get?_of_linkOf? hslot
    rw [hl] at hl'
    cases hl'
    exact ⟨⟨slot, l, hl, rfl⟩, hid⟩
  · rintro ⟨⟨slot, l, hl, rfl⟩, rfl⟩
    exact ⟨l, ⟨slot, (h.indexed_edges _ _).2 (by rw [hl, Option.map_some]), hl⟩, rfl⟩

/-- A well-formed network answers for the graph of what is stored in its slots. -/
theorem WellFormed.represents (h : n.WellFormed) : n.Represents where
  nodeIndex := h.indexed_nodes
  edgeIndex := h.indexed_edges
  containsNode_iff node := h.indexed_nodes.isSome_iff node
  containsEdge_iff id := by
    rw [containsEdge, linkOf?, h.indexed_edges.isSome_iff id]
    simp only [edges, List.mem_map]
    constructor
    · rintro ⟨l, hl, hid⟩
      exact ⟨l.edge, ⟨l, hl, rfl⟩, hid⟩
    · rintro ⟨e, ⟨l, hl, rfl⟩, hid⟩
      exact ⟨l, hl, hid⟩
  edge?_iff id e := h.edge?_eq_some_iff
  nodup_nodes := h.indexed_nodes.nodup_keys
  nodup_edges := by
    rw [edges, List.map_map]
    exact h.indexed_edges.nodup_keys
  tail_eq slot l hl := by
    obtain ⟨v, hv, hname⟩ := h.stored.leaving.live slot l hl
    rw [hv, Option.map_some, hname]
  head_eq slot l hl := by
    obtain ⟨v, hv, hname⟩ := h.stored.reaching.live slot l hl
    rw [hv, Option.map_some, hname]
  nodeCount_eq := by
    rw [nodes, List.length_map]
    exact h.stored.vertices_counted
  edgeCount_eq := by
    rw [edges, List.length_map]
    exact h.stored.links_counted

/-- **Every network that is reached represents its nodes and edges**, and the slot
that a node is added at stays its slot until the node is removed. -/
theorem represents_after (ops : List Operation) :
    (after ops).Represents ∧ ∀ (node : String) (later : List Operation),
      .removeNode node ∉ later →
        (after (ops ++ .addNode node :: later)).slotOf? node =
          some ((after ops).addNode node).1 := by
  refine ⟨(wellFormed_after ops).represents, fun node later hlater => ?_⟩
  rw [after, List.foldl_append, List.foldl_cons]
  exact slotOf?_foldl_apply_of_some (slotOf?_addNode_self (after ops) node) hlater

/-- A node that is added in a vacated slot keeps it while another is removed. -/
theorem slotOf?_after_reuse :
    Operation.removeNode "c" ∉ [Operation.removeNode "b", .addNode "d"] ∧
      (after ([.addNode "a", .addNode "b", .removeNode "a"] ++
        .addNode "c" :: [.removeNode "b", .addNode "d"])).slotOf? "c" =
          some ((after [.addNode "a", .addNode "b", .removeNode "a"]).addNode "c").1 := by
  have hlater : Operation.removeNode "c" ∉ [Operation.removeNode "b", .addNode "d"] := by simp
  exact ⟨hlater, (represents_after [.addNode "a", .addNode "b", .removeNode "a"]).2 "c" _ hlater⟩

end Network

end Waybill
