import Mathlib.Data.List.Nodup
import Waybill.Policy.Basic
import Waybill.Proofs.Contents

/-!
# What removals leave

Removing nodes and edges moves nothing that stays: nodes and edges keep their slots,
and a node goes on listing the edges that leave it in the order in which it did
(`Leaves`). So the listings of what is left are the old ones less what is gone
(`Leaves.nodes_eq`, `Leaves.edges_eq`, `Leaves.outgoing_eq`), and that says nothing of
the order in which the removals were made.
-/

namespace Waybill

/-- A sublist without repetitions is told by its members. -/
theorem eq_filter_of_sublist {α : Type} {l l' : List α} {p : α → Bool} (hsub : l'.Sublist l)
    (hnodup : l.Nodup) (hmem : ∀ a ∈ l, a ∈ l' ↔ p a = true) : l' = l.filter p := by
  have hall : l'.filter p = l' :=
    List.filter_eq_self.2 fun a ha => (hmem a (hsub.subset ha)).1 ha
  have hsub' : l'.Sublist (l.filter p) := hall ▸ hsub.filter p
  refine hsub'.eq_of_length_le ((hnodup.filter p).length_le_of_subset fun a ha => ?_)
  obtain ⟨hal, hpa⟩ := List.mem_filter.1 ha
  exact (hmem a hal).2 hpa

namespace Network

variable {n n' n'' : Network} {node : String} {slot : Nat}
variable {passNode passNode' : String → Bool} {passEdge passEdge' : Edge → Bool}

/-! ## The order of the edges that leave a node -/

/-- Every node that is still there lists some of the edges that left it before, in the
old order. -/
def Thins (n n' : Network) : Prop :=
  ∀ i v', n'.vertices.get? i = some v' →
    ∃ v, n.vertices.get? i = some v ∧ v'.leaving.Sublist v.leaving

/-- A network with the same nodes in the same slots keeps the order of every list of
edges. -/
theorem thins_of_vertices_eq (h : n'.vertices = n.vertices) : Thins n n' :=
  fun _ v' hv' => ⟨v', h ▸ hv', .refl _⟩

/-- Thinning twice is thinning. -/
theorem Thins.trans (h : Thins n n') (h' : Thins n' n'') : Thins n n'' := by
  intro i v'' hv''
  obtain ⟨v', hv', hsub'⟩ := h' i v'' hv''
  obtain ⟨v, hv, hsub⟩ := h i v' hv'
  exact ⟨v, hv, hsub'.trans hsub⟩

/-- Dropping a link takes it out of two lists and leaves the order of the rest. -/
theorem thins_dropLink (n : Network) (slot : Nat) : Thins n (n.dropLink slot) := by
  rcases hold : n.links.get? slot with _ | l
  · refine thins_of_vertices_eq ?_
    simp only [dropLink, hold]
  · intro i v' hv'
    rw [get?_vertices_dropLink hold, Option.map_eq_some_iff] at hv'
    obtain ⟨v, hv, rfl⟩ := hv'
    refine ⟨v, hv, ?_⟩
    dsimp only
    split
    · exact List.erase_sublist
    · exact .refl _

theorem thins_foldl_dropLink (n : Network) (slots : List Nat) :
    Thins n (slots.foldl dropLink n) := by
  induction slots generalizing n with
  | nil => exact thins_of_vertices_eq rfl
  | cons slot slots ih => exact (thins_dropLink n slot).trans (ih _)

theorem thins_isolate (n : Network) (slot : Nat) : Thins n (n.isolate slot) :=
  (thins_foldl_dropLink n _).trans (thins_foldl_dropLink _ _)

theorem thins_removeEdge (n : Network) (id : EdgeId) : Thins n (n.removeEdge id).2 := by
  unfold removeEdge
  split
  · exact thins_of_vertices_eq rfl
  · next slot _ =>
    have hindex : Thins n { n with edgeIndex := n.edgeIndex.erase id } := thins_of_vertices_eq rfl
    exact hindex.trans (thins_dropLink _ slot)

/-- The other nodes keep their edges in order when a node is removed. -/
theorem thins_removeNode (n : Network) (node : String) : Thins n (n.removeNode node).2 := by
  unfold removeNode
  split
  · exact thins_of_vertices_eq rfl
  · next slot hslot =>
    intro i v' hv'
    rw [Slots.get?_vacate] at hv'
    split at hv'
    · cases hv'
    · -- the indexes are cleared first, which leaves the nodes as they are
      have hthins := thins_isolate { n with
        nodeIndex := n.nodeIndex.erase node
        edgeIndex := (n.incident slot).foldl (fun index id => index.erase id) n.edgeIndex } slot
      exact hthins i v' hv'

/-! ## What is left -/

/-- What is left of a network: the nodes and the edges that pass, all in their slots,
and the edges that leave a node in the old order. -/
structure Leaves (passNode : String → Bool) (passEdge : Edge → Bool) (n n' : Network) : Prop where
  wellFormed : n'.WellFormed
  vertices : ∀ i node, (n'.vertices.get? i).map (·.node) = some node ↔
    (n.vertices.get? i).map (·.node) = some node ∧ passNode node = true
  links : ∀ k l, n'.links.get? k = some l ↔ n.links.get? k = some l ∧ passEdge l.edge = true
  thins : Thins n n'

theorem leaves_self (h : n.WellFormed) : Leaves (fun _ => true) (fun _ => true) n n :=
  ⟨h, fun i node => by simp, fun k l => by simp, thins_of_vertices_eq rfl⟩

theorem Leaves.trans (h : Leaves passNode passEdge n n')
    (h' : Leaves passNode' passEdge' n' n'') :
    Leaves (fun node => passNode node && passNode' node)
      (fun e => passEdge e && passEdge' e) n n'' where
  wellFormed := h'.wellFormed
  vertices i node := by rw [h'.vertices, h.vertices, Bool.and_eq_true, and_assoc]
  links k l := by rw [h'.links, h.links, Bool.and_eq_true, and_assoc]
  thins := h.thins.trans h'.thins

theorem Leaves.congr (h : Leaves passNode passEdge n n')
    (hnode : ∀ node, passNode node = passNode' node) (hedge : ∀ e, passEdge e = passEdge' e) :
    Leaves passNode' passEdge' n n' := by
  obtain rfl : passNode = passNode' := funext hnode
  obtain rfl : passEdge = passEdge' := funext hedge
  exact h

/-! ### Listing what is left -/

/-- **The nodes that are left**, in their old order. -/
theorem Leaves.nodes_eq (h : Leaves passNode passEdge n n') :
    n'.nodes = n.nodes.filter passNode := by
  refine Slots.map_values_eq_filter fun i => Option.ext fun node => ?_
  rw [h.vertices, Option.filter_eq_some_iff]

/-- **The edges that are left**, in their old order. -/
theorem Leaves.edges_eq (h : Leaves passNode passEdge n n') :
    n'.edges = n.edges.filter passEdge := by
  refine Slots.map_values_eq_filter fun k => Option.ext fun e => ?_
  rw [Option.filter_eq_some_iff, Option.map_eq_some_iff, Option.map_eq_some_iff]
  simp only [h.links]
  constructor
  · rintro ⟨l, ⟨hl, hpass⟩, rfl⟩
    exact ⟨⟨l, hl, rfl⟩, hpass⟩
  · rintro ⟨⟨l, hl, rfl⟩, hpass⟩
    exact ⟨l, ⟨hl, hpass⟩, rfl⟩

/-- A node that is left stands in the slot it had. -/
theorem Leaves.slotOf?_eq_some_iff (h : Leaves passNode passEdge n n') (hwell : n.WellFormed) :
    n'.slotOf? node = some slot ↔ n.slotOf? node = some slot ∧ passNode node = true := by
  rw [slotOf?, slotOf?, h.wellFormed.indexed_nodes, hwell.indexed_nodes, h.vertices]

/-- Where a node passes, its slot is looked up with the same result. -/
theorem Leaves.slotOf?_eq (h : Leaves passNode passEdge n n') (hwell : n.WellFormed)
    (hpass : passNode node = true) : n'.slotOf? node = n.slotOf? node := by
  refine Option.ext fun slot => ?_
  rw [h.slotOf?_eq_some_iff hwell, and_iff_left hpass]

/-- A node lists what is left of the edges that it listed. -/
theorem Leaves.leaving_eq (h : Leaves passNode passEdge n n') (hwell : n.WellFormed)
    {v v' : Vertex} (hv : n.vertices.get? slot = some v) (hv' : n'.vertices.get? slot = some v') :
    v'.leaving = v.leaving.filter fun k => (n'.links.get? k).isSome := by
  obtain ⟨w, hw, hsub⟩ := h.thins slot v' hv'
  rw [hv] at hw
  cases hw
  refine eq_filter_of_sublist hsub (hwell.stored.leaving.nodup slot v hv) fun k hk => ?_
  obtain ⟨l, hl, htail⟩ := (hwell.stored.leaving.mem_iff slot v hv k).1 hk
  rw [h.wellFormed.stored.leaving.mem_iff slot v' hv', Option.isSome_iff_exists]
  constructor
  · rintro ⟨l', hl', -⟩
    exact ⟨l', hl'⟩
  · rintro ⟨l', hl'⟩
    obtain ⟨hold, -⟩ := (h.links k l').1 hl'
    rw [hl] at hold
    cases hold
    exact ⟨l, hl', htail⟩

/-- **The edges that still leave a node**, in their old order. -/
theorem Leaves.outgoing_eq (h : Leaves passNode passEdge n n') (hwell : n.WellFormed)
    (hpass : passNode node = true) : n'.outgoing node = (n.outgoing node).filter passEdge := by
  unfold outgoing
  rw [h.slotOf?_eq hwell hpass]
  rcases hslot : n.slotOf? node with _ | slot
  · rfl
  obtain ⟨v, hv, -⟩ := hwell.get?_of_slotOf? hslot
  obtain ⟨v', hv', -⟩ := h.wellFormed.get?_of_slotOf? ((h.slotOf?_eq hwell hpass).trans hslot)
  have hlinks : n'.linksFrom slot = (n.linksFrom slot).filter fun l => passEdge l.edge := by
    simp only [linksFrom, hv, hv']
    rw [h.leaving_eq hwell hv hv', List.filterMap_filter, List.filter_filterMap]
    refine List.filterMap_congr fun k _ => Option.ext fun l => ?_
    rw [Option.filter_eq_some_iff, ← h.links]
    rcases n'.links.get? k with _ | l' <;> simp
  simp only [hlinks, List.filter_map, Function.comp_def]

/-- Nothing leaves a node that is gone. -/
theorem Leaves.outgoing_eq_nil (h : Leaves passNode passEdge n n') (hwell : n.WellFormed)
    (hpass : passNode node = false) : n'.outgoing node = [] := by
  have hnone : n'.slotOf? node = none := by
    refine Option.eq_none_iff_forall_ne_some.2 fun slot hslot => ?_
    have := ((h.slotOf?_eq_some_iff hwell).1 hslot).2
    rw [hpass] at this
    cases this
  simp only [outgoing, hnone]

/-! ## One removal -/

/-- Removing an edge leaves every node and every other edge. -/
theorem leaves_removeEdge (h : n.WellFormed) (id : EdgeId) :
    Leaves (fun _ => true) (fun e => e.id ≠ id) n (n.removeEdge id).2 := by
  refine ⟨h.removeEdge id, fun i node => ?_, fun k l => ?_, thins_removeEdge n id⟩
  · rw [and_iff_left rfl]
    unfold removeEdge
    split
    · rfl
    · rw [node_dropLink]
  · rw [decide_eq_true_iff]
    unfold removeEdge
    split
    · next hnone =>
      refine ⟨fun hl => ⟨hl, ?_⟩, fun hl => hl.1⟩
      -- the identity of an edge is in the index
      rintro rfl
      have hsome := (h.indexed_edges l.edge.id k).2 (by rw [hl, Option.map_some])
      rw [linkOf?, hsome] at hnone
      cases hnone
    · next slot hslot =>
      obtain ⟨old, hold, rfl⟩ := h.get?_of_linkOf? hslot
      rw [get?_links_dropLink]
      split
      · next hk =>
        subst hk
        rw [hold]
        constructor
        · rintro ⟨⟩
        · rintro ⟨heq, hne⟩
          cases heq
          exact absurd rfl hne
      · next hk =>
        refine ⟨fun hl => ⟨hl, fun hid => hk ?_⟩, fun hl => hl.1⟩
        exact h.indexed_edges.slot_unique hl hold hid

theorem slotOf?_removeNode_self (n : Network) (node : String) :
    (n.removeNode node).2.slotOf? node = none := by
  unfold removeNode
  split
  · next hnone => exact hnone
  · simp only [slotOf?, (index_isolate _ _).1, Std.HashMap.getElem?_erase_self]

/-- Removing a node leaves the other nodes and the edges that are not at it. -/
theorem leaves_removeNode (h : n.WellFormed) (node : String) :
    Leaves (· ≠ node) (fun e => e.source ≠ node ∧ e.target ≠ node) n (n.removeNode node).2 := by
  refine ⟨h.removeNode node, fun i other => ?_, fun k l => ?_, thins_removeNode n node⟩
  · rw [decide_eq_true_iff, ← (h.removeNode node).indexed_nodes, ← h.indexed_nodes]
    show (n.removeNode node).2.slotOf? other = some i ↔ n.slotOf? other = some i ∧ other ≠ node
    by_cases hne : other = node
    · subst hne
      simp [slotOf?_removeNode_self]
    · rw [slotOf?_removeNode_of_ne (Ne.symm hne), and_iff_left hne]
  · rw [decide_eq_true_iff]
    unfold removeNode
    split
    · next hnone =>
      refine ⟨fun hl => ⟨hl, ?_⟩, fun hl => hl.1⟩
      -- the ends of an edge are in the index
      obtain ⟨hsource, htarget⟩ := h.slotOf?_of_link hl
      constructor
      · rintro rfl
        rw [hsource] at hnone
        cases hnone
      · rintro rfl
        rw [htarget] at hnone
        cases hnone
    · next slot hslot =>
      obtain ⟨v, hv, rfl⟩ := h.get?_of_slotOf? hslot
      have hlinks := ((h.stored.reindex (n.nodeIndex.erase v.node)
        ((n.incident slot).foldl (fun index id => index.erase id) n.edgeIndex)).isolate hv).2.1 k l
      refine hlinks.trans (and_congr_right fun hl => ?_)
      obtain ⟨hsource, htarget⟩ := h.slotOf?_of_link hl
      exact and_congr (not_congr (h.slot_eq_iff hsource hslot))
        (not_congr (h.slot_eq_iff htarget hslot))

/-! ## Many removals -/

/-- Removing nodes one by one leaves what no single removal takes. -/
theorem leaves_foldl_removeNode (h : n.WellFormed) (nodes : List String) :
    Leaves (· ∉ nodes) (fun e => e.source ∉ nodes ∧ e.target ∉ nodes) n
      (nodes.foldl (fun n node => (n.removeNode node).2) n) := by
  induction nodes generalizing n with
  | nil => exact (leaves_self h).congr (fun node => by simp) fun e => by simp
  | cons node nodes ih =>
    refine ((leaves_removeNode h node).trans (ih (h.removeNode node))).congr (fun other => ?_)
      fun e => ?_
    · simp [Bool.decide_and]
    · grind

/-- Removing edges one by one leaves all nodes and the edges of other identities. -/
theorem leaves_foldl_removeEdge (h : n.WellFormed) (ids : List EdgeId) :
    Leaves (fun _ => true) (fun e => e.id ∉ ids) n
      (ids.foldl (fun n id => (n.removeEdge id).2) n) := by
  induction ids generalizing n with
  | nil => exact (leaves_self h).congr (fun node => rfl) fun e => by simp
  | cons id ids ih =>
    refine ((leaves_removeEdge h id).trans (ih (h.removeEdge id))).congr (fun other => rfl)
      fun e => ?_
    simp

/-- **What is left without some nodes and some edges** is told by which they are, in
whatever order they are listed. -/
theorem leaves_without (h : n.WellFormed) (nodes : List String) (ids : List EdgeId) :
    Leaves (· ∉ nodes) (fun e => e.id ∉ ids ∧ e.source ∉ nodes ∧ e.target ∉ nodes) n
      (n.without nodes ids) := by
  have hnodes := leaves_foldl_removeNode h nodes
  refine (hnodes.trans (leaves_foldl_removeEdge hnodes.wellFormed ids)).congr (fun node => ?_)
    fun e => ?_
  · simp
  · grind

theorem WellFormed.without (h : n.WellFormed) (nodes : List String) (ids : List EdgeId) :
    (n.without nodes ids).WellFormed :=
  (leaves_without h nodes ids).wellFormed

/-! ## What a policy leaves -/

end Network

namespace Policy

variable {p : Policy}

/-- The declared kind blocks the nodes that are declared, each once. -/
theorem blockedNodes_of_declared (hkind : p.kind = .declared) :
    p.blockedNodes = p.declarations.blockedNodes.eraseDups := by
  rw [blockedNodes, rules, hkind]
  rfl

/-- It excludes the edges that are blocked or have a blocked end, in the order of the
network. -/
theorem excluded_of_declared (hkind : p.kind = .declared) (n : Network) :
    p.excluded n = (n.edges.map (·.id)).filter p.declarations.blocks := by
  rw [excluded, rules, hkind]
  rfl

theorem blockedNodes_of_unrestricted (hkind : p.kind = .unrestricted) : p.blockedNodes = [] := by
  rw [blockedNodes, rules, hkind]
  rfl

theorem excluded_of_unrestricted (hkind : p.kind = .unrestricted) (n : Network) :
    p.excluded n = [] := by
  rw [excluded, rules, hkind]
  rfl

end Policy

namespace Network

variable {n : Network}

/-- What a policy leaves of a well-formed network is well formed. -/
theorem WellFormed.restrict (h : n.WellFormed) (p : Policy) : (n.restrict p).WellFormed :=
  h.without _ _

/-- **What a policy leaves** are the edges that it does not exclude and that touch none of
the nodes it names, in the old order. -/
theorem WellFormed.edges_restrict (h : n.WellFormed) (p : Policy) :
    (n.restrict p).edges = n.edges.filter fun e =>
      e.id ∉ p.excluded n ∧ e.source ∉ p.blockedNodes ∧ e.target ∉ p.blockedNodes :=
  (leaves_without h _ _).edges_eq

/-- An edge is left if the policy excludes neither it nor one of its ends. -/
theorem WellFormed.mem_edges_restrict (h : n.WellFormed) (p : Policy) {e : Edge} :
    e ∈ (n.restrict p).edges ↔ e ∈ n.edges ∧
      e.id ∉ p.excluded n ∧ e.source ∉ p.blockedNodes ∧ e.target ∉ p.blockedNodes := by
  rw [h.edges_restrict, List.mem_filter, decide_eq_true_iff]

/-- What a policy that keeps to its declarations excludes of a network are the edges that they
block; they block those of blocked nodes anyway. -/
theorem passes_iff_of_declared {p : Policy} (hkind : p.kind = .declared) {e : Edge}
    (he : e ∈ n.edges) :
    (e.id ∉ p.excluded n ∧ e.source ∉ p.blockedNodes ∧ e.target ∉ p.blockedNodes) ↔
      p.declarations.blocks e.id = false := by
  have hexcluded : e.id ∈ p.excluded n ↔ p.declarations.blocks e.id = true := by
    rw [Policy.excluded_of_declared hkind, List.mem_filter]
    exact and_iff_right (List.mem_map_of_mem he)
  rw [hexcluded, Bool.not_eq_true, Policy.blockedNodes_of_declared hkind]
  refine and_iff_left_of_imp fun hblocks => ?_
  simp_all [Declarations.blocks, Edge.source, Edge.target]

/-- A policy that keeps to its declarations leaves what they do not block. -/
theorem WellFormed.edges_restrict_of_declared (h : n.WellFormed) {p : Policy}
    (hkind : p.kind = .declared) :
    (n.restrict p).edges = n.edges.filter fun e => p.declarations.blocks e.id = false := by
  rw [h.edges_restrict]
  exact List.filter_congr fun e he => decide_eq_decide.2 (passes_iff_of_declared hkind he)

/-- Under the declared kind an edge is left unless the declarations block it. -/
theorem WellFormed.mem_edges_restrict_of_declared (h : n.WellFormed) {p : Policy}
    (hkind : p.kind = .declared) {e : Edge} :
    e ∈ (n.restrict p).edges ↔ e ∈ n.edges ∧ p.declarations.blocks e.id = false := by
  rw [h.edges_restrict_of_declared hkind, List.mem_filter, decide_eq_true_iff]

end Network

end Waybill
