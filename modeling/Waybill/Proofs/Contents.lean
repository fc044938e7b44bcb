import Waybill.Proofs.Representation

/-!
# Edges and their ends

On a well-formed network a link joins the slots of the nodes that its edge names
(`slotOf?_of_link`), slots tell nodes (`slot_eq_iff`) and identities tell edges
(`eq_of_id_eq`). An edge is added unless one of its identity is there
(`mem_edges_addEdge`), so edges of different identities are all added
(`mem_edges_after_addEdge`).
-/

namespace Waybill.Network

namespace WellFormed

variable {n : Network} {i k : Nat} {e x : Edge} {id : EdgeId} {l : Link}

/-! ## Links and the nodes they join -/

/-- A link joins the slots of the nodes that its edge names. -/
theorem slotOf?_of_link (h : n.WellFormed) (hl : n.links.get? k = some l) :
    n.slotOf? l.edge.source = some l.tail ∧ n.slotOf? l.edge.target = some l.head := by
  obtain ⟨v, hv, hname⟩ := h.stored.leaving.live k l hl
  obtain ⟨v', hv', hname'⟩ := h.stored.reaching.live k l hl
  exact ⟨(h.indexed_nodes _ _).2 (by rw [hv, Option.map_some, hname]),
    (h.indexed_nodes _ _).2 (by rw [hv', Option.map_some, hname'])⟩

theorem slotOf?_inj (h : n.WellFormed) {a b : String} (ha : n.slotOf? a = some i)
    (hb : n.slotOf? b = some i) : a = b := by
  obtain ⟨v, hv, rfl⟩ := h.get?_of_slotOf? ha
  obtain ⟨v', hv', rfl⟩ := h.get?_of_slotOf? hb
  rw [hv] at hv'
  cases hv'
  rfl

/-- Two nodes are in one slot just if they are one node. -/
theorem slot_eq_iff (h : n.WellFormed) {a b : String} (ha : n.slotOf? a = some i)
    (hb : n.slotOf? b = some k) : i = k ↔ a = b := by
  constructor
  · rintro rfl
    exact h.slotOf?_inj ha hb
  · rintro rfl
    rw [ha] at hb
    exact Option.some.inj hb

/-- The ends of an edge are in the network. -/
theorem containsNode_of_mem_edges (h : n.WellFormed) (he : e ∈ n.edges) :
    n.containsNode e.source ∧ n.containsNode e.target := by
  obtain ⟨k, l, hl, rfl⟩ := mem_edges_iff.1 he
  obtain ⟨hsource, htarget⟩ := h.slotOf?_of_link hl
  exact ⟨by rw [containsNode, hsource]; rfl, by rw [containsNode, htarget]; rfl⟩

theorem containsEdge_iff (h : n.WellFormed) :
    n.containsEdge id ↔ ∃ e ∈ n.edges, e.id = id :=
  h.represents.containsEdge_iff id

/-- An identity tells an edge. -/
theorem eq_of_id_eq (h : n.WellFormed) (he : e ∈ n.edges) (hx : x ∈ n.edges)
    (hid : e.id = x.id) : e = x := by
  have hfound := h.edge?_eq_some_iff.2 ⟨he, hid⟩
  rw [h.edge?_eq_some_iff.2 ⟨hx, rfl⟩] at hfound
  exact (Option.some.inj hfound).symm

/-! ## Adding -/

theorem links_addNode (n : Network) (node : String) : (n.addNode node).2.links = n.links := by
  unfold Network.addNode
  split <;> rfl

/-- **An edge is added unless one of its identity is there.** -/
theorem mem_edges_addEdge (e : Edge) :
    x ∈ (n.addEdge e).2.edges ↔ x ∈ n.edges ∨ x = e ∧ n.containsEdge e.id = false := by
  rcases hnew : n.containsEdge e.id with _ | _
  · have hlinks : ((n.addNode e.source).2.addNode e.target).2.links = n.links := by
      rw [links_addNode, links_addNode]
    rw [addEdge_of_new hnew, mem_edges_iff, mem_edges_iff]
    constructor
    · rintro ⟨k, l, hl, rfl⟩
      rw [get?_links_connect, hlinks] at hl
      split at hl
      · cases hl
        exact .inr ⟨rfl, rfl⟩
      · exact .inl ⟨k, l, hl, rfl⟩
    · rintro (⟨k, l, hl, rfl⟩ | ⟨rfl, -⟩)
      · rw [← hlinks] at hl
        exact ⟨k, l, Slots.get?_put_of_some hl _, rfl⟩
      · exact ⟨_, _, (get?_links_connect _ x _ _ _).trans (if_pos rfl), rfl⟩
  · rw [addEdge_of_contains hnew]
    simp

/-- **Edges of new identities are all added.** -/
theorem mem_edges_foldl_addEdge (h : n.WellFormed) (es : List Edge)
    (hnodup : (es.map (·.id)).Nodup) (hnew : ∀ e ∈ n.edges, e.id ∉ es.map (·.id)) :
    x ∈ ((es.map Operation.addEdge).foldl Network.apply n).edges ↔ x ∈ n.edges ∨ x ∈ es := by
  induction es generalizing n with
  | nil => simp
  | cons e es ih =>
    obtain ⟨hhead, hnodup⟩ := List.nodup_cons.1 hnodup
    have hcontains : n.containsEdge e.id = false := by
      rw [Bool.eq_false_iff, ne_eq, h.containsEdge_iff]
      rintro ⟨x, hx, hid⟩
      exact hnew x hx (hid ▸ List.mem_cons_self)
    have hmem : ∀ x, x ∈ (n.addEdge e).2.edges ↔ x ∈ n.edges ∨ x = e := fun x => by
      rw [mem_edges_addEdge, hcontains, and_iff_left rfl]
    have hrest : ∀ x ∈ (n.addEdge e).2.edges, x.id ∉ es.map (·.id) := by
      intro x hx
      rcases (hmem x).1 hx with hx | rfl
      · exact fun hid => hnew x hx (List.mem_cons_of_mem _ hid)
      · exact hhead
    refine (ih (h.addEdge e) hnodup hrest).trans ?_
    rw [hmem, List.mem_cons, or_assoc]

end WellFormed

/-- Edges of different identities are what is in a network to which they were added. -/
theorem mem_edges_after_addEdge (es : List Edge) {x : Edge} (hnodup : (es.map (·.id)).Nodup) :
    x ∈ (after (es.map .addEdge)).edges ↔ x ∈ es := by
  have hempty : ∀ e : Edge, e ∉ empty.edges := fun _ => List.not_mem_nil
  refine (wellFormed_empty.mem_edges_foldl_addEdge es hnodup fun e he => absurd he (hempty e)).trans ?_
  rw [or_iff_right (hempty x)]

end Waybill.Network
