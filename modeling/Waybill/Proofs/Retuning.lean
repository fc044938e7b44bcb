import Waybill.Proofs.Exclusion
import Waybill.Proofs.Offers
import Waybill.Proofs.Soundness

/-!
# Overriding and weighing anew

A weight may be overridden by the policy, before the network is assembled and before anything
is excluded, or set in the network that is left. The two come to the same network, slot by slot
(`network_overriding`). What they have in common is the network with other weights on the same
edges (`retuned`): no operation but `setWeight` looks at a weight, so each of them gives the
same on the retuned network, retuned (`addEdge_retuned`, `without_retuned`), and setting one
weight after another is retuning by the last of each edge (`WellFormed.setWeights_eq`).
-/

namespace Waybill

/-! ## Changing every value -/

namespace Slots

variable {α β : Type}

/-- A store is told by its cells, by the order in which slots were vacated and by its count. -/
theorem ext : ∀ {s t : Slots α}, s.cells = t.cells → s.vacant = t.vacant → s.count = t.count →
    s = t
  | ⟨_, _, _, _, _⟩, ⟨_, _, _, _, _⟩, rfl, rfl, rfl => rfl

/-- The store with every value changed. -/
def map (g : α → β) (s : Slots α) : Slots β where
  cells := s.cells.map (Option.map g)
  vacant := s.vacant
  count := s.count
  mem_vacant_iff i := by
    rw [s.mem_vacant_iff, Array.getElem?_map]
    rcases s.cells[i]? with _ | ⟨_ | a⟩ <;> simp
  nodup_vacant := s.nodup_vacant

variable {s : Slots α}

@[simp] theorem cells_map (g : α → β) (s : Slots α) :
    (s.map g).cells = s.cells.map (Option.map g) := rfl

@[simp] theorem vacant_map (g : α → β) (s : Slots α) : (s.map g).vacant = s.vacant := rfl

theorem map_empty (g : α → β) : (empty : Slots α).map g = empty := by
  refine ext ?_ rfl rfl
  rw [cells_map]
  exact Array.map_empty

theorem map_map {γ : Type} (f : β → γ) (g : α → β) (s : Slots α) :
    (s.map g).map f = s.map (f ∘ g) := by
  refine ext ?_ rfl rfl
  rw [cells_map, cells_map, cells_map, Array.map_map, Option.map_comp_map]

/-- A slot holds the changed value, or nothing as before. -/
theorem get?_map (g : α → β) (s : Slots α) (i : Nat) : (s.map g).get? i = (s.get? i).map g := by
  rw [get?, get?, cells_map, Array.getElem?_map]
  rcases s.cells[i]? with _ | ⟨_ | a⟩ <;> rfl

theorem values_map (g : α → β) (s : Slots α) : (s.map g).values = s.values.map g := by
  rw [values, values, cells_map, Array.toList_map, List.filterMap_map, List.map_filterMap]
  rfl

theorem next_map (g : α → β) (s : Slots α) : (s.map g).next = s.next := by
  rw [next, next, vacant_map, cells_map, Array.size_map]

/-- A changed store takes a changed value into the same slot. -/
theorem put_map (g : α → β) (s : Slots α) (a : α) :
    (s.map g).put (g a) = ((s.put a).1, (s.put a).2.map g) := by
  refine Prod.ext (next_map g s) (ext ?_ rfl rfl)
  show (s.map g).fillNext (g a) = (s.fillNext a).map (Option.map g)
  rw [fillNext, fillNext, vacant_map, next_map, cells_map]
  split
  · rw [Array.map_push, Option.map_some]
  · rw [Array.map_setIfInBounds, Option.map_some]

theorem vacate_map (g : α → β) (s : Slots α) (i : Nat) :
    (s.map g).vacate i = (s.vacate i).map g := by
  unfold vacate
  simp only [get?_map, Option.isSome_map]
  split
  · refine ext ?_ rfl rfl
    show (s.cells.map (Option.map g)).setIfInBounds i none =
      (s.cells.setIfInBounds i none).map (Option.map g)
    rw [Array.map_setIfInBounds, Option.map_none]
  · rfl

theorem getElem?_cells (s : Slots α) (i : Nat) :
    s.cells[i]? = if i < s.cells.size then some (s.get? i) else none := by
  unfold get?
  split
  · next h => rw [Array.getElem?_eq_getElem h, Option.join_some]
  · next h => exact Array.getElem?_eq_none (Nat.le_of_not_lt h)

/-- Cells hold the same if the slots do. -/
theorem ext_get? {t : Slots α} (hsize : s.cells.size = t.cells.size)
    (hget : ∀ i, s.get? i = t.get? i) (hvacant : s.vacant = t.vacant) (hcount : s.count = t.count) :
    s = t := by
  refine ext (Array.ext_getElem? fun i => ?_) hvacant hcount
  rw [getElem?_cells, getElem?_cells, hsize, hget]

/-- Changing one value is changing every value, if the others are left as they are. -/
theorem update_eq_map {i : Nat} {f g : α → α}
    (h : ∀ j a, s.get? j = some a → g a = if j = i then f a else a) : s.update i f = s.map g := by
  have hsize : (s.update i f).cells.size = (s.map g).cells.size := by
    rw [cells_map, Array.size_map]
    exact Array.size_modify
  refine ext_get? hsize (fun j => ?_) rfl rfl
  rw [get?_update, get?_map]
  rcases hj : s.get? j with _ | a
  · split <;> rfl
  · rw [Option.map_some, Option.map_some, h j a hj]
    split <;> rfl

/-- Nothing changes if no value does. -/
theorem map_eq_self {g : α → α} (h : ∀ i a, s.get? i = some a → g a = a) : s.map g = s := by
  have hsize : (s.map g).cells.size = s.cells.size := by rw [cells_map, Array.size_map]
  refine ext_get? hsize (fun i => ?_) rfl rfl
  rw [get?_map]
  rcases hi : s.get? i with _ | a
  · rfl
  · rw [Option.map_some, h i a hi]

end Slots

/-! ## Other weights on the same edges -/

section Retuned

variable (f g : EdgeId → Option Weight) (n : Network)

/-- The edge at the weight that is given for it, if one is. -/
def Edge.retuned (f : EdgeId → Option Weight) (e : Edge) : Edge :=
  { e with weight := (f e.id).getD e.weight }

/-- The edge in a slot at the weight that is given for it. -/
def Link.retuned (f : EdgeId → Option Weight) (l : Link) : Link :=
  { l with edge := l.edge.retuned f }

namespace Network

/-- The network with every edge at the weight that is given for it. -/
def retuned (f : EdgeId → Option Weight) (n : Network) : Network :=
  { n with links := n.links.map (Link.retuned f) }

theorem retuned_empty : empty.retuned f = empty :=
  congrArg (fun links : Slots Link => { empty with links := links }) (Slots.map_empty _)

/-- Nodes keep their slots in a retuned network, of which the index is not touched. -/
theorem slotOf?_retuned (node : String) :
    (n.retuned f).slotOf? node = n.slotOf? node := rfl

/-- A retuned network has the same edges by identity. -/
theorem containsEdge_retuned (id : EdgeId) :
    (n.retuned f).containsEdge id = n.containsEdge id := rfl

/-! ### Adding -/

/-- Adding a node looks at no weight. -/
theorem addNode_retuned (node : String) :
    (n.retuned f).addNode node = ((n.addNode node).1, (n.addNode node).2.retuned f) := by
  unfold addNode
  rw [slotOf?_retuned]
  split <;> rfl

/-- A retuned edge enters a retuned network as the edge enters the network. -/
theorem connect_retuned (e : Edge) (tail head : Nat) :
    (n.retuned f).connect (e.retuned f) tail head = (n.connect e tail head).retuned f := by
  have hput : (n.retuned f).links.put ⟨e.retuned f, tail, head⟩ =
      ((n.links.put ⟨e, tail, head⟩).1, (n.links.put ⟨e, tail, head⟩).2.map (Link.retuned f)) :=
    Slots.put_map (Link.retuned f) n.links ⟨e, tail, head⟩
  unfold connect
  rw [hput]
  rfl

/-- Whether an edge is new is told by its identity, so that adding commutes with retuning.
-/
theorem addEdge_retuned (e : Edge) :
    (n.retuned f).addEdge (e.retuned f) = ((n.addEdge e).1, (n.addEdge e).2.retuned f) := by
  have hid : (e.retuned f).id = e.id := rfl
  unfold addEdge
  rw [hid, containsEdge_retuned]
  split
  · rfl
  · have hsource := addNode_retuned f n e.source
    have htarget := addNode_retuned f (n.addNode e.source).2 e.target
    have hconnect := connect_retuned f ((n.addNode e.source).2.addNode e.target).2 e
      (n.addNode e.source).1 ((n.addNode e.source).2.addNode e.target).1
    simp only [Edge.source, Edge.target, hid] at hsource htarget hconnect ⊢
    rw [hsource, htarget, hconnect]

/-! ### Removing -/

theorem get?_links_retuned (slot : Nat) :
    (n.retuned f).links.get? slot = (n.links.get? slot).map (Link.retuned f) :=
  Slots.get?_map (Link.retuned f) n.links slot

/-- Taking a link out looks at its ends and not at its weight. -/
theorem dropLink_retuned (slot : Nat) :
    (n.retuned f).dropLink slot = (n.dropLink slot).retuned f := by
  unfold dropLink
  rw [get?_links_retuned]
  rcases n.links.get? slot with _ | l
  · rfl
  · have hvacate := Slots.vacate_map (Link.retuned f) n.links slot
    show Network.mk _ ((n.links.map (Link.retuned f)).vacate slot) _ _ = _
    rw [hvacate]
    rfl

theorem foldl_dropLink_retuned (slots : List Nat) :
    slots.foldl dropLink (n.retuned f) = (slots.foldl dropLink n).retuned f :=
  List.foldl_hom (retuned f) fun n slot => dropLink_retuned f n slot

theorem isolate_retuned (slot : Nat) :
    (n.retuned f).isolate slot = (n.isolate slot).retuned f := by
  unfold isolate
  have hvertices : ∀ m : Network, (m.retuned f).vertices = m.vertices := fun _ => rfl
  simp only [hvertices, foldl_dropLink_retuned]

theorem filterMap_links_retuned (slots : List Nat) :
    slots.filterMap (n.retuned f).links.get? =
      (slots.filterMap n.links.get?).map (Link.retuned f) := by
  rw [List.map_filterMap]
  exact List.filterMap_congr fun slot _ => get?_links_retuned f n slot

/-- The identities around a node are those of the network before. -/
theorem incident_retuned (slot : Nat) :
    (n.retuned f).incident slot = n.incident slot := by
  have hids : (fun l : Link => l.edge.id) ∘ Link.retuned f = fun l => l.edge.id := rfl
  have hvertices : (n.retuned f).vertices = n.vertices := rfl
  unfold incident linksFrom linksTo
  rw [hvertices]
  rcases n.vertices.get? slot with _ | v
  · rfl
  · simp only [filterMap_links_retuned, List.map_append, List.map_map, hids]

/-- Removing a node commutes with retuning. -/
theorem removeNode_retuned (node : String) :
    (n.retuned f).removeNode node = ((n.removeNode node).1, (n.removeNode node).2.retuned f) := by
  unfold removeNode
  rw [slotOf?_retuned]
  rcases n.slotOf? node with _ | slot
  · rfl
  · have hisolate := isolate_retuned f { n with
      nodeIndex := n.nodeIndex.erase node
      edgeIndex := (n.incident slot).foldl (fun index id => index.erase id) n.edgeIndex } slot
    -- The identities to forget are read off the links, which retuning leaves as they are.
    simp only [incident_retuned]
    exact congrArg (fun m : Network => (true, { m with vertices := m.vertices.vacate slot }))
      hisolate

/-- Removing an edge commutes with retuning. -/
theorem removeEdge_retuned (id : EdgeId) :
    ((n.retuned f).removeEdge id).2 = (n.removeEdge id).2.retuned f := by
  have hlink : (n.retuned f).linkOf? id = n.linkOf? id := rfl
  unfold removeEdge
  rw [hlink]
  rcases n.linkOf? id with _ | slot
  · rfl
  · exact dropLink_retuned f { n with edgeIndex := n.edgeIndex.erase id } slot

/-- What is left without some nodes and edges is retuned as a whole. -/
theorem without_retuned (nodes : List String)
    (ids : List EdgeId) : (n.retuned f).without nodes ids = (n.without nodes ids).retuned f := by
  have hnodes : ∀ (m : Network) (node : String),
      ((m.retuned f).removeNode node).2 = (m.removeNode node).2.retuned f := fun m node => by
    rw [removeNode_retuned]
  unfold without
  rw [List.foldl_hom (retuned f) hnodes]
  exact List.foldl_hom (retuned f) (removeEdge_retuned f)

/-- The edges of a retuned network are its edges retuned, in their order. -/
theorem edges_retuned : (n.retuned f).edges = n.edges.map (Edge.retuned f) := by
  have hvalues : (n.retuned f).links.values = n.links.values.map (Link.retuned f) :=
    Slots.values_map (Link.retuned f) n.links
  rw [edges, edges, hvalues, List.map_map, List.map_map]
  rfl

theorem linksFrom_retuned (slot : Nat) :
    (n.retuned f).linksFrom slot = (n.linksFrom slot).map (Link.retuned f) := by
  have hvertices : (n.retuned f).vertices = n.vertices := rfl
  unfold linksFrom
  rw [hvertices]
  rcases n.vertices.get? slot with _ | v
  · rfl
  · exact filterMap_links_retuned f n v.leaving

/-- The edges that leave a node are retuned, in their order. -/
theorem outgoing_retuned (node : String) :
    (n.retuned f).outgoing node = (n.outgoing node).map (Edge.retuned f) := by
  unfold outgoing
  rw [slotOf?_retuned]
  rcases n.slotOf? node with _ | slot
  · rfl
  · simp only [linksFrom_retuned, List.map_map]
    rfl

/-! ### Retuning again -/

/-- Weights that are given to no edge change nothing. -/
theorem retuned_none : n.retuned (fun _ => none) = n := by
  have hlink : Link.retuned (fun _ => none) = id := rfl
  have hlinks : n.links.map id = n.links := Slots.map_eq_self fun _ _ _ => rfl
  unfold retuned
  rw [hlink, hlinks]

/-- Of two retunings the later one has the last word. -/
theorem retuned_retuned :
    (n.retuned f).retuned g = n.retuned fun id => (g id).or (f id) := by
  have hlink : Link.retuned g ∘ Link.retuned f = Link.retuned fun id => (g id).or (f id) := by
    funext l
    have hweight : (g l.edge.id).getD ((f l.edge.id).getD l.edge.weight) =
        ((g l.edge.id).or (f l.edge.id)).getD l.edge.weight := by
      rcases g l.edge.id with _ | w <;> rfl
    exact congrArg (fun weight => { l with edge := { l.edge with weight } }) hweight
  unfold retuned
  rw [Slots.map_map, hlink]

end Network

end Retuned

/-! ## Setting one weight after another -/

/-- What some overrides say of an edge: the last of it counts. -/
def Override.last (os : List Override) (id : EdgeId) : Option Weight :=
  (os.reverse.find? (·.edge = id)).map (·.weight)

/-- Of two lists of overrides the later one counts, and the earlier one where it is
silent. -/
theorem Override.last_append (os os' : List Override) (id : EdgeId) :
    last (os ++ os') id = (last os' id).or (last os id) := by
  unfold last
  rw [List.reverse_append, List.find?_append, Option.map_or]

/-- One override speaks of its own edge only. -/
theorem Override.last_singleton (o : Override) (id : EdgeId) :
    last [o] id = if o.edge = id then some o.weight else none := by
  unfold last
  by_cases hid : o.edge = id <;> simp [hid]

/-- The edge at a weight, if it is the one with that identity. -/
def Edge.reweighed (id : EdgeId) (weight : Weight) (e : Edge) : Edge :=
  if e.id = id then { e with weight } else e

/-- Retuning by one override is weighing that one edge anew. -/
theorem Edge.retuned_singleton (o : Override) :
    Edge.retuned (Override.last [o]) = Edge.reweighed o.edge o.weight := by
  funext e
  rw [Edge.retuned, Edge.reweighed, Override.last_singleton]
  by_cases hid : e.id = o.edge
  · rw [if_pos hid, if_pos hid.symm]
    rfl
  · rw [if_neg hid, if_neg (Ne.symm hid)]
    rfl

namespace Network

variable {n : Network}

/-- The network with some weights set, one after another, and what is answered each time. -/
def setWeights (n : Network) : List Override → List (Except WeightRefusal Bool) × Network
  | [] => ([], n)
  | o :: os =>
    let (answer, n) := n.setWeight o.edge o.weight.value
    let (answers, n) := n.setWeights os
    (answer :: answers, n)

/-- An override of an edge that is not there changes nothing. -/
theorem WellFormed.retuned_eq_self (h : n.WellFormed) {o : Override}
    (hnone : n.linkOf? o.edge = none) : n.retuned (Override.last [o]) = n := by
  have hlinks : n.links.map (Link.retuned (Override.last [o])) = n.links := by
    refine Slots.map_eq_self fun i l hl => ?_
    have hid : o.edge ≠ l.edge.id := by
      intro hid
      have hslot := (h.indexed_edges o.edge i).2 (by rw [hl, Option.map_some, hid])
      rw [linkOf?, hslot] at hnone
      cases hnone
    rw [Link.retuned, Edge.retuned, Override.last_singleton, if_neg hid]
    rfl
  unfold retuned
  rw [hlinks]

/-- **To set a weight is to retune one edge**, and the answer is whether the edge is there. -/
theorem WellFormed.setWeight_eq (h : n.WellFormed) (o : Override) :
    n.setWeight o.edge o.weight.value =
      (.ok (n.containsEdge o.edge), n.retuned (Override.last [o])) := by
  unfold Network.setWeight containsEdge
  rcases hslot : n.linkOf? o.edge with _ | slot
  · rw [h.retuned_eq_self hslot]
    rfl
  · obtain ⟨l, hl, hid⟩ := h.get?_of_linkOf? hslot
    have hset : l.edge.setWeight o.weight.value = .ok ⟨l.edge.id, l.edge.properties, o.weight⟩ := by
      rw [Edge.setWeight, Edge.weighted, Weight.ofFloat?_value]
    have hlinks : n.links.update slot
        (fun l' => { l' with edge := ⟨l.edge.id, l.edge.properties, o.weight⟩ }) =
          n.links.map (Link.retuned (Override.last [o])) := by
      refine Slots.update_eq_map fun i l' hl' => ?_
      rw [Link.retuned, Edge.retuned, Override.last_singleton]
      by_cases hi : i = slot
      · rw [hi, hl] at hl'
        cases hl'
        rw [if_pos hid.symm, if_pos hi]
        rfl
      · -- no other slot holds the edge
        have hne : o.edge ≠ l'.edge.id := fun hid' =>
          hi (h.indexed_edges.slot_unique hl' hl (hid'.symm.trans hid.symm))
        rw [if_neg hne, if_neg hi]
        rfl
    simp only [hl, hset, hlinks]
    rfl

/-- **To set one weight after another is to retune by the last of each edge.** -/
theorem WellFormed.setWeights_eq (h : n.WellFormed) (os : List Override) :
    n.setWeights os =
      (os.map fun o => .ok (n.containsEdge o.edge), n.retuned (Override.last os)) := by
  induction os generalizing n with
  | nil => exact congrArg (Prod.mk []) n.retuned_none.symm
  | cons o os ih =>
    have hfirst := h.setWeight_eq o
    have hwell : (n.retuned (Override.last [o])).WellFormed := by
      have := h.setWeight o.edge o.weight.value
      rwa [hfirst] at this
    have hlast : Override.last (o :: os) =
        fun id => (Override.last os id).or (Override.last [o] id) :=
      funext (Override.last_append [o] os)
    rw [setWeights, hfirst]
    -- The later answers are about the retuned network, which has the same edges.
    show (_ :: ((n.retuned _).setWeights os).1, ((n.retuned _).setWeights os).2) = _
    rw [ih hwell, hlast, ← retuned_retuned]
    rfl

end Network

/-! ## Declaring the weights -/

namespace Policy

/-- The policy with some more overrides declared, behind those that it declares. -/
def overriding (p : Policy) (os : List Override) : Policy :=
  { p with declarations := { p.declarations with overrides := p.declarations.overrides ++ os } }

variable {p : Policy} {id : EdgeId} {properties : Properties} {e : Edge}

/-- What is declared last counts, and then what was declared before. -/
theorem weightOf?_overriding (hkind : p.kind = .declared) (os : List Override) (id : EdgeId)
    (properties : Properties) : (p.overriding os).weightOf? id properties =
      ((Override.last os id).map fun w => ⟨w.value⟩).or (p.weightOf? id properties) := by
  have hkind' : (p.overriding os).kind = .declared := hkind
  rw [weightOf?_of_declared hkind, weightOf?_of_declared hkind', ← Option.map_or]
  exact congrArg (Option.map _) (Override.last_append p.declarations.overrides os id)

/-- What has a weight has the weight that is declared behind it, if one is. -/
theorem weigh_overriding (hkind : p.kind = .declared) (os : List Override)
    (h : p.weigh id properties = .ok e) :
    (p.overriding os).weigh id properties = .ok (e.retuned (Override.last os)) := by
  have hid := (of_weigh h).1
  have hproperties := (of_weigh h).2.1
  unfold weigh at h ⊢
  rw [weightOf?_overriding hkind, Edge.retuned, hid]
  rcases Override.last os id with _ | w
  · rw [Option.map_none, Option.none_or, h]
    subst hid
    rfl
  · rw [hproperties]
    exact Edge.weighted_of_weight w id properties

end Policy

namespace Network

variable {p : Policy} {n : Network} {answers : List (Engine × List Offer)}

/-- An offer that is taken is taken under the overriding policy, too, and gives the retuned
network: the edge weighs what the last override says or what it weighed. -/
theorem addOffer_overriding (hkind : p.kind = .declared) (os : List Override) {n' : Network}
    {engine : Engine} {o : Offer} (h : n.addOffer p engine o = .ok n') :
    (n.retuned (Override.last os)).addOffer (p.overriding os) engine o =
      .ok (n'.retuned (Override.last os)) := by
  obtain ⟨e, he, heq⟩ := bind_eq_ok_iff.1 h
  cases heq
  refine bind_eq_ok_iff.2 ⟨_, Policy.weigh_overriding hkind os he, ?_⟩
  rw [addEdge_retuned]
  rfl

/-- **Under the overrides the same network is assembled, at their weights.** -/
theorem assemble_overriding (hkind : p.kind = .declared) (os : List Override)
    (h : assemble p answers = .ok n) :
    assemble (p.overriding os) answers = .ok (n.retuned (Override.last os)) := by
  have hempty : addOffers (p.overriding os) empty [] = .ok (empty.retuned (Override.last os)) :=
    congrArg Except.ok (retuned_empty _).symm
  -- The offers are added one by one, and after each the two networks have the same edges.
  refine addOffers_induction (P := fun offers m =>
    addOffers (p.overriding os) empty offers = .ok (m.retuned (Override.last os)))
    (fun offers m m' engine o hsame hadd => ?_) hempty h
  unfold addOffers at hsame ⊢
  rw [List.foldlM_append, hsame]
  have hlast := addOffer_overriding hkind os hadd
  exact bind_eq_ok_iff.2 ⟨_, rfl, bind_eq_ok_iff.2 ⟨_, hlast, rfl⟩⟩

/-- What is excluded is told by identities alone, so overriding does not change what is
removed. -/
theorem restrict_overriding (hkind : p.kind = .declared) (n : Network) (os : List Override) :
    (n.retuned (Override.last os)).restrict (p.overriding os) =
      (n.restrict p).retuned (Override.last os) := by
  have hkind' : (p.overriding os).kind = .declared := hkind
  have hblocked : (p.overriding os).blockedNodes = p.blockedNodes := by
    rw [Policy.blockedNodes_of_declared hkind, Policy.blockedNodes_of_declared hkind']
    rfl
  have hexcluded : (p.overriding os).excluded (n.retuned (Override.last os)) = p.excluded n := by
    rw [Policy.excluded_of_declared hkind, Policy.excluded_of_declared hkind', edges_retuned,
      List.map_map]
    rfl
  rw [restrict, hblocked, hexcluded, without_retuned]
  rfl

end Network

namespace Planner

variable {p : Planner}

/-- The planner whose policy declares some more overrides. -/
def overriding (p : Planner) (os : List Override) : Planner :=
  { p with policy := p.policy.overriding os }

/-- **To override weights and to set them in the network come to the same.** If the engines
answer and no offer is refused, the network under a policy that declares some more overrides is
the network under the policy without them, with one of their weights after another set in it;
and each setting is answered by whether the edge is there. -/
theorem network_overriding (hkind : p.policy.kind = .declared)
    (hweighed : ∀ x ∈ p.offers, ∀ value, ¬ p.policy.Refuses x value) (os : List Override) :
    (∀ e, Topology.askAll p.queryTimeout p.topologies.values = .error e →
      p.network = .error e ∧ (p.overriding os).network = .error e) ∧
    ∀ answers, Topology.askAll p.queryTimeout p.topologies.values = .ok answers →
      ∃ n n', p.network = .ok n ∧ (p.overriding os).network = .ok n' ∧
        n.setWeights os = (os.map fun o => .ok (n.containsEdge o.edge), n') := by
  refine ⟨fun e he => ?_, fun answers hanswers => ?_⟩
  · -- The engines are asked before the policy is looked at.
    exact ⟨bind_eq_error_iff.2 (.inl he), bind_eq_error_iff.2 (.inl he)⟩
  have hoffers : Network.offersIn answers = p.offers := by
    rw [Topology.askAll_eq_ok hanswers, Network.offersIn, List.flatMap_map]
    rfl
  obtain ⟨n, hn⟩ := Network.exists_assemble_eq_ok (hoffers ▸ hweighed)
  have hn' := Network.assemble_overriding hkind os hn
  have hwell : (n.restrict p.policy).WellFormed :=
    (Network.assembled_assemble hn).wellFormed.restrict _
  refine ⟨n.restrict p.policy, (n.restrict p.policy).retuned (Override.last os), ?_, ?_,
    hwell.setWeights_eq os⟩
  · refine bind_eq_ok_iff.2 ⟨answers, hanswers, ?_⟩
    rw [hn]
    rfl
  · rw [← Network.restrict_overriding hkind]
    refine bind_eq_ok_iff.2 ⟨answers, hanswers, ?_⟩
    have hpolicy : (p.overriding os).policy = p.policy.overriding os := rfl
    rw [hpolicy, hn']
    rfl

/-- Overrides of two hops around a fenced one, of the fenced one itself and of one that is
not offered; that of the first hop is declared twice. -/
def tunings : List Override :=
  [⟨⟨"a", "e", default⟩, .one⟩, ⟨⟨"a", "b", default⟩, .one⟩, ⟨⟨"x", "y", default⟩, .one⟩,
    ⟨⟨"e", "b", default⟩, .three⟩, ⟨⟨"a", "e", default⟩, .four⟩]

/-- The hops that are left around the fence. -/
def hopsLeft : List EdgeId := [⟨"a", "e", default⟩, ⟨"e", "b", default⟩]

theorem map_id_edges_fenced {n : Network} (h : Network.fenced.network = .ok n) :
    n.edges.map (·.id) = hopsLeft := by
  have hlisted := Network.listed_assemble Network.assemble_hopsOffered
  rw [network_eq, Network.wholeNetwork_fenced] at h
  cases h
  have hkept : ((Network.after Network.hopsAround).restrict Network.fenced.policy).edges.map
      (·.id) = ((Network.after Network.hopsAround).edges.map (·.id)).filter
        fun id => Network.fenced.policy.declarations.blocks id = false := by
    rw [hlisted.wellFormed.edges_restrict_of_declared rfl, List.filter_map]
    rfl
  rw [hkept, hlisted.ids_eq]
  decide

/-- Around a fenced hop the hops that are left weigh what was said of them last. -/
theorem network_overriding_fenced :
    Network.fenced.policy.kind = .declared ∧
    (∀ x ∈ Network.fenced.offers, ∀ value, ¬ Network.fenced.policy.Refuses x value) ∧
    ∃ n n', Network.fenced.network = .ok n ∧ (Network.fenced.overriding tunings).network = .ok n' ∧
      n.setWeights tunings = ([.ok true, .ok false, .ok false, .ok true, .ok true], n') ∧
      n'.edges.map (fun e => (e.id, e.weight.value)) =
        [(⟨"a", "e", default⟩, 4), (⟨"e", "b", default⟩, 3)] := by
  have hunweighed : ∀ x ∈ Network.fenced.offers,
      x.2.properties.get? "flow.edge.weight" = none := by decide
  have haccepted : ∀ x ∈ Network.fenced.offers, ∀ value,
      ¬ Network.fenced.policy.Refuses x value :=
    fun x hx => Policy.not_refuses_of_unweighed (.inl rfl) (hunweighed x hx)
  obtain ⟨-, hok⟩ := network_overriding rfl haccepted tunings
  obtain ⟨n, n', hn, hn', hset⟩ := hok _ rfl
  have hwell : n.WellFormed := (of_network hn).1
  have hids := map_id_edges_fenced hn
  have hcontains : ∀ id, n.containsEdge id = decide (id ∈ hopsLeft) := fun id => by
    rw [← hids, Bool.eq_iff_iff, hwell.containsEdge_iff, decide_eq_true_iff, List.mem_map]
  refine ⟨rfl, haccepted, n, n', hn, hn', ?_, ?_⟩
  · simp only [hset, hcontains]
    rfl
  · have hretuned : n' = n.retuned (Override.last tunings) :=
      congrArg Prod.snd (hset.symm.trans (hwell.setWeights_eq tunings))
    obtain ⟨e, es, hedges, he, hrest⟩ := List.map_eq_cons_iff.1 hids
    obtain ⟨e', es', rfl, he', hnone⟩ := List.map_eq_cons_iff.1 hrest
    obtain rfl := List.map_eq_nil_iff.1 hnone
    rw [hretuned, Network.edges_retuned, hedges]
    simp only [List.map_cons, List.map_nil, Edge.retuned, he, he']
    rfl

end Planner

end Waybill
