import Mathlib.Data.List.Induction
import Waybill.Proofs.Ledger

/-!
# What may weigh an edge, and what setting a weight does

Only values that may weigh an edge (`Weight.Valid`) get into a network: an edge is built at such
a value or not at all (`Edge.weighted_of_weight`, `Edge.weighted_of_not_valid`), and every weight
that is stored was given to an edge that was added, or set (`givenBy_of_mem_edges_after`). To set
a weight is one of three things (`WellFormed.setWeight_cases`): the edge is not there, or the
value is refused, and then the network is left exactly as it was, slots and all; or the edge is
there and weighs the value, and nothing else has changed (`Reweighed`). The networks that planners
route over are reached by operations as well (`exists_after_of_network`).
-/

namespace Waybill

/-! ## Values that may weigh an edge -/

/-- A value may weigh an edge: it is finite and not below zero. -/
def Weight.Valid (value : Float) : Prop := value.isFinite ∧ 0 ≤ value

instance (value : Float) : Decidable (Weight.Valid value) :=
  inferInstanceAs (Decidable (value.isFinite ∧ 0 ≤ value))

theorem not_lt_zero_of_zero_le {x : Float} (h : 0 ≤ x) : ¬ x < 0 := by
  have hzero : (0 : Float).toModel.unpack = .zero .positive := rfl
  rw [zero_le_iff_isNonneg] at h
  rw [lt_iff_compare, hzero]
  generalize x.toModel.unpack = u at h
  rcases u with _ | s | s | ⟨s, m, e, hm⟩
  case notANumber => exact h.elim
  case zero => cases s <;> exact nofun
  all_goals
    cases h
    exact nofun

/-- **The values that may weigh an edge are those of the weights.** -/
theorem Weight.valid_iff {value : Float} : Valid value ↔ ∃ w : Weight, w.value = value := by
  constructor
  · rintro ⟨hfinite, hle⟩
    exact ⟨⟨value, hfinite, not_lt_zero_of_zero_le hle⟩, rfl⟩
  · rintro ⟨w, rfl⟩
    exact ⟨w.valid.1, w.zero_le⟩

namespace Edge

theorem weighted_of_not_valid {value : Float} (h : ¬ Weight.Valid value) (id : EdgeId)
    (properties : Properties) : weighted id properties value = .error ⟨id, value⟩ := by
  have hnone : Weight.ofFloat? value = none := by
    rcases hw : Weight.ofFloat? value with _ | w
    · rfl
    · exact absurd (Weight.valid_iff.2 ⟨w, Weight.value_of_ofFloat? hw⟩) h
  rw [weighted, hnone]

end Edge

namespace Network

variable {n : Network} {id : EdgeId} {value : Float} {e : Edge}

/-! ## Networks that are assembled -/

theorem after_concat (ops : List Operation) (op : Operation) :
    after (ops ++ [op]) = (after ops).apply op := by
  rw [after, List.foldl_append]
  rfl

/-- What is assembled is reached by adding an edge for every offer. -/
theorem exists_after_of_assemble {p : Policy} {answers : List (Engine × List Offer)}
    (h : assemble p answers = .ok n) :
    ∃ es : List Edge, es.length = (offersIn answers).length ∧ n = after (es.map .addEdge) := by
  have hstart : ∃ es : List Edge, es.length = ([] : List (Engine × Offer)).length ∧
      empty = after (es.map .addEdge) := ⟨[], rfl, rfl⟩
  refine addOffers_induction (P := fun offers n => ∃ es : List Edge,
    es.length = offers.length ∧ n = after (es.map .addEdge)) ?_ hstart h
  rintro offers n n' engine o ⟨es, hlength, rfl⟩ hadd
  obtain ⟨e, -, heq⟩ := bind_eq_ok_iff.1 hadd
  cases heq
  refine ⟨es ++ [e], by rw [List.length_append, List.length_append, hlength]; rfl, ?_⟩
  rw [List.map_append, List.map_singleton, after_concat]
  rfl

/-- What a policy leaves of a network is reached by removing. -/
theorem exists_after_restrict (ops : List Operation) (p : Policy) :
    ∃ more, (after ops).restrict p = after (ops ++ more) := by
  refine ⟨p.blockedNodes.map .removeNode ++ (p.excluded (after ops)).map .removeEdge, ?_⟩
  simp only [after, List.foldl_append, List.foldl_map]
  rfl

/-- **The networks that planners route over are reached by operations.** -/
theorem exists_after_of_network {p : Planner} (h : p.network = .ok n) : ∃ ops, n = after ops := by
  obtain ⟨answers, -, hrest⟩ := bind_eq_ok_iff.1 h
  split at hrest
  · next m hm =>
    cases hrest
    obtain ⟨es, -, rfl⟩ := exists_after_of_assemble hm
    obtain ⟨more, hmore⟩ := exists_after_restrict (es.map .addEdge) p.policy
    exact ⟨_, hmore⟩
  · cases hrest

/-! ## Setting a weight -/

/-- One network is another but for the weight of one edge: its slots and indexes are the same, so
nodes and edges are counted, found and listed as before, each edge with the properties it had. -/
structure Reweighed (id : EdgeId) (w : Weight) (n n' : Network) : Prop where
  state : n' = { n with links := n.links.map fun l => { l with edge := l.edge.reweighed id w } }
  nodes_eq : n'.nodes = n.nodes
  nodeCount_eq : n'.nodeCount = n.nodeCount
  edgeCount_eq : n'.edgeCount = n.edgeCount
  slotOf?_eq : ∀ node, n'.slotOf? node = n.slotOf? node
  linkOf?_eq : ∀ id', n'.linkOf? id' = n.linkOf? id'
  edge?_eq : ∀ id', n'.edge? id' = (n.edge? id').map (Edge.reweighed id w)
  edges_eq : n'.edges = n.edges.map (Edge.reweighed id w)
  outgoing_eq : ∀ node, n'.outgoing node = (n.outgoing node).map (Edge.reweighed id w)
  edgesBetween_eq : ∀ a b, n'.edgesBetween a b = (n.edgesBetween a b).map (Edge.reweighed id w)

theorem edge?_retuned (f : EdgeId → Option Weight) (n : Network) (id : EdgeId) :
    (n.retuned f).edge? id = (n.edge? id).map (Edge.retuned f) := by
  have hlink : (n.retuned f).linkOf? id = n.linkOf? id := rfl
  unfold edge?
  rw [hlink, funext (get?_links_retuned f n)]
  rcases n.linkOf? id with _ | slot
  · rfl
  · simp only [Option.bind_some, Option.map_map]
    rfl

theorem edgesBetween_retuned (f : EdgeId → Option Weight) (n : Network) (a b : String) :
    (n.retuned f).edgesBetween a b = (n.edgesBetween a b).map (Edge.retuned f) := by
  unfold edgesBetween linksBetween
  rw [slotOf?_retuned, slotOf?_retuned]
  rcases n.slotOf? a with _ | i <;> rcases n.slotOf? b with _ | j <;> try rfl
  simp only [linksFrom_retuned, List.filter_map, List.map_map]
  rfl

/-- Retuning by one override weighs that one edge anew and nothing else. -/
theorem reweighed_retuned (n : Network) (id : EdgeId) (w : Weight) :
    Reweighed id w n (n.retuned (Override.last [⟨id, w⟩])) := by
  have hedge : Edge.retuned (Override.last [⟨id, w⟩]) = Edge.reweighed id w :=
    Edge.retuned_singleton ⟨id, w⟩
  constructor
  case state =>
    have hlink : Link.retuned (Override.last [⟨id, w⟩]) =
        fun l : Link => { l with edge := l.edge.reweighed id w } := by
      funext l
      rw [Link.retuned, hedge]
    rw [retuned, hlink]
  case nodes_eq => rfl
  case nodeCount_eq => rfl
  case edgeCount_eq => rfl
  case slotOf?_eq => exact fun _ => rfl
  case linkOf?_eq => exact fun _ => rfl
  case edge?_eq => exact fun id' => hedge ▸ edge?_retuned _ n id'
  case edges_eq => exact hedge ▸ edges_retuned _ n
  case outgoing_eq => exact fun node => hedge ▸ outgoing_retuned _ n node
  case edgesBetween_eq => exact fun a b => hedge ▸ edgesBetween_retuned _ n a b

/-- No weight is set for an edge that is not there. -/
theorem setWeight_of_absent (habsent : n.containsEdge id = false) (value : Float) :
    n.setWeight id value = (.ok false, n) := by
  have hnone : n.linkOf? id = none := by simpa [containsEdge] using habsent
  unfold Network.setWeight
  rw [hnone]

/-- A value that is no weight is refused and nothing changes. -/
theorem WellFormed.setWeight_of_not_valid (h : n.WellFormed) (hcontains : n.containsEdge id = true)
    (hvalue : ¬ Weight.Valid value) : n.setWeight id value = (.error ⟨id, value⟩, n) := by
  obtain ⟨slot, hslot⟩ := Option.isSome_iff_exists.1 hcontains
  obtain ⟨l, hl, rfl⟩ := h.get?_of_linkOf? hslot
  have hrefused := Edge.weighted_of_not_valid hvalue l.edge.id l.edge.properties
  unfold Network.setWeight
  simp only [hslot, hl, Edge.setWeight, hrefused]

/-- A weight is set by retuning that one edge. -/
theorem WellFormed.setWeight_of_weight (h : n.WellFormed) (hcontains : n.containsEdge id = true)
    (w : Weight) :
    n.setWeight id w.value = (.ok true, n.retuned (Override.last [⟨id, w⟩])) := by
  rw [h.setWeight_eq ⟨id, w⟩, hcontains]

/-- **A weight is set, refused, or not looked at**, for want of the edge. -/
theorem WellFormed.setWeight_cases (h : n.WellFormed) (id : EdgeId) (value : Float) :
    (n.containsEdge id = false ∧ n.setWeight id value = (.ok false, n)) ∨
    (n.containsEdge id = true ∧ ¬ Weight.Valid value ∧
      n.setWeight id value = (.error ⟨id, value⟩, n)) ∨
    n.containsEdge id = true ∧ ∃ w : Weight, w.value = value ∧
      n.setWeight id value = (.ok true, n.retuned (Override.last [⟨id, w⟩])) := by
  rcases hcontains : n.containsEdge id with _ | _
  · exact .inl ⟨rfl, setWeight_of_absent hcontains value⟩
  by_cases hvalue : Weight.Valid value
  · obtain ⟨w, rfl⟩ := Weight.valid_iff.1 hvalue
    exact .inr (.inr ⟨rfl, w, rfl, h.setWeight_of_weight hcontains w⟩)
  · exact .inr (.inl ⟨rfl, hvalue, h.setWeight_of_not_valid hcontains hvalue⟩)

/-! ## What is stored -/

/-- **An operation stores no edge but one that it adds or weighs anew.** -/
theorem WellFormed.mem_edges_apply (h : n.WellFormed) {op : Operation}
    (he : e ∈ (n.apply op).edges) : e ∈ n.edges ∨ op = .addEdge e ∨ ∃ old ∈ n.edges,
      op = .setWeight e.id e.weight.value ∧ e = { old with weight := e.weight } := by
  cases op with
  | addNode node =>
    rw [Network.apply, edges_addNode] at he
    exact .inl he
  | addEdge added =>
    rw [Network.apply] at he
    rcases hnew : n.containsEdge added.id with _ | _
    · rcases List.mem_cons.1 ((perm_edges_addEdge_of_new hnew).mem_iff.1 he) with rfl | he
      · exact .inr (.inl rfl)
      · exact .inl he
    · rw [addEdge_of_contains hnew] at he
      exact .inl he
  | removeNode node =>
    rw [Network.apply, (leaves_removeNode h node).edges_eq] at he
    exact .inl (List.mem_of_mem_filter he)
  | removeEdge id =>
    rw [Network.apply, (leaves_removeEdge h id).edges_eq] at he
    exact .inl (List.mem_of_mem_filter he)
  | setWeight id value =>
    rw [Network.apply] at he
    rcases h.setWeight_cases id value with ⟨-, hset⟩ | ⟨-, -, hset⟩ | ⟨-, w, rfl, hset⟩
    · rw [hset] at he
      exact .inl he
    · rw [hset] at he
      exact .inl he
    · rw [hset, (reweighed_retuned n id w).edges_eq] at he
      obtain ⟨old, hold, rfl⟩ := List.mem_map.1 he
      unfold Edge.reweighed
      split
      · next hid => exact .inr (.inr ⟨old, hold, by rw [← hid], rfl⟩)
      · exact .inl hold

/-- The weight of an edge came with the edge when it was added, or was set. -/
def GivenBy (ops : List Operation) (e : Edge) : Prop :=
  ∃ added : Edge, .addEdge added ∈ ops ∧ added.id = e.id ∧ added.properties = e.properties ∧
    (added.weight = e.weight ∨ .setWeight e.id e.weight.value ∈ ops)

/-- What was given stays given. -/
theorem GivenBy.concat {ops : List Operation} (h : GivenBy ops e) (op : Operation) :
    GivenBy (ops ++ [op]) e := by
  obtain ⟨added, hadded, hid, hproperties, hweight⟩ := h
  exact ⟨added, List.mem_append_left _ hadded, hid, hproperties,
    hweight.imp id (List.mem_append_left _)⟩

/-- **Whatever is stored was given.** -/
theorem givenBy_of_mem_edges_after (ops : List Operation) (he : e ∈ (after ops).edges) :
    GivenBy ops e := by
  induction ops using List.reverseRecOn generalizing e with
  | nil => cases he
  | append_singleton ops op ih =>
    rw [after_concat] at he
    rcases (wellFormed_after ops).mem_edges_apply he with he | rfl | ⟨old, hold, rfl, heq⟩
    · exact (ih he).concat op
    · exact ⟨e, List.mem_append_right _ List.mem_cons_self, rfl, rfl, .inl rfl⟩
    · obtain ⟨added, hadded, hid, hproperties, -⟩ := ih hold
      refine ⟨added, List.mem_append_left _ hadded, ?_, ?_, .inr ?_⟩
      · exact hid.trans (congrArg Edge.id heq).symm
      · exact hproperties.trans (congrArg Edge.properties heq).symm
      · exact List.mem_append_right _ List.mem_cons_self

/-! ## What operations leave as it was -/

/-- Operations that are refused or find nothing to do leave the network as it is, and one that
sets a weight leaves all the rest of it. -/
structure Conservative (n : Network) : Prop where
  setWeight_absent : ∀ id value, n.containsEdge id = false → n.setWeight id value = (.ok false, n)
  setWeight_refused : ∀ id value, n.containsEdge id = true → ¬ Weight.Valid value →
    n.setWeight id value = (.error ⟨id, value⟩, n)
  setWeight_done : ∀ id value, n.containsEdge id = true → Weight.Valid value →
    ∃ w : Weight, w.value = value ∧ ∃ n', n.setWeight id value = (.ok true, n') ∧
      Reweighed id w n n'
  addEdge_present : ∀ e : Edge, n.containsEdge e.id = true → n.addEdge e = (false, n)
  removeEdge_absent : ∀ id, n.containsEdge id = false → n.removeEdge id = (none, n)
  removeNode_absent : ∀ node, n.containsNode node = false → n.removeNode node = (false, n)
  addNode_present : ∀ node, n.containsNode node = true →
    ∃ slot, n.slotOf? node = some slot ∧ n.addNode node = (slot, n)

/-- What is refused or has nothing to do changes nothing. -/
theorem WellFormed.conservative (h : n.WellFormed) : n.Conservative where
  setWeight_absent id value habsent := setWeight_of_absent habsent value
  setWeight_refused id value hcontains hvalue := h.setWeight_of_not_valid hcontains hvalue
  setWeight_done id value hcontains hvalue := by
    obtain ⟨w, rfl⟩ := Weight.valid_iff.1 hvalue
    exact ⟨w, rfl, _, h.setWeight_of_weight hcontains w, reweighed_retuned n id w⟩
  addEdge_present e hcontains := by rw [Network.addEdge, if_pos hcontains]
  removeEdge_absent id habsent := by
    have hnone : n.linkOf? id = none := by simpa [containsEdge] using habsent
    rw [Network.removeEdge, hnone]
  removeNode_absent node habsent := by
    have hnone : n.slotOf? node = none := by simpa [containsNode] using habsent
    rw [Network.removeNode, hnone]
  addNode_present node hcontains := by
    obtain ⟨slot, hslot⟩ := Option.isSome_iff_exists.1 hcontains
    exact ⟨slot, hslot, by rw [Network.addNode, hslot]⟩

/-- **Only what may weigh an edge weighs one, and what is refused or finds nothing changes
nothing.** An edge is built at the weight that its properties tell, or at one if they tell none,
and is refused if that may not weigh an edge. After any operations, and so in every network that a
planner routes over, each weight that is stored is finite, not below zero, and was given. A weight
that is set then changes nothing else, and an operation that is refused or finds nothing to do
changes nothing at all. -/
theorem weights_exact :
    (∀ e : Edge, Weight.Valid e.weight.value) ∧
    (∀ id (properties : Properties),
      ∃ value, (∀ x, properties.OwnWeight x ↔ x = value) ∧
        (Weight.Valid value → ∃ w : Weight, w.value = value ∧
          Edge.ofProperties id properties = .ok ⟨id, properties, w⟩) ∧
        (¬ Weight.Valid value → Edge.ofProperties id properties = .error ⟨id, value⟩)) ∧
    (∀ (p : Planner) n, p.network = .ok n → ∃ ops, n = after ops) ∧
    ∀ ops, (∀ e ∈ (after ops).edges, Weight.Valid e.weight.value ∧ GivenBy ops e) ∧
      (after ops).Conservative := by
  have hvalid : ∀ e : Edge, Weight.Valid e.weight.value :=
    fun e => Weight.valid_iff.2 ⟨e.weight, rfl⟩
  refine ⟨hvalid, fun id properties => ⟨_, fun x => KeyMap.ownWeight_iff, fun hvalue => ?_,
      fun hvalue => ?_⟩,
    fun p n => exists_after_of_network, fun ops => ⟨fun e he => ?_, ?_⟩⟩
  · obtain ⟨w, hw⟩ := Weight.valid_iff.1 hvalue
    refine ⟨w, hw, ?_⟩
    rw [← Edge.weighted_of_weight w, hw]
    rfl
  · exact Edge.weighted_of_not_valid hvalue id properties
  · exact ⟨hvalid e, givenBy_of_mem_edges_after ops he⟩
  · exact (wellFormed_after ops).conservative

/-- The one edge of a network can be weighed anew at fifty, but neither at infinity nor below
zero; and an edge that is not there can be weighed at anything. -/
theorem weights_exact_single :
    (∃ n, (after [.addEdge single]).setWeight single.id 50 = (.ok true, n) ∧
      ∃ w : Weight, w.value = 50 ∧ n.edges = (after [.addEdge single]).edges.map fun e =>
        e.reweighed single.id w) ∧
    (after [.addEdge single]).setWeight single.id (1 / 0) =
      (.error ⟨single.id, 1 / 0⟩, after [.addEdge single]) ∧
    (after [.addEdge single]).setWeight single.id (-0.5) =
      (.error ⟨single.id, -0.5⟩, after [.addEdge single]) ∧
    (after [.addEdge single]).setWeight ⟨"x", "y", default⟩ (1 / 0) =
      (.ok false, after [.addEdge single]) := by
  obtain ⟨-, -, -, hops⟩ := weights_exact
  obtain ⟨-, hconservative⟩ := hops [.addEdge single]
  have hwell := wellFormed_after [.addEdge single]
  have hcontains : (after [.addEdge single]).containsEdge single.id = true :=
    hwell.containsEdge_iff.2 ⟨single, mem_edges_after_single.2 rfl, rfl⟩
  have habsent : (after [.addEdge single]).containsEdge ⟨"x", "y", default⟩ = false := by
    rw [← Bool.not_eq_true, hwell.containsEdge_iff]
    rintro ⟨e, he, hid⟩
    rw [mem_edges_after_single.1 he] at hid
    exact absurd hid (by decide)
  obtain ⟨w, hw, n, hset, hreweighed⟩ :=
    hconservative.setWeight_done single.id 50 hcontains (by decide)
  refine ⟨⟨n, hset, w, hw, hreweighed.edges_eq⟩, ?_, ?_, ?_⟩
  · exact hconservative.setWeight_refused single.id (1 / 0) hcontains (by decide)
  · exact hconservative.setWeight_refused single.id (-0.5) hcontains (by decide)
  · exact hconservative.setWeight_absent ⟨"x", "y", default⟩ (1 / 0) habsent

end Network

end Waybill
