import Waybill.Proofs.Alike
import Waybill.Proofs.Removal

/-!
# What a policy leaves

A policy names nodes and edges, and nothing is said of the order in which it names
them. What is left of a network without them is told by which they are: the rest of
its nodes, of its edges and of the edges that leave each node, in their old order
(`Remains`). So networks that the same is taken from in different orders are alike
(`WellFormed.alike_without`), and no plan tells them apart (`restrict_exact`).
-/

namespace Waybill

namespace Network

variable {n n' : Network} {nodes nodes' : List String} {ids ids' : List EdgeId}

/-- What is listed of a network without some nodes and some edges: the nodes that are
none of them, and the edges that are none of them and touch none of the nodes, in the
old order. -/
structure Remains (nodes : List String) (ids : List EdgeId) (n n' : Network) : Prop where
  nodes_eq : n'.nodes = n.nodes.filter (· ∉ nodes)
  edges_eq : n'.edges =
    n.edges.filter fun e => e.id ∉ ids ∧ e.source ∉ nodes ∧ e.target ∉ nodes
  outgoing_eq : ∀ node ∉ nodes, n'.outgoing node =
    (n.outgoing node).filter fun e => e.id ∉ ids ∧ e.source ∉ nodes ∧ e.target ∉ nodes
  outgoing_eq_nil : ∀ node ∈ nodes, n'.outgoing node = []

/-- What is left without some nodes and edges is the rest, in its order. -/
theorem WellFormed.remains_without (h : n.WellFormed) (nodes : List String) (ids : List EdgeId) :
    Remains nodes ids n (n.without nodes ids) := by
  have hleaves := leaves_without h nodes ids
  refine ⟨hleaves.nodes_eq, hleaves.edges_eq, fun node hnode => ?_, fun node hnode => ?_⟩
  · exact hleaves.outgoing_eq h (decide_eq_true hnode)
  · exact hleaves.outgoing_eq_nil h (decide_eq_false (not_not.2 hnode))

/-- What remains is told by the members of the lists. -/
theorem Remains.congr (h : Remains nodes ids n n') (hnodes : ∀ node, node ∈ nodes ↔ node ∈ nodes')
    (hids : ∀ id, id ∈ ids ↔ id ∈ ids') : Remains nodes' ids' n n' := by
  obtain ⟨h1, h2, h3, h4⟩ := h
  simp only [hnodes, hids] at h1 h2 h3 h4
  exact ⟨h1, h2, h3, h4⟩

/-- **In whatever order it is taken, the same leaves networks that are alike.** -/
theorem WellFormed.alike_without (h : n.WellFormed)
    (hnodes : ∀ node, node ∈ nodes ↔ node ∈ nodes') (hids : ∀ id, id ∈ ids ↔ id ∈ ids') :
    Alike (n.without nodes ids) (n.without nodes' ids') := by
  refine ⟨h.without nodes ids, h.without nodes' ids', fun node => ?_⟩
  have hleft := (h.remains_without nodes ids).congr hnodes hids
  have hright := h.remains_without nodes' ids'
  by_cases hnode : node ∈ nodes'
  · rw [hleft.outgoing_eq_nil node hnode, hright.outgoing_eq_nil node hnode]
  · rw [hleft.outgoing_eq node hnode, hright.outgoing_eq node hnode]

end Network

namespace Policy

variable {p : Policy} {n : Network} {node : String} {id : EdgeId}

/-- The nodes that the declared kind blocks are those declared. -/
theorem mem_blockedNodes_iff (hkind : p.kind = .declared) :
    node ∈ p.blockedNodes ↔ node ∈ p.declarations.blockedNodes := by
  rw [blockedNodes_of_declared hkind, List.mem_eraseDups]

/-- What is excluded is in the network, and it is blocked or touches a blocked node. -/
theorem mem_excluded_iff (h : n.WellFormed) (hkind : p.kind = .declared) :
    id ∈ p.excluded n ↔ n.containsEdge id ∧ (id ∈ p.declarations.blockedConnections ∨
      id.source ∈ p.declarations.blockedNodes ∨ id.target ∈ p.declarations.blockedNodes) := by
  rw [h.containsEdge_iff]
  simp [excluded_of_declared hkind, Declarations.blocks, or_assoc]

end Policy

namespace Planner

/-- The network of what the engines offer, before the policy is applied. -/
def wholeNetwork (p : Planner) : Except PlanError Network :=
  Topology.askAll p.queryTimeout p.topologies.values >>= fun answers =>
    match Network.assemble p.policy answers with
    | .ok n => .ok n
    | .error refusal => .error (.invalidWeight refusal)

theorem network_eq (p : Planner) :
    p.network = p.wholeNetwork >>= fun n => .ok (n.restrict p.policy) := by
  unfold network wholeNetwork
  rcases Topology.askAll p.queryTimeout p.topologies.values with e | answers
  · rfl
  · simp only [bind, Except.bind]
    rcases Network.assemble p.policy answers with refusal | n <;> rfl

theorem wellFormed_of_wholeNetwork {p : Planner} {n : Network} (h : p.wholeNetwork = .ok n) :
    n.WellFormed := by
  obtain ⟨answers, -, h⟩ := bind_eq_ok_iff.1 h
  split at h
  · next m hm =>
    cases h
    exact (Network.assembled_assemble hm).wellFormed
  · cases h

end Planner

namespace Network

/-- **Applying a policy is exact, in whatever order it names what it excludes.** Without
any nodes and edges just the rest of a network remains, in its old order. A policy
excludes what it says of the whole network, which is what its declarations block, if it
keeps to them. No plan depends on the order. -/
theorem restrict_exact (ops : List Operation) :
    (∀ (blocked nodes : List String) (excluded ids : List EdgeId),
      nodes.Perm blocked → ids.Perm excluded →
        Remains blocked excluded (after ops) ((after ops).without nodes ids)) ∧
    (∀ p : Policy,
      Remains p.blockedNodes (p.excluded (after ops)) (after ops) ((after ops).restrict p) ∧
      (p.kind = .declared →
        (∀ node, node ∈ p.blockedNodes ↔ node ∈ p.declarations.blockedNodes) ∧
        ∀ id, id ∈ p.excluded (after ops) ↔ (after ops).containsEdge id ∧
          (id ∈ p.declarations.blockedConnections ∨ id.source ∈ p.declarations.blockedNodes ∨
            id.target ∈ p.declarations.blockedNodes))) ∧
    ∀ (p : Planner) (flow : Flow) (n : Network) (nodes : List String) (ids : List EdgeId),
      p.wholeNetwork = .ok n → nodes.Perm p.policy.blockedNodes →
      ids.Perm (p.policy.excluded n) →
        (p.plan flow).1 =
          flow.ends >>= fun ends => p.planOver (n.without nodes ids) flow ends.1 ends.2 := by
  have h := wellFormed_after ops
  refine ⟨fun blocked nodes excluded ids hnodes hids => ?_, fun p => ⟨?_, fun hkind => ⟨?_, ?_⟩⟩,
    fun p flow n nodes ids hn hnodes hids => ?_⟩
  · exact (h.remains_without nodes ids).congr (fun _ => hnodes.mem_iff) fun _ => hids.mem_iff
  · exact h.remains_without _ _
  · exact fun node => Policy.mem_blockedNodes_iff hkind
  · exact fun id => Policy.mem_excluded_iff h hkind
  · have halike : Alike (n.restrict p.policy) (n.without nodes ids) :=
      (Planner.wellFormed_of_wholeNetwork hn).alike_without (fun _ => hnodes.mem_iff.symm)
        fun _ => hids.mem_iff.symm
    rw [Planner.fst_plan, Planner.network_eq, hn]
    refine congrArg _ (funext fun ends => ?_)
    exact Planner.planOver_eq halike rfl rfl rfl ends.1 ends.2

/-- A planner that is offered four hops around one, the policy of which blocks the hop
and two of the nodes. -/
def fenced : Planner where
  registry := .standard
  policy := ⟨.declared, ⟨[⟨"a", "b", default⟩], ["c", "d"], [], none⟩, none⟩
  catalog := none
  edgeTemplates := .wholeCatalog
  topologies := .ofList [("t", ⟨"t", "", default,
    .offered 0 [⟨"a", "b", ∅⟩, ⟨"a", "c", ∅⟩, ⟨"d", "b", ∅⟩, ⟨"a", "e", ∅⟩, ⟨"e", "b", ∅⟩]⟩)]
  queryTimeout := Setting.defaultQueryTimeout
  lastNetwork := none
  pictures := .empty

/-- What its engine answers. -/
def hopsOffered : List (Engine × List Offer) :=
  [(default, [⟨"a", "b", ∅⟩, ⟨"a", "c", ∅⟩, ⟨"d", "b", ∅⟩, ⟨"a", "e", ∅⟩, ⟨"e", "b", ∅⟩])]

/-- How the network of the hops is made. -/
def hopsAround : List Operation :=
  [.addEdge ⟨⟨"a", "b", default⟩, ∅, .one⟩, .addEdge ⟨⟨"a", "c", default⟩, ∅, .one⟩,
    .addEdge ⟨⟨"d", "b", default⟩, ∅, .one⟩, .addEdge ⟨⟨"a", "e", default⟩, ∅, .one⟩,
    .addEdge ⟨⟨"e", "b", default⟩, ∅, .one⟩]

/-- The hops that the policy excludes. -/
def fence : List EdgeId := [⟨"a", "b", default⟩, ⟨"a", "c", default⟩, ⟨"d", "b", default⟩]

theorem assemble_hopsOffered : assemble fenced.policy hopsOffered = .ok (after hopsAround) := rfl

theorem wholeNetwork_fenced : fenced.wholeNetwork = .ok (after hopsAround) := rfl

/-- Around a fenced hop the same remains if the blocked nodes and edges are named in the
opposite order, and so does the plan. -/
theorem restrict_exact_fenced :
    ["d", "c"].Perm fenced.policy.blockedNodes ∧
    fenced.wholeNetwork = .ok (after hopsAround) ∧
    Remains ["c", "d"] fence (after hopsAround)
      ((after hopsAround).without ["d", "c"] fence.reverse) ∧
    (∀ id, id ∈ fenced.policy.excluded (after hopsAround) ↔
      (after hopsAround).containsEdge id ∧ (id = ⟨"a", "b", default⟩ ∨
        (id.source = "c" ∨ id.source = "d") ∨ id.target = "c" ∨ id.target = "d")) ∧
    (fenced.plan Planner.loneFlow).1 = Planner.loneFlow.ends >>= fun ends =>
      fenced.planOver ((after hopsAround).without ["d", "c"]
        (fenced.policy.excluded (after hopsAround)).reverse) Planner.loneFlow ends.1 ends.2 := by
  obtain ⟨hremains, hpolicy, hplan⟩ := restrict_exact hopsAround
  have hnodes : ["d", "c"].Perm fenced.policy.blockedNodes := by decide
  refine ⟨hnodes, wholeNetwork_fenced, ?_, ?_, ?_⟩
  · exact hremains _ _ _ _ (List.reverse_perm ["c", "d"]) (List.reverse_perm fence)
  · intro id
    rw [((hpolicy fenced.policy).2 rfl).2 id]
    simp [fenced]
  · exact hplan fenced _ _ _ _ wholeNetwork_fenced hnodes (List.reverse_perm _)

end Network

end Waybill
