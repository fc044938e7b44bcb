import Waybill.Proofs.Offers
import Waybill.Proofs.Stages

/-!
# Planners without obstacles

If every engine answers in time, no offer is refused and the policy blocks nothing, then all that
is offered is in the network and nothing else (`exists_network_of_open`). Where there is no template
to choose either, a walk is all that a plan needs (`exists_plan_of_isWalk`).
-/

namespace Waybill

open Network

/-! ## Policies -/

namespace Policy

variable {p : Policy}

/-- A policy blocks nothing: it keeps to declarations that block nothing, or it ignores them. -/
inductive BlocksNothing (p : Policy) : Prop
  | declared (hkind : p.kind = .declared) (hconnections : p.declarations.blockedConnections = [])
      (hnodes : p.declarations.blockedNodes = [])
  | unrestricted (hkind : p.kind = .unrestricted)

/-- A policy that is known to block nothing is of a built-in kind. -/
theorem BlocksNothing.builtIn (h : p.BlocksNothing) :
    p.kind = .declared ∨ p.kind = .unrestricted := by
  cases h with
  | declared hkind => exact .inl hkind
  | unrestricted hkind => exact .inr hkind

theorem BlocksNothing.blockedNodes_eq_nil (h : p.BlocksNothing) : p.blockedNodes = [] := by
  cases h with
  | declared hkind _ hnodes =>
    rw [blockedNodes_of_declared hkind, hnodes]
    rfl
  | unrestricted hkind => exact blockedNodes_of_unrestricted hkind

theorem BlocksNothing.excluded_eq_nil (h : p.BlocksNothing) (n : Network) : p.excluded n = [] := by
  cases h with
  | declared hkind hconnections hnodes =>
    rw [excluded_of_declared hkind, List.filter_eq_nil_iff]
    simp [Declarations.blocks, hconnections, hnodes]
  | unrestricted hkind => exact excluded_of_unrestricted hkind n

end Policy

namespace Network

variable {p : Policy} {n : Network}

/-- A policy that blocks nothing leaves all nodes and edges. -/
theorem WellFormed.nodes_restrict_of_blocksNothing (h : n.WellFormed) (hp : p.BlocksNothing) :
    (n.restrict p).nodes = n.nodes := by
  have hrest : (n.restrict p).nodes = n.nodes.filter (· ∉ p.blockedNodes) :=
    (h.remains_without p.blockedNodes (p.excluded n)).nodes_eq
  rw [hrest, hp.blockedNodes_eq_nil]
  simp

/-- Under such a policy every edge is left. -/
theorem WellFormed.edges_restrict_of_blocksNothing (h : n.WellFormed) (hp : p.BlocksNothing) :
    (n.restrict p).edges = n.edges := by
  rw [h.edges_restrict, hp.excluded_eq_nil, hp.blockedNodes_eq_nil]
  simp

end Network

/-! ## Planners -/

/-- An engine that answers at once is never late. -/
theorem Answer.not_fails_at_once {offers : List Offer} {limit : Nat} {fault : QueryFault} :
    ¬ (Answer.offered 0 offers).Fails limit fault := by
  intro hfails
  cases hfails with
  | late hdelay hlate =>
    cases hdelay
    exact absurd hlate (Nat.not_lt_zero limit)

namespace Planner

variable {p : Planner} {n : Network} {flow : Flow} {es : List Edge} {source sink : String}

/-- Every engine answers in time, no offer is refused and nothing is blocked. -/
structure IsOpen (p : Planner) : Prop where
  answered : ∀ t ∈ p.topologies.values, ∀ fault, ¬ t.answer.Fails p.queryTimeout fault
  accepted : ∀ x ∈ p.offers, ∀ value, ¬ p.policy.Refuses x value
  allowed : p.policy.BlocksNothing

/-- The offers of a planner are those in the answers of its engines. -/
theorem offers_eq_offersIn (p : Planner) :
    offersIn (p.topologies.values.map fun t => (t.engine, t.answer.offers)) = p.offers := by
  rw [offersIn, List.flatMap_map]
  rfl

/-- **What is offered to a planner without obstacles is its network.** -/
theorem exists_network_of_open (h : p.IsOpen) : ∃ n, p.network = .ok n ∧ n.WellFormed ∧
    n.nodes = (namedBy p.offers).eraseDups ∧ n.edges.map (·.id) = (idsOf p.offers).eraseDups ∧
    ∀ x ∈ p.offers, ∃ e ∈ n.edges, e.source = x.2.source ∧ e.target = x.2.target := by
  have haccepted := p.offers_eq_offersIn ▸ h.accepted
  obtain ⟨whole, hwhole⟩ := exists_assemble_eq_ok haccepted
  have hwell := (listed_assemble hwhole).wellFormed
  have hexact := exact_assemble hwhole
  rw [p.offers_eq_offersIn] at hexact
  refine ⟨_, network_eq_ok_iff.2 ⟨h.answered, whole, hwhole, rfl⟩, hwell.restrict _, ?_, ?_, ?_⟩
  · rw [hwell.nodes_restrict_of_blocksNothing h.allowed, hexact.nodes_eq]
  · rw [hwell.edges_restrict_of_blocksNothing h.allowed, hexact.ids_eq]
  · rw [hwell.edges_restrict_of_blocksNothing h.allowed]
    intro x hx
    obtain ⟨e, ⟨he, hsource, htarget, -⟩, -⟩ := hexact.existsUnique x hx
    exact ⟨e, he, hsource, htarget⟩

/-- **Where there is nothing to choose from, a walk is all that a plan needs.** -/
theorem exists_plan_of_isWalk (htemplates : p.edgeTemplates = .wholeCatalog)
    (hempty : ∀ c ∈ p.catalog, ∀ uri, c.get? uri = none) (hends : flow.ends = .ok (source, sink))
    (hne : source ≠ sink) (hnetwork : p.network = .ok n) (hwalk : n.IsWalk source es sink) :
    ∃ plan, (p.plan flow).1 = .ok plan := by
  have hwell := (of_network hnetwork).1
  obtain ⟨hsource, hsink⟩ := hwell.containsNode_of_isWalk hwalk hne
  obtain ⟨es', hroute⟩ := hwell.exists_selectRoute ⟨hne, hsource, hsink, _, hwalk⟩ (p.path? flow)
  exact ⟨_, plan_of_nothing htemplates hempty hends hnetwork hroute⟩

end Planner

end Waybill
