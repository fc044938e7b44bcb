import Waybill.Proofs.Withholding

/-!
# Stricter policies

A policy that blocks more leaves fewer edges of the same network, at the same weights
(`StricterThan.assemble_eq`, `StricterThan.edges_restrict_subset`). Every walk over what it leaves
is a walk over what the looser one leaves (`IsWalk.mono`), so where a route is found under the
stricter policy one is found under the looser, and weighs no more (`shortestPath_of_stricter`).
How the two searches proceed is not compared: each is known by its answer.
-/

namespace Waybill

/-! ## Fewer edges -/

namespace Network

variable {n n' : Network} {es : List Edge} {source sink : String}

/-- **With more edges there is no worse a route.** -/
theorem WellFormed.shortestPath_of_subset (h : n.WellFormed) (h' : n'.WellFormed)
    (hsub : n'.edges ⊆ n.edges) (hroute : n'.shortestPath source sink = .ok es) :
    ∃ better, n.shortestPath source sink = .ok better ∧
      Weight.total (better.map (·.weight.value)) ≤ Weight.total (es.map (·.weight.value)) := by
  rcases h'.shortestPath_cases source sink with ⟨es', hes', hne, hwalk, -⟩ | ⟨herror, -⟩
  · rw [hroute] at hes'
    cases hes'
    have hwalk := hwalk.mono hsub
    rcases h.shortestPath_cases source sink with ⟨better, hbetter, -, -, hleast⟩ | ⟨-, hnone⟩
    · exact ⟨better, hbetter, hleast es hwalk⟩
    · exact absurd hwalk (hnone.resolve_left hne es)
  · rw [hroute] at herror
    cases herror

/-- What is assembled under a policy is told by how the policy weighs. -/
theorem assemble_congr {p q : Policy} (h : p.weigh = q.weigh)
    (answers : List (Engine × List Offer)) : assemble p answers = assemble q answers := by
  have hadd : addOffer p = addOffer q := by
    funext n engine o
    simp only [addOffer, h]
  simp only [assemble, addOffers, hadd]

end Network

/-! ## Blocking more -/

namespace Policy

/-- A policy is no looser than another: both keep to their declarations and say the same of what
edges weigh, and it blocks every connection and every node that the other blocks. -/
structure StricterThan (strict loose : Policy) : Prop where
  kind : strict.kind = .declared
  kind_loose : loose.kind = .declared
  overrides : ∀ id w, strict.declarations.Overrides id w ↔ loose.declarations.Overrides id w
  connections :
    loose.declarations.blockedConnections ⊆ strict.declarations.blockedConnections
  nodes : loose.declarations.blockedNodes ⊆ strict.declarations.blockedNodes

variable {strict loose : Policy} {id : EdgeId}

theorem StricterThan.weigh_eq (h : strict.StricterThan loose) : strict.weigh = loose.weigh := by
  funext id properties
  have hweight : strict.weightOf? id properties = loose.weightOf? id properties := by
    rw [weightOf?_of_declared h.kind, weightOf?_of_declared h.kind_loose]
    refine congrArg (Option.map _) (Option.ext fun w => ?_)
    rw [Declarations.override?_eq_some_iff, Declarations.override?_eq_some_iff, h.overrides]
  simp only [weigh, hweight]

/-- **The network is the same before anything is blocked.** -/
theorem StricterThan.assemble_eq (h : strict.StricterThan loose)
    (answers : List (Engine × List Offer)) :
    Network.assemble strict answers = Network.assemble loose answers :=
  Network.assemble_congr h.weigh_eq answers

/-- What the stricter policy lets pass the looser one lets pass. -/
theorem StricterThan.blocks_eq_false (h : strict.StricterThan loose)
    (hpass : strict.declarations.blocks id = false) : loose.declarations.blocks id = false := by
  rw [Declarations.blocks_eq_false_iff] at hpass ⊢
  rintro (hconnection | hsource | htarget)
  · exact hpass (.inl (h.connections hconnection))
  · exact hpass (.inr (.inl (h.nodes hsource)))
  · exact hpass (.inr (.inr (h.nodes htarget)))

theorem StricterThan.edges_restrict_subset (h : strict.StricterThan loose) {n : Network}
    (hwell : n.WellFormed) : (n.restrict strict).edges ⊆ (n.restrict loose).edges := by
  intro e he
  rw [hwell.mem_edges_restrict_of_declared h.kind] at he
  rw [hwell.mem_edges_restrict_of_declared h.kind_loose]
  exact ⟨he.1, h.blocks_eq_false he.2⟩

end Policy

/-! ## Routes -/

namespace Network

variable {strict loose : Policy}

/-- **To block more never helps.** Where no offer is refused, two policies that say the same of
weights assemble one network. If a route is found over what the stricter of them leaves of it, one
is found over what the looser leaves, and it weighs no more. -/
theorem shortestPath_of_stricter (h : strict.StricterThan loose)
    (answers : List (Engine × List Offer))
    (hweighed : ∀ x ∈ offersIn answers, ∀ value, ¬ loose.Refuses x value) :
    ∃ n, assemble strict answers = .ok n ∧ assemble loose answers = .ok n ∧
      ∀ source sink es, (n.restrict strict).shortestPath source sink = .ok es →
        ∃ better, (n.restrict loose).shortestPath source sink = .ok better ∧
          Weight.total (better.map (·.weight.value)) ≤
            Weight.total (es.map (·.weight.value)) := by
  obtain ⟨n, hn⟩ := exists_assemble_eq_ok hweighed
  have hwell := (assembled_assemble hn).wellFormed
  refine ⟨n, (h.assemble_eq answers).trans hn, hn, fun source sink es hroute => ?_⟩
  exact (hwell.restrict loose).shortestPath_of_subset (hwell.restrict strict)
    (h.edges_restrict_subset hwell) hroute

/-- A policy that blocks one of the two nodes that the `fenced` planner blocks, and no hop. -/
def halfFenced : Policy := ⟨.declared, ⟨[], ["d"], [], none⟩, none⟩

theorem fenced_stricterThan : fenced.policy.StricterThan halfFenced where
  kind := rfl
  kind_loose := rfl
  overrides _ _ := Iff.rfl
  connections := List.nil_subset _
  nodes := by simp [halfFenced, fenced]

/-- Where two hops around are left, there is a route. -/
theorem exists_shortestPath_around {n : Network} (hn : assemble fenced.policy hopsOffered = .ok n) :
    ∃ es, (n.restrict fenced.policy).shortestPath "a" "b" = .ok es := by
  have hlisted := listed_assemble hn
  have hleft : ∀ x ∈ offersIn hopsOffered, fenced.policy.declarations.blocks (x.2.edgeId x.1) = false →
      ∃ e ∈ (n.restrict fenced.policy).edges, e.id = x.2.edgeId x.1 := by
    intro x hx hpass
    obtain ⟨e, he, hid⟩ := hlisted.wellFormed.containsEdge_iff.1
      (hlisted.containsEdge_iff.2 (List.mem_map_of_mem hx))
    exact ⟨e, (hlisted.wellFormed.mem_edges_restrict_of_declared rfl).2 ⟨he, hid ▸ hpass⟩, hid⟩
  obtain ⟨e, he, hid⟩ := hleft (default, ⟨"a", "e", ∅⟩) (by decide) (by decide)
  obtain ⟨f, hf, hid'⟩ := hleft (default, ⟨"e", "b", ∅⟩) (by decide) (by decide)
  have hwalk : (n.restrict fenced.policy).IsWalk "a" [e, f] "b" := by
    refine ⟨he, congrArg EdgeId.source hid, hf, ?_, congrArg EdgeId.target hid'⟩
    exact (congrArg EdgeId.source hid').trans (congrArg EdgeId.target hid).symm
  have hwell := hlisted.wellFormed.restrict fenced.policy
  have hne : "a" ≠ "b" := by decide
  obtain ⟨hsource, hsink⟩ := hwell.containsNode_of_isWalk hwalk hne
  exact hwell.exists_shortestPath ⟨hne, hsource, hsink, _, hwalk⟩

/-- Around the fence there is a route, and where half of it is taken down there is one that
weighs no more. -/
theorem shortestPath_of_stricter_fenced :
    fenced.policy.StricterThan halfFenced ∧
    (∀ x ∈ offersIn hopsOffered, ∀ value, ¬ halfFenced.Refuses x value) ∧
    ∃ n es better, assemble fenced.policy hopsOffered = .ok n ∧
      (n.restrict fenced.policy).shortestPath "a" "b" = .ok es ∧
      (n.restrict halfFenced).shortestPath "a" "b" = .ok better ∧
      Weight.total (better.map (·.weight.value)) ≤ Weight.total (es.map (·.weight.value)) := by
  have hunweighed : ∀ x ∈ offersIn hopsOffered,
      x.2.properties.get? "flow.edge.weight" = none := by decide
  have haccepted : ∀ x ∈ offersIn hopsOffered, ∀ value, ¬ halfFenced.Refuses x value :=
    fun x hx => Policy.not_refuses_of_unweighed (.inl rfl) (hunweighed x hx)
  obtain ⟨n, hn, -, hroutes⟩ :=
    shortestPath_of_stricter fenced_stricterThan hopsOffered haccepted
  obtain ⟨es, hes⟩ := exists_shortestPath_around hn
  obtain ⟨better, hbetter, hle⟩ := hroutes "a" "b" es hes
  exact ⟨fenced_stricterThan, haccepted, n, es, better, hn, hes, hbetter, hle⟩

end Network

end Waybill
