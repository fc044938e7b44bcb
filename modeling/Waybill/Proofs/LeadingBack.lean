import Waybill.Proofs.JobNames
import Waybill.Proofs.Stages

/-!
# Flows that end where they start

No route is searched for from a node to itself (`shortestPath_self`), but a path that is asked
for may lead back to the node it starts at, and then it is taken like any other. So a flow whose
source is its destination fails for want of a route, unless a path is asked for that can be
passed from the node round to itself (`plan_of_same_ends`); there is such a path over a hop and
the hop back (`plan_there_and_back`).
-/

namespace Waybill

namespace Network

variable {n : Network} {name : String} {asked : Option String}

/-- From a node to itself no route is searched for. -/
theorem shortestPath_self (n : Network) (name : String) :
    n.shortestPath name name = .error (.noPath name name) := by
  have hguard : guard (f := Option) (name ≠ name) = none := if_neg (not_not.2 rfl)
  simp only [shortestPath, hguard]
  rfl

/-- **There is a route from a node to itself just where a path is asked for that leads back.** -/
theorem WellFormed.selectRoute_self_eq_error_iff (h : n.WellFormed) :
    n.selectRoute name name asked = .error (.noPath name name) ↔
      ∀ path, asked = some path → ¬ n.Passable (CommaList.items path) name name := by
  rcases asked with _ | path
  · exact iff_of_true (shortestPath_self n name) nofun
  rcases n.verifyPath_cases path name name with ⟨es, hes⟩ | ⟨fault, hfault⟩
  · have hpassable := h.exists_verifyPath_iff.1 ⟨es, hes⟩
    rw [selectRoute_of_ok hes]
    exact iff_of_false nofun fun hnot => hnot path rfl hpassable
  · have hnot : ¬ n.Passable (CommaList.items path) name name := by
      intro hpassable
      obtain ⟨es, hes⟩ := h.exists_verifyPath_iff.2 hpassable
      rw [hfault] at hes
      cases hes
    rw [selectRoute_of_error hfault, shortestPath_self]
    refine iff_of_true rfl fun path' heq => ?_
    cases heq
    exact hnot

/-- The edges that a path is taken over join its nodes one after another. -/
theorem Takes.map_ends {nodes : List String} {es : List Edge} (h : n.Takes nodes es) :
    es.map (fun e => (e.source, e.target)) = nodes.zip nodes.tail := by
  rw [← List.forall₂_eq_eq_eq, List.forall₂_map_left_iff]
  exact h.flip.imp fun e step ⟨_, hsource, htarget, _⟩ => Prod.ext hsource htarget

end Network

namespace Planner

variable {p : Planner} {n : Network} {flow : Flow} {plan : Plan} {name source sink : String}

/-- A path is asked for that can be passed from a node to itself. -/
def LeadsBack (p : Planner) (flow : Flow) (n : Network) (name path : String) : Prop :=
  p.path? flow = some path ∧ n.Passable (CommaList.items path) name name

/-- A plan over a path that is taken goes from node to node as the path does. -/
theorem map_ends_of_verifyPath {path : String} {es : List Edge} (h : n.WellFormed)
    (hpath : n.verifyPath path source sink = .ok es)
    (hover : List.Forall₂ (fun e s => s.Over e) es plan.steps) :
    plan.steps.map (fun s => (s.source, s.target)) =
      (CommaList.items path).zip (CommaList.items path).tail := by
  rw [← (h.takes_of_verifyPath hpath).map_ends, ← List.forall₂_eq_eq_eq,
    List.forall₂_map_left_iff, List.forall₂_map_right_iff]
  refine hover.flip.imp fun s e ⟨job, hs⟩ => ?_
  rw [hs]
  rfl

/-- **A flow that ends where it starts fails for want of a route, unless a path is asked for
that leads back.** What keeps the network from being made is told first. If the path that is
asked for leads back it is taken: then a plan goes round it, and if there is no plan it is not
for want of a route. -/
theorem plan_of_same_ends (p : Planner) (flow : Flow) (name : String)
    (hends : flow.ends = .ok (name, name)) :
    (∀ e, p.network = .error e → (p.plan flow).1 = .error e) ∧
    ∀ n, p.network = .ok n →
      ((p.plan flow).1 = .error (.noPath name name) ↔ ∀ path, ¬ p.LeadsBack flow n name path) ∧
      ∀ plan, (p.plan flow).1 = .ok plan → ∃ path, p.LeadsBack flow n name path ∧
        plan.steps.map (fun s => (s.source, s.target)) =
          (CommaList.items path).zip (CommaList.items path).tail := by
  have hplan : (p.plan flow).1 = p.network >>= fun n => p.planOver n flow name name := by
    rw [fst_plan, hends]
    rfl
  refine ⟨fun e he => by rw [hplan, he]; rfl, fun n hn => ?_⟩
  obtain ⟨hwell, -⟩ := of_network hn
  rw [hn] at hplan
  have hover : (p.plan flow).1 = p.planOver n flow name name := hplan
  have hnone : n.selectRoute name name (p.path? flow) = .error (.noPath name name) ↔
      ∀ path, ¬ p.LeadsBack flow n name path := by
    simp only [hwell.selectRoute_self_eq_error_iff, LeadsBack, not_and]
  rw [hover, ← hnone]
  refine ⟨⟨fun h => ?_, fun h => bind_eq_error_iff.2 (.inl h)⟩, fun plan h => ?_⟩
  · rcases planOver_eq_error_cases h with h | ⟨template, hop, fault, heq⟩
    · exact h
    · cases heq
  · obtain ⟨es, hroute, hsteps⟩ := forall₂_over_of_planOver h
    -- the search has no route from a node to itself, so it was a path
    rcases hpath : p.path? flow with _ | path
    · rw [hpath, Network.selectRoute, Option.map_none, Network.shortestPath_self] at hroute
      cases hroute
    rcases n.verifyPath_cases path name name with ⟨es', hes'⟩ | ⟨fault, hfault⟩
    · rw [hpath, Network.selectRoute_of_ok hes'] at hroute
      cases hroute
      exact ⟨path, ⟨hpath, hwell.exists_verifyPath_iff.1 ⟨_, hes'⟩⟩,
        map_ends_of_verifyPath hwell hes' hsteps⟩
    · rw [hpath, Network.selectRoute_of_error hfault, Network.shortestPath_self] at hroute
      cases hroute

/-! ## There and back -/

/-- A flow from a node to itself that asks to be led over another node. -/
def roundFlow : Flow := (flowFrom "a" "a").withPath "a,b,a"

theorem leadsBack_chained :
    (chained "a" "b" "a").LeadsBack roundFlow (chain "a" "b" "a") "a" "a,b,a" := by
  have hitems : CommaList.items "a,b,a" = ["a", "b", "a"] := by decide
  have hthere : hop "a" "b" ∈ (chain "a" "b" "a").edges :=
    (mem_edges_chain_iff (by decide)).2 (.inl rfl)
  have hback : hop "b" "a" ∈ (chain "a" "b" "a").edges :=
    (mem_edges_chain_iff (by decide)).2 (.inr rfl)
  refine ⟨rfl, ?_⟩
  rw [hitems]
  exact ⟨by decide, rfl, rfl, .cons_cons ⟨_, hthere, rfl, rfl⟩
    (.cons_cons ⟨_, hback, rfl, rfl⟩ (.singleton _))⟩

/-- The path there and back is taken over the hops. -/
theorem verifyPath_chained :
    (chain "a" "b" "a").verifyPath "a,b,a" "a" "a" = .ok [hop "a" "b", hop "b" "a"] := by
  obtain ⟨hwell, -⟩ := of_network (network_chained "a" "b" "a")
  have hitems : CommaList.items "a,b,a" = ["a", "b", "a"] := by decide
  have hne : "a" ≠ "b" := by decide
  obtain ⟨es, hes⟩ := hwell.exists_verifyPath_iff.2 leadsBack_chained.2
  -- of the two edges only one leads each way
  have hthere : ∀ e ∈ (chain "a" "b" "a").edges, e.source = "a" → e = hop "a" "b" := by
    intro e he hsource
    rcases (mem_edges_chain_iff hne).1 he with rfl | rfl
    · rfl
    · exact absurd hsource.symm hne
  have hback : ∀ e ∈ (chain "a" "b" "a").edges, e.source = "b" → e = hop "b" "a" := by
    intro e he hsource
    rcases (mem_edges_chain_iff hne).1 he with rfl | rfl
    · exact absurd hsource hne
    · rfl
  have htakes := hwell.takes_of_verifyPath hes
  rw [hitems] at htakes
  obtain ⟨e, rest, ⟨he, hsource, -⟩, hrest, rfl⟩ := List.forall₂_cons_left_iff.1 htakes
  obtain ⟨f, rest', ⟨hf, hsource', -⟩, hnone, rfl⟩ := List.forall₂_cons_left_iff.1 hrest
  obtain rfl := List.forall₂_nil_left_iff.1 hnone
  rw [hes, hthere e he hsource, hback f hf hsource']

/-- **A flow from a node to itself has a plan**, there and back, if it asks for one. -/
theorem plan_there_and_back :
    roundFlow.ends = .ok ("a", "a") ∧
    ((chained "a" "b" "a").plan roundFlow).1 = .ok (chainedPlan roundFlow "a" "b" "a") := by
  have hroute : (chain "a" "b" "a").selectRoute "a" "a" ((chained "a" "b" "a").path? roundFlow) =
      .ok [hop "a" "b", hop "b" "a"] := by
    rw [leadsBack_chained.1]
    exact Network.selectRoute_of_ok verifyPath_chained
  have hends : roundFlow.ends = .ok ("a", "a") := rfl
  exact ⟨hends, plan_of_selectRoute rfl rfl hends (network_chained "a" "b" "a") hroute⟩

/-- Over the same hops a flow that asks for no path fails, and one that asks to be led there
and back does not fail for want of a route. -/
theorem plan_of_same_ends_chained :
    (flowFrom "a" "a").ends = .ok ("a", "a") ∧ roundFlow.ends = .ok ("a", "a") ∧
    (chained "a" "b" "a").network = .ok (chain "a" "b" "a") ∧
    ((chained "a" "b" "a").plan (flowFrom "a" "a")).1 = .error (.noPath "a" "a") ∧
    (chained "a" "b" "a").LeadsBack roundFlow (chain "a" "b" "a") "a" "a,b,a" ∧
    ((chained "a" "b" "a").plan roundFlow).1 ≠ .error (.noPath "a" "a") := by
  have hnetwork := network_chained "a" "b" "a"
  obtain ⟨-, hplain⟩ := plan_of_same_ends (chained "a" "b" "a") (flowFrom "a" "a") "a" rfl
  obtain ⟨-, hround⟩ := plan_of_same_ends (chained "a" "b" "a") roundFlow "a" rfl
  have hnone : ∀ path, ¬ (chained "a" "b" "a").LeadsBack (flowFrom "a" "a")
      (chain "a" "b" "a") "a" path := by
    rintro path ⟨hpath, -⟩
    cases hpath
  refine ⟨rfl, rfl, hnetwork, (hplain _ hnetwork).1.2 hnone, leadsBack_chained, fun h => ?_⟩
  exact (hround _ hnetwork).1.1 h _ leadsBack_chained

end Planner

end Waybill
