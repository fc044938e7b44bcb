import Mathlib.Data.List.Nodup
import Waybill.Proofs.Contents
import Waybill.Proofs.Cost
import Waybill.Proofs.Removal
import Waybill.Proofs.Search

/-!
# Shortest routes

The walks of a network, given by its edges, are the walks of its hops, given by
slots and costs (`WellFormed.leads_of_isWalk`, `WellFormed.lightestAlong_of_leads`).
So what the search answers is said of edges: a searched route exists wherever a walk
does (`shortestPath_complete`), and weighs no more than any walk
(`shortestPath_least`). The route takes the lightest edge of each hop, which may not
be the edge that the search took, but weighs no more. Where nothing joins two nodes
but one edge and a detour of two (`Detour`), the route can be named.
-/

namespace Waybill.Network

open Route

variable {n : Network} {e : Edge} {es walk : List Edge} {source sink : String} {i j : Nat}

/-! ## Walks -/

/-- The edges lead from one node to another, each from where the one before it
ended. -/
def IsWalk (n : Network) : String → List Edge → String → Prop
  | source, [], sink => source = sink
  | source, e :: es, sink => e ∈ n.edges ∧ e.source = source ∧ n.IsWalk e.target es sink

theorem mem_edges_of_isWalk (hwalk : n.IsWalk source es sink) (he : e ∈ es) : e ∈ n.edges := by
  induction es generalizing source with
  | nil => cases he
  | cons first es ih =>
    rcases List.mem_cons.1 he with rfl | he
    · exact hwalk.1
    · exact ih hwalk.2.2 he

/-- A walk over some edges is a walk over more. -/
theorem IsWalk.mono {n' : Network} (h : n'.IsWalk source es sink) (hsub : n'.edges ⊆ n.edges) :
    n.IsWalk source es sink := by
  induction es generalizing source with
  | nil => exact h
  | cons e es ih =>
    obtain ⟨he, hsource, hrest⟩ := h
    exact ⟨hsub he, hsource, ih hrest⟩

/-- What it costs to take an edge. -/
abbrev cost (e : Edge) : Cost := e.weight.cost

/-- A walk between different nodes ends with an edge. -/
theorem exists_target_of_isWalk (hwalk : n.IsWalk source walk sink) (hne : source ≠ sink) :
    ∃ e ∈ n.edges, e.target = sink := by
  induction walk generalizing source with
  | nil => exact absurd hwalk hne
  | cons e walk ih =>
    obtain ⟨he, -, hrest⟩ := hwalk
    by_cases heq : e.target = sink
    · exact ⟨e, he, heq⟩
    · exact ih hrest heq

/-- A walk between different nodes starts and ends at nodes of the network. -/
theorem WellFormed.containsNode_of_isWalk (h : n.WellFormed) (hwalk : n.IsWalk source walk sink)
    (hne : source ≠ sink) : n.containsNode source ∧ n.containsNode sink := by
  obtain ⟨last, hlast, rfl⟩ := exists_target_of_isWalk hwalk hne
  rcases walk with _ | ⟨e, walk⟩
  · exact absurd hwalk hne
  · obtain ⟨he, rfl, -⟩ := hwalk
    exact ⟨(h.containsNode_of_mem_edges he).1, (h.containsNode_of_mem_edges hlast).2⟩

/-! ## Hops are edges -/

/-- The links that leave a slot are the stored ones whose tail it is, a node being there
or not. -/
theorem WellFormed.mem_linksFrom_iff (h : n.WellFormed) {l : Link} :
    l ∈ n.linksFrom i ↔ ∃ k, n.links.get? k = some l ∧ l.tail = i := by
  rcases hv : n.vertices.get? i with _ | v
  · simp only [linksFrom, hv, List.not_mem_nil, false_iff]
    rintro ⟨k, hl, rfl⟩
    obtain ⟨v, hv', -⟩ := h.stored.leaving.live k l hl
    rw [hv] at hv'
    cases hv'
  · exact h.stored.mem_linksFrom_iff hv

/-- Every walk is a walk of hops at the same costs. -/
theorem WellFormed.leads_of_isWalk (h : n.WellFormed) (hwalk : n.IsWalk source walk sink)
    (hi : n.slotOf? source = some i) :
    ∃ j steps, n.slotOf? sink = some j ∧ Leads n.hops i steps j ∧
      steps.map (·.2) = walk.map cost := by
  induction walk generalizing source i with
  | nil =>
    obtain rfl : source = sink := hwalk
    exact ⟨i, [], hi, rfl, rfl⟩
  | cons e walk ih =>
    obtain ⟨he, rfl, hrest⟩ := hwalk
    obtain ⟨k, l, hl, rfl⟩ := mem_edges_iff.1 he
    obtain ⟨htail, hhead⟩ := h.slotOf?_of_link hl
    obtain ⟨j, steps, hj, hsteps, hcosts⟩ := ih hrest hhead
    rw [hi] at htail
    cases htail
    refine ⟨j, (l.head, cost l.edge) :: steps, hj, ⟨?_, hsteps⟩, by simp [hcosts]⟩
    exact List.mem_map.2 ⟨l, h.mem_linksFrom_iff.2 ⟨k, hl, rfl⟩, rfl⟩

/-! ## The lightest edge -/

/-- An edge that is lighter costs no more. -/
theorem cost_le_of_lighter {v w : Weight} (h : v.lighter w = true) : v.cost ≤ w.cost := by
  refine Weight.cost_le_of_not_lighter (decide_eq_false ?_)
  have : Weight.rank v.value < Weight.rank w.value := of_decide_eq_true h
  omega

/-- **The lightest of some edges is one of them and costs no more than any.** -/
theorem lightest?_spec (es : List Edge) :
    (es = [] ∧ lightest? es = none) ∨
      ∃ e ∈ es, lightest? es = some e ∧ ∀ f ∈ es, cost e ≤ cost f := by
  induction es with
  | nil => exact .inl ⟨rfl, rfl⟩
  | cons e es ih =>
    right
    rcases ih with ⟨rfl, -⟩ | ⟨f, hf, heq, hle⟩
    · exact ⟨e, List.mem_cons_self, rfl, by simp [Std.le_refl]⟩
    · rcases hlighter : f.weight.lighter e.weight with _ | _
      · have hef := Weight.cost_le_of_not_lighter hlighter
        refine ⟨e, List.mem_cons_self, by simp [lightest?, heq, hlighter], ?_⟩
        rw [List.forall_mem_cons]
        exact ⟨Std.le_refl _, fun g hg => Std.le_trans hef (hle g hg)⟩
      · refine ⟨f, List.mem_cons_of_mem e hf, by simp [lightest?, heq, hlighter], ?_⟩
        rw [List.forall_mem_cons]
        exact ⟨cost_le_of_lighter hlighter, hle⟩

/-- The lightest edge joins the nodes of its slots. -/
theorem WellFormed.of_lightestBetween? (h : n.WellFormed)
    (hlightest : n.lightestBetween? i j = some e) :
    e ∈ n.edges ∧ n.slotOf? e.source = some i ∧ n.slotOf? e.target = some j := by
  rcases lightest?_spec ((n.linksBetween i j).map (·.edge)) with ⟨-, hnone⟩ | ⟨e', he, heq, -⟩
  · rw [lightestBetween?, hnone] at hlightest
    cases hlightest
  · obtain rfl : e' = e := Option.some.inj (heq.symm.trans hlightest)
    obtain ⟨l, hl, rfl⟩ := List.mem_map.1 he
    obtain ⟨hfrom, hhead⟩ := List.mem_filter.1 hl
    obtain ⟨k, hk, rfl⟩ := h.mem_linksFrom_iff.1 hfrom
    obtain ⟨hsource, htarget⟩ := h.slotOf?_of_link hk
    exact ⟨mem_edges_iff.2 ⟨k, l, hk, rfl⟩, hsource, by rw [htarget, of_decide_eq_true hhead]⟩

/-- Where there is a hop, there is a lightest edge, at no more than the hop costs. -/
theorem WellFormed.lightestBetween?_of_hop (h : n.WellFormed) {w : Cost}
    (hop : (j, w) ∈ n.hops i) :
    ∃ e ∈ n.edges, n.lightestBetween? i j = some e ∧ cost e ≤ w ∧
      n.slotOf? e.source = some i ∧ n.slotOf? e.target = some j := by
  obtain ⟨l, hl, heq⟩ := List.mem_map.1 hop
  cases heq
  have hbetween : l.edge ∈ (n.linksBetween i l.head).map (·.edge) :=
    List.mem_map.2 ⟨l, List.mem_filter.2 ⟨hl, decide_eq_true rfl⟩, rfl⟩
  rcases lightest?_spec ((n.linksBetween i l.head).map (·.edge)) with ⟨hnil, -⟩ | ⟨e, -, heq, hle⟩
  · rw [hnil] at hbetween
    cases hbetween
  · -- the edge that is taken joins the slots of the hop, though it may be another
    obtain ⟨hmem, hsource, htarget⟩ := h.of_lightestBetween? heq
    exact ⟨e, hmem, heq, hle _ hbetween, hsource, htarget⟩

/-- **Along any hops the lightest edges are a walk**, and each costs no more than the
hop. -/
theorem WellFormed.lightestAlong_of_leads (h : n.WellFormed) {steps : List (Nat × Cost)}
    (hsteps : Leads n.hops i steps j) (hi : n.slotOf? source = some i)
    (hj : n.slotOf? sink = some j) :
    ∃ es, n.lightestAlong (i :: steps.map (·.1)) = some es ∧ n.IsWalk source es sink ∧
      List.Forall₂ (fun e step => cost e ≤ step.2) es steps := by
  induction steps generalizing source i with
  | nil =>
    obtain rfl : i = j := hsteps
    exact ⟨[], rfl, h.slotOf?_inj hi hj, .nil⟩
  | cons step steps ih =>
    obtain ⟨hop, hrest⟩ := hsteps
    obtain ⟨e, he, hlightest, hle, hsource, htarget⟩ := h.lightestBetween?_of_hop hop
    obtain ⟨es, hes, hwalk, hall⟩ := ih hrest htarget
    refine ⟨e :: es, ?_, ⟨he, h.slotOf?_inj hsource hi, hwalk⟩, .cons hle hall⟩
    simp only [List.map_cons, lightestAlong, hlightest, Option.bind_eq_bind, Option.bind_some,
      hes]
    rfl

/-! ## The search is given enough rounds -/

/-- The slots of the edges that a node lists as leaving it. -/
def leavingAt (n : Network) (slot : Nat) : List Nat :=
  ((n.vertices.get? slot).map (·.leaving)).getD []

/-- Parallel edges make one hop, so there are no more hops than edges. -/
theorem length_hops_le (n : Network) (slot : Nat) :
    (n.hops slot).length ≤ (n.leavingAt slot).length := by
  simp only [hops, List.length_map, linksFrom, leavingAt]
  rcases n.vertices.get? slot with _ | v
  · exact Nat.le_refl _
  · exact List.length_filterMap_le _ _

/-- And no more hops from some nodes than edges listed there, so that the rounds given to
the search are enough. -/
theorem hopCount_le_length (n : Network) (slots : List Nat) :
    Search.hopCount n.hops slots ≤ (slots.flatMap n.leavingAt).length := by
  induction slots with
  | nil => exact Nat.le_refl _
  | cons slot slots ih =>
    rw [Search.hopCount_cons, List.flatMap_cons, List.length_append]
    have := n.length_hops_le slot
    omega

/-- What is listed as leaving is stored, and leaves from there. -/
theorem WellFormed.mem_leavingAt (h : n.WellFormed) {k : Nat} (hk : k ∈ n.leavingAt i) :
    ∃ l, n.links.get? k = some l ∧ l.tail = i := by
  unfold leavingAt at hk
  rcases hv : n.vertices.get? i with _ | v
  · simp [hv] at hk
  · rw [hv] at hk
    exact (h.stored.leaving.mem_iff i v hv k).1 hk

/-- **No more hops leave different nodes than there are edges**: an edge leaves one
node only. -/
theorem WellFormed.hopCount_le (h : n.WellFormed) {slots : List Nat} (hnodup : slots.Nodup) :
    Search.hopCount n.hops slots ≤ n.edgeCount := by
  have hcount : n.edgeCount = (n.links.entries.map (·.1)).length := by
    rw [List.length_map, ← List.length_map (f := fun p : Nat × Link => p.2),
      Slots.map_snd_entries]
    exact h.stored.links_counted
  have hleaving : (slots.flatMap n.leavingAt).Nodup := by
    refine List.nodup_flatMap.2 ⟨fun i _ => ?_, hnodup.imp fun {i j} hij => ?_⟩
    · unfold leavingAt
      rcases hv : n.vertices.get? i with _ | v
      · exact .nil
      · exact h.stored.leaving.nodup i v hv
    · intro k hi hj
      obtain ⟨l, hl, rfl⟩ := h.mem_leavingAt hi
      obtain ⟨l', hl', rfl⟩ := h.mem_leavingAt hj
      rw [hl] at hl'
      cases hl'
      exact hij rfl
  have hsub : slots.flatMap n.leavingAt ⊆ n.links.entries.map (·.1) := by
    intro k hk
    obtain ⟨i, -, hk⟩ := List.mem_flatMap.1 hk
    obtain ⟨l, hl, -⟩ := h.mem_leavingAt hk
    exact List.mem_map.2 ⟨(k, l), Slots.mem_entries_iff.2 hl, rfl⟩
  calc
    Search.hopCount n.hops slots
    _ ≤ (slots.flatMap n.leavingAt).length := n.hopCount_le_length slots
    _ ≤ (n.links.entries.map (·.1)).length := hleaving.length_le_of_subset hsub
    _ = n.edgeCount := hcount.symm

/-- **The search answers.** -/
theorem WellFormed.answers_search (h : n.WellFormed) (tail head : Nat) :
    Search.Answers n.hops tail head Cost.zero (n.search tail head) :=
  Search.answers_run fun _ => h.hopCount_le

/-! ## Searched routes -/

/-- A route that the search finds is answered with the lightest edges along it. -/
theorem shortestPath_of_search {slots : List Nat} (hne : source ≠ sink)
    (hi : n.slotOf? source = some i) (hj : n.slotOf? sink = some j)
    (hfound : n.search i j = .found slots) (hes : n.lightestAlong slots = some es) :
    n.shortestPath source sink = .ok es := by
  simp [shortestPath, hne, hi, hj, hfound, Outcome.nodes?, hes]

/-- Where there is nothing to search, or the search runs empty, there is no route. -/
theorem shortestPath_eq_error (hnone : source = sink ∨ n.slotOf? source = none ∨
    n.slotOf? sink = none ∨ ∃ i j, n.slotOf? source = some i ∧ n.slotOf? sink = some j ∧
      n.search i j = .exhausted) :
    n.shortestPath source sink = .error (.noPath source sink) := by
  rcases hnone with heq | hsource | hsink | ⟨i, j, hi, hj, hsearch⟩
  · simp [shortestPath, heq]
  · simp [shortestPath, hsource]
  · simp [shortestPath, hsink]
  · simp [shortestPath, hi, hj, hsearch, Outcome.nodes?]

/-- What comes of a searched route: a walk that no walk is cheaper than, or the refusal,
and then there is no walk to find. -/
theorem WellFormed.shortestPath_cases (h : n.WellFormed) (source sink : String) :
    (∃ es, n.shortestPath source sink = .ok es ∧ source ≠ sink ∧ n.IsWalk source es sink ∧
      ∀ walk, n.IsWalk source walk sink →
        Weight.total (es.map (·.weight.value)) ≤ Weight.total (walk.map (·.weight.value))) ∨
    n.shortestPath source sink = .error (.noPath source sink) ∧
      (source = sink ∨ ∀ walk, ¬ n.IsWalk source walk sink) := by
  by_cases hne : source = sink
  · exact .inr ⟨shortestPath_eq_error (.inl hne), .inl hne⟩
  rcases hi : n.slotOf? source with _ | i
  · refine .inr ⟨shortestPath_eq_error (.inr (.inl hi)), .inr fun walk hwalk => ?_⟩
    have hcontains := (h.containsNode_of_isWalk hwalk hne).1
    rw [containsNode, hi] at hcontains
    cases hcontains
  rcases hj : n.slotOf? sink with _ | j
  · refine .inr ⟨shortestPath_eq_error (.inr (.inr (.inl hj))), .inr fun walk hwalk => ?_⟩
    have hcontains := (h.containsNode_of_isWalk hwalk hne).2
    rw [containsNode, hj] at hcontains
    cases hcontains
  have hanswers := h.answers_search i j
  generalize hsearch : n.search i j = outcome at hanswers
  cases hanswers with
  | exhausted hnone =>
    refine .inr ⟨shortestPath_eq_error (.inr (.inr (.inr ⟨i, j, hi, hj, hsearch⟩))),
      .inr fun walk hwalk => ?_⟩
    obtain ⟨j', steps, hj', hsteps, -⟩ := h.leads_of_isWalk hwalk hi
    rw [hj] at hj'
    cases hj'
    exact absurd hsteps (hnone steps)
  | @found steps hsteps hleast =>
    obtain ⟨es, hes, hwalk, hall⟩ := h.lightestAlong_of_leads hsteps hi hj
    have hroute := shortestPath_of_search hne hi hj hsearch hes
    refine .inl ⟨es, hroute, hne, hwalk, fun walk hwalk' => ?_⟩
    obtain ⟨j', steps', hj', hsteps', hcosts⟩ := h.leads_of_isWalk hwalk' hi
    rw [hj] at hj'
    cases hj'
    -- the edges weigh no more than the steps of the search, and these no more than the walk
    have hedges : costAlong Cost.zero (es.map fun e => (e, cost e)) ≤ costAlong Cost.zero steps :=
      costAlong_le_costAlong (Std.le_refl _) (List.forall₂_map_left_iff.2 hall)
    have htotal := Weight.total_le_total (Std.le_trans hedges (hleast steps' hsteps'))
    have hvalues : steps'.map (·.2.value) = walk.map (·.weight.value) := by
      have := congrArg (List.map Cost.value) hcosts
      rwa [List.map_map, List.map_map] at this
    rw [List.map_map, hvalues] at htotal
    exact htotal

/-- A route can be searched for: the ends are different nodes of the network, and a walk
leads from one to the other. -/
def Routable (n : Network) (source sink : String) : Prop :=
  source ≠ sink ∧ n.containsNode source ∧ n.containsNode sink ∧ ∃ walk, n.IsWalk source walk sink

/-- **A node that can be reached is reached.** -/
theorem WellFormed.exists_shortestPath (h : n.WellFormed) (hroutable : n.Routable source sink) :
    ∃ es, n.shortestPath source sink = .ok es := by
  obtain ⟨hne, -, -, walk, hwalk⟩ := hroutable
  rcases h.shortestPath_cases source sink with ⟨es, hes, -⟩ | ⟨-, heq | hnone⟩
  · exact ⟨es, hes⟩
  · exact absurd heq hne
  · exact absurd hwalk (hnone walk)

/-! ## Detours -/

/-- Two hops lead over a node in between, and any other edge straight from where they start to where
they end. -/
structure Detour (n : Network) (first second : Edge) : Prop where
  mem_first : first ∈ n.edges
  mem_second : second ∈ n.edges
  meets : second.source = first.target
  nodup : [first.source, first.target, second.target].Nodup
  others : ∀ e ∈ n.edges,
    e.source = first.source ∧ e.target = second.target ∨ e = first ∨ e = second

namespace Detour

variable {first second : Edge}

/-- The two hops of a detour join three different nodes. -/
theorem ne (h : n.Detour first second) :
    first.source ≠ first.target ∧ first.source ≠ second.target ∧ first.target ≠ second.target := by
  simpa [and_assoc] using h.nodup

/-- Nothing leaves the end of a detour. -/
theorem source_ne (h : n.Detour first second) (he : e ∈ n.edges) : e.source ≠ second.target := by
  obtain ⟨-, hends, hsecond⟩ := h.ne
  rcases h.others e he with ⟨hsource, -⟩ | rfl | rfl
  · rwa [hsource]
  · exact hends
  · rwa [h.meets]

/-- From the end of a detour no edge leads back to it. -/
theorem eq_nil_of_isWalk (h : n.Detour first second)
    (hwalk : n.IsWalk second.target es second.target) : es = [] := by
  cases es with
  | nil => rfl
  | cons e es => exact absurd hwalk.2.1 (h.source_ne hwalk.1)

theorem isWalk (h : n.Detour first second) :
    n.IsWalk first.source [first, second] second.target :=
  ⟨h.mem_first, rfl, h.mem_second, h.meets, rfl⟩

/-- **There is one way over the node in between**, and every other is a single edge. -/
theorem isWalk_cases (h : n.Detour first second)
    (hwalk : n.IsWalk first.source es second.target) :
    (∃ e ∈ n.edges, e.source = first.source ∧ e.target = second.target ∧ es = [e]) ∨
      es = [first, second] := by
  obtain ⟨hfirst, hends, hsecond⟩ := h.ne
  rcases es with _ | ⟨e, es⟩
  · exact absurd hwalk hends
  obtain ⟨he, hsource, hrest⟩ := hwalk
  rcases h.others e he with ⟨-, htarget⟩ | rfl | rfl
  · rw [htarget] at hrest
    obtain rfl := h.eq_nil_of_isWalk hrest
    exact .inl ⟨e, he, hsource, htarget, rfl⟩
  · rcases es with _ | ⟨e', es⟩
    · exact absurd hrest hsecond
    obtain ⟨he', hsource', hrest⟩ := hrest
    rcases h.others e' he' with ⟨hback, -⟩ | rfl | rfl
    · exact absurd (hback.symm.trans hsource') hfirst
    · exact absurd hsource' hfirst
    · obtain rfl := h.eq_nil_of_isWalk hrest
      exact .inr rfl
  · exact absurd (hsource.symm.trans h.meets) hfirst

/-- **A detour that is lighter than every edge past it is the route.** -/
theorem shortestPath_eq (h : n.Detour first second) (hwell : n.WellFormed)
    (hlighter : ∀ e ∈ n.edges, e.source = first.source → e.target = second.target →
      ¬ Weight.total [e.weight.value] ≤ Weight.total [first.weight.value, second.weight.value]) :
    n.shortestPath first.source second.target = .ok [first, second] := by
  rcases hwell.shortestPath_cases first.source second.target with
    ⟨es, hes, -, hwalk, hleast⟩ | ⟨-, hends | hnone⟩
  · rcases h.isWalk_cases hwalk with ⟨e, he, hsource, htarget, rfl⟩ | rfl
    · exact absurd (hleast _ h.isWalk) (hlighter e he hsource htarget)
    · exact hes
  · exact absurd hends h.ne.2.1
  · exact absurd h.isWalk (hnone _)

end Detour

/-- A network of one edge. -/
def single : Edge := ⟨⟨"a", "b", default⟩, ∅, .one⟩

theorem mem_edges_after_single : e ∈ (after [.addEdge single]).edges ↔ e = single :=
  (mem_edges_after_addEdge [single] (by decide)).trans List.mem_singleton

/-- A way straight on at ten, and one at nothing over a node that is going to be removed. -/
def sooner : List Edge :=
  [⟨⟨"a", "x", default⟩, ∅, .zero⟩, ⟨⟨"x", "b", default⟩, ∅, .zero⟩,
    ⟨⟨"a", "b", default⟩, ∅, .ten⟩]

/-- The first hop of the way over `c`. -/
def outward : Edge := ⟨⟨"a", "c", default⟩, ∅, .two⟩

/-- The second hop of the way over `c`. -/
def onward : Edge := ⟨⟨"c", "b", default⟩, ∅, .three⟩

/-- A way over `c`, and another way straight on at twelve. -/
def later : List Edge :=
  [outward, onward,
    ⟨⟨"a", "b", ⟨{ (default : Url) with scheme := "ferry" }⟩⟩, ∅, ⟨12, by decide⟩⟩]

/-- The way over `c` takes the slots of the node that was removed and of its edges. -/
def rerouted : List Operation :=
  sooner.map .addEdge ++ .removeNode "x" :: later.map .addEdge

/-- The edges that are left by the changes are known, with the weights they were given
last. -/
theorem mem_edges_after_rerouted : e ∈ (after rerouted).edges ↔ e ∈ sooner.drop 2 ++ later := by
  have hkept : sooner.drop 2 = sooner.filter fun e => e.source ≠ "x" ∧ e.target ≠ "x" := by decide
  have hsooner : ∀ e, e ∈ ((after (sooner.map .addEdge)).removeNode "x").2.edges ↔
      e ∈ sooner.drop 2 := fun e => by
    rw [(leaves_removeNode (wellFormed_after _) "x").edges_eq, List.mem_filter,
      mem_edges_after_addEdge sooner (by decide), hkept, List.mem_filter]
  have hlater := ((wellFormed_after (sooner.map .addEdge)).removeNode "x").mem_edges_foldl_addEdge
    later (x := e) (by decide) fun x hx => by
      rw [hsooner] at hx
      obtain rfl := List.mem_singleton.1 hx
      decide
  rw [hsooner, ← List.mem_append] at hlater
  rw [rerouted, after, List.foldl_append, List.foldl_cons]
  exact hlater

/-- And they are a detour beside the direct edge. -/
theorem detour_after_rerouted : (after rerouted).Detour outward onward where
  mem_first := mem_edges_after_rerouted.2 (by simp [later])
  mem_second := mem_edges_after_rerouted.2 (by simp [later])
  meets := rfl
  nodup := by decide
  others e he := by
    have hall : ∀ e ∈ sooner.drop 2 ++ later, e.source = outward.source ∧ e.target = onward.target ∨
        e = outward ∨ e = onward := by decide
    exact hall e (mem_edges_after_rerouted.1 he)

/-! ## Networks that are reached -/

/-- **A searched route weighs no more than any walk** from its source to its sink, in
every network that is reached. -/
theorem shortestPath_least (ops : List Operation)
    (h : (after ops).shortestPath source sink = .ok es) :
    (after ops).IsWalk source es sink ∧ ∀ walk, (after ops).IsWalk source walk sink →
      Weight.total (es.map (·.weight.value)) ≤ Weight.total (walk.map (·.weight.value)) := by
  rcases (wellFormed_after ops).shortestPath_cases source sink with
    ⟨es', hes, -, hwalk, hleast⟩ | ⟨herror, -⟩
  · rw [h] at hes
    cases hes
    exact ⟨hwalk, hleast⟩
  · rw [h] at herror
    cases herror

/-- The way over `c` is the route, at five, and there is no lighter way, though there was. -/
theorem shortestPath_least_rerouted :
    (after rerouted).shortestPath "a" "b" = .ok [outward, onward] ∧
    Weight.total ([outward, onward].map (·.weight.value)) = 5 ∧
    ∀ walk, (after rerouted).IsWalk "a" walk "b" →
      5 ≤ Weight.total (walk.map (·.weight.value)) := by
  have hfive : Weight.total ([outward, onward].map (·.weight.value)) = 5 := by decide
  have hlighter : ∀ e ∈ sooner.drop 2 ++ later, e.source = "a" → e.target = "b" →
      ¬ Weight.total [e.weight.value] ≤ Weight.total [outward.weight.value, onward.weight.value] := by
    decide
  have hroute : (after rerouted).shortestPath "a" "b" = .ok [outward, onward] :=
    detour_after_rerouted.shortestPath_eq (wellFormed_after _) fun e he =>
      hlighter e (mem_edges_after_rerouted.1 he)
  refine ⟨hroute, hfive, fun walk hwalk => ?_⟩
  exact hfive ▸ (shortestPath_least rerouted hroute).2 walk hwalk

/-- **A searched route is found just where there is one**, in every network that is
reached; elsewhere the refusal names the ends. The search is never out of rounds, and
what it finds has an edge for every hop. -/
theorem shortestPath_complete (ops : List Operation) (source sink : String) :
    ((after ops).Routable source sink → ∃ es, (after ops).shortestPath source sink = .ok es) ∧
    (¬ (after ops).Routable source sink →
      (after ops).shortestPath source sink = .error (.noPath source sink)) ∧
    ∀ tail head, (after ops).slotOf? source = some tail → (after ops).slotOf? sink = some head →
      (after ops).search tail head ≠ .unfinished ∧
      ∀ slots, (after ops).search tail head = .found slots →
        ∃ es, (after ops).lightestAlong slots = some es := by
  have h := wellFormed_after ops
  refine ⟨h.exists_shortestPath, fun hnot => ?_, fun tail head htail hhead => ?_⟩
  · rcases h.shortestPath_cases source sink with ⟨es, hes, hne, hwalk, -⟩ | ⟨herror, -⟩
    · obtain ⟨hsource, hsink⟩ := h.containsNode_of_isWalk hwalk hne
      exact absurd ⟨hne, hsource, hsink, es, hwalk⟩ hnot
    · exact herror
  · have hanswers := h.answers_search tail head
    generalize (after ops).search tail head = outcome at hanswers
    cases hanswers with
    | exhausted hnone => exact ⟨nofun, nofun⟩
    | found hsteps hleast =>
      refine ⟨nofun, fun slots hslots => ?_⟩
      cases hslots
      obtain ⟨es, hes, -⟩ := h.lightestAlong_of_leads hsteps htail hhead
      exact ⟨es, hes⟩

/-- There is a route where a node was removed and others took its slot, there is none back, and none
to the node that was removed. -/
theorem shortestPath_complete_rerouted :
    (∃ es, (after rerouted).shortestPath "a" "b" = .ok es) ∧
    (after rerouted).shortestPath "b" "a" = .error (.noPath "b" "a") ∧
    (after rerouted).shortestPath "a" "x" = .error (.noPath "a" "x") ∧
    ∃ tail head, (after rerouted).slotOf? "a" = some tail ∧
      (after rerouted).slotOf? "b" = some head ∧
      (after rerouted).search tail head ≠ .unfinished := by
  have hdetour := detour_after_rerouted
  have hwalk : (after rerouted).IsWalk "a" [outward, onward] "b" := hdetour.isWalk
  have hne : "a" ≠ "b" := by decide
  obtain ⟨hsource, hsink⟩ := (wellFormed_after _).containsNode_of_isWalk hwalk hne
  have hback : ¬ (after rerouted).Routable "b" "a" := by
    rintro ⟨hne, -, -, walk, hwalk⟩
    rcases walk with _ | ⟨e, walk⟩
    · exact hne hwalk
    · exact hdetour.source_ne hwalk.1 hwalk.2.1
  have hremoved : ¬ (after rerouted).Routable "a" "x" := by
    rintro ⟨hne, -, -, walk, hwalk⟩
    obtain ⟨e, he, htarget⟩ := exists_target_of_isWalk hwalk hne
    have hnone : ∀ e ∈ sooner.drop 2 ++ later, e.target ≠ "x" := by decide
    exact hnone e (mem_edges_after_rerouted.1 he) htarget
  obtain ⟨tail, htail⟩ := Option.isSome_iff_exists.1 hsource
  obtain ⟨head, hhead⟩ := Option.isSome_iff_exists.1 hsink
  obtain ⟨hforth, -, hanswers⟩ := shortestPath_complete rerouted "a" "b"
  exact ⟨hforth ⟨hne, hsource, hsink, _, hwalk⟩, (shortestPath_complete rerouted "b" "a").2.1 hback,
    (shortestPath_complete rerouted "a" "x").2.1 hremoved, tail, head, htail, hhead,
    (hanswers tail head htail hhead).1⟩

end Waybill.Network
