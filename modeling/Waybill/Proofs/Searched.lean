import Waybill.Proofs.Shortest

/-!
# Searched routes

A searched route passes no node twice (`nodup_of_shortestPath`). The way back from the goal
passes nodes that were settled one before the other, and each of them once
(`trace_sublist`); so it is with the slots that are found, and the edges between two of them
lead from the one node to the other, whichever of them is taken. The one that is taken is the
lightest of them (`shortestPath_simple`), whatever edge the search went along.
-/

namespace Waybill

namespace Route.Search

/-! ## Nodes that are found -/

variable {K V : Type} [BEq V] [Hashable V] [LE K] [Add K]
variable {hops : V → List (V × K)} {start goal v : V} {zero floor : K}
variable {s : Search K V} {settled l rest nodes : List V}

/-- **The way back passes nodes in the order in which they were settled**, the last one
first. -/
theorem trace_sublist (h : Rooted hops start zero s (v :: l)) {rounds : Nat}
    (htrace : trace s.parents rounds v rest = .found nodes) :
    ∃ way, nodes = way ++ rest ∧ way.Sublist (v :: l).reverse := by
  induction rounds generalizing v l rest with
  | zero => cases htrace
  | succ rounds ih =>
    rcases h.1 with ⟨-, hparent, -⟩ | @⟨u, -, -, hu, hparent, -, -, -⟩
    · simp only [trace, hparent, Outcome.found.injEq] at htrace
      exact ⟨[v], htrace.symm, by simp⟩
    · obtain ⟨newer, l', rfl⟩ := List.append_of_mem hu
      simp only [trace, hparent] at htrace
      obtain ⟨way, hnodes, hway⟩ := ih h.2.of_append htrace
      refine ⟨way ++ [v], by simp [hnodes], ?_⟩
      -- what was settled between a node and the one it hangs from is left out
      have holder : way.Sublist (newer ++ u :: l').reverse := by
        rw [List.reverse_append]
        exact hway.trans (List.sublist_append_left _ _)
      rw [List.reverse_cons]
      exact holder.append (List.Sublist.refl [v])

variable [LT K] [DecidableLT K] [LawfulCost K] [LawfulBEq V]

/-- **No node is found twice**, from whatever state the search goes on. -/
theorem Ready.nodup_run (h : Ready hops start goal zero settled floor s) {rounds : Nat}
    (hrun : run hops goal rounds s = .found nodes) : nodes.Nodup := by
  induction rounds generalizing settled floor s with
  | zero => cases hrun
  | succ rounds ih =>
    unfold run at hrun
    rcases hpop : s.queue.pop? with _ | ⟨⟨key, v⟩, q⟩
    · rw [hpop] at hrun
      cases hrun
    · simp only [hpop] at hrun
      split at hrun
      · next hgoal =>
        obtain rfl := beq_iff_eq.1 hgoal
        obtain ⟨way, rfl, hway⟩ := trace_sublist (h.rooted_goal hpop) hrun
        rw [List.append_nil]
        exact hway.nodup (List.nodup_reverse.2
          (List.nodup_cons.2 ⟨h.goal_notMem, h.invariant.nodup⟩))
      · next hgoal =>
        obtain ⟨settled', hready, -⟩ := h.visit hpop (by simpa using hgoal)
        exact ih hready hrun

theorem nodup_run {rounds : Nat} (hrun : run hops goal rounds (.start zero start) = .found nodes) :
    nodes.Nodup :=
  ready_start.nodup_run hrun

end Route.Search

namespace Network

open Route

variable {n : Network} {e f : Edge} {es : List Edge} {source sink : String} {i j : Nat}

/-! ## Edges that are taken -/

/-- The edges that are taken lead to the slots they are taken along. -/
theorem WellFormed.slotOf?_of_lightestAlong (h : n.WellFormed) {slots : List Nat}
    (hes : n.lightestAlong (i :: slots) = some es) :
    es.map (fun e => n.slotOf? e.target) = slots.map some := by
  induction slots generalizing i es with
  | nil =>
    cases hes
    rfl
  | cons j slots ih =>
    obtain ⟨e, he, hrest⟩ := Option.bind_eq_some_iff.1 hes
    obtain ⟨es', hes', heq⟩ := Option.bind_eq_some_iff.1 hrest
    cases heq
    rw [List.map_cons, List.map_cons, ih hes', (h.of_lightestBetween? he).2.2]

/-- The edge of every step that is taken is the lightest between two slots. -/
theorem exists_lightestBetween?_of_lightestAlong {slots : List Nat}
    (hes : n.lightestAlong slots = some es) (he : e ∈ es) :
    ∃ i j, n.lightestBetween? i j = some e := by
  induction slots generalizing es with
  | nil =>
    cases hes
    cases he
  | cons i slots ih =>
    rcases slots with _ | ⟨j, slots⟩
    · cases hes
      cases he
    obtain ⟨first, hfirst, hrest⟩ := Option.bind_eq_some_iff.1 hes
    obtain ⟨es', hes', heq⟩ := Option.bind_eq_some_iff.1 hrest
    cases heq
    rcases List.mem_cons.1 he with rfl | he
    · exact ⟨i, j, hfirst⟩
    · exact ih hes' he

/-- Of the edges that join the nodes of its slots the lightest costs the least. -/
theorem WellFormed.cost_le_of_lightestBetween? (h : n.WellFormed)
    (hlightest : n.lightestBetween? i j = some e) (hf : f ∈ n.edges)
    (hsource : f.source = e.source) (htarget : f.target = e.target) : cost e ≤ cost f := by
  obtain ⟨-, hi, hj⟩ := h.of_lightestBetween? hlightest
  obtain ⟨k, l, hl, rfl⟩ := mem_edges_iff.1 hf
  obtain ⟨htail, hhead⟩ := h.slotOf?_of_link hl
  have htail : i = l.tail := Option.some.inj (hi.symm.trans (hsource ▸ htail))
  have hhead : j = l.head := Option.some.inj (hj.symm.trans (htarget ▸ hhead))
  have hbetween : l.edge ∈ (n.linksBetween i j).map (·.edge) :=
    List.mem_map.2 ⟨l, List.mem_filter.2 ⟨h.mem_linksFrom_iff.2 ⟨k, hl, htail.symm⟩,
      decide_eq_true hhead.symm⟩, rfl⟩
  rcases lightest?_spec ((n.linksBetween i j).map (·.edge)) with ⟨hnil, -⟩ | ⟨e', -, heq, hle⟩
  · rw [hnil] at hbetween
    cases hbetween
  · obtain rfl : e' = e := Option.some.inj (heq.symm.trans hlightest)
    exact hle _ hbetween

/-- A searched route takes the lightest edges along the slots that are found. -/
theorem exists_search_of_shortestPath (hroute : n.shortestPath source sink = .ok es) :
    ∃ i j slots, n.slotOf? source = some i ∧ n.search i j = .found slots ∧
      n.lightestAlong slots = some es := by
  unfold shortestPath at hroute
  dsimp only at hroute
  split at hroute
  · next hfound =>
    cases hroute
    obtain ⟨-, -, hfound⟩ := Option.bind_eq_some_iff.1 hfound
    obtain ⟨i, hi, hfound⟩ := Option.bind_eq_some_iff.1 hfound
    obtain ⟨j, -, hfound⟩ := Option.bind_eq_some_iff.1 hfound
    obtain ⟨slots, hslots, hes⟩ := Option.bind_eq_some_iff.1 hfound
    refine ⟨i, j, slots, hi, ?_, hes⟩
    generalize n.search i j = outcome at hslots
    cases outcome <;> cases hslots
    rfl
  · cases hroute

/-- **A searched route passes no node twice.** -/
theorem WellFormed.nodup_of_shortestPath (h : n.WellFormed)
    (hroute : n.shortestPath source sink = .ok es) : (source :: es.map (·.target)).Nodup := by
  obtain ⟨i, j, slots, hi, hsearch, hes⟩ := exists_search_of_shortestPath hroute
  have hanswers := h.answers_search i j
  rw [hsearch] at hanswers
  cases hanswers with
  | @found steps _ _ =>
    -- the nodes lie in the slots that were found
    have hnodes : (source :: es.map (·.target)).map n.slotOf? =
        (i :: steps.map (·.1)).map some := by
      rw [List.map_cons, List.map_cons, hi, List.map_map]
      exact congrArg (some i :: ·) (h.slotOf?_of_lightestAlong hes)
    have hnodup : ((i :: steps.map (·.1)).map some).Nodup :=
      (Search.nodup_run hsearch).map (Option.some_injective Nat)
    exact List.Nodup.of_map n.slotOf? (hnodes ▸ hnodup)

/-! ## Simple routes -/

/-- A walk that passes no node twice has fewer hops than the network has nodes. -/
theorem WellFormed.length_lt_nodeCount (h : n.WellFormed) (hwalk : n.IsWalk source es sink)
    (hsource : n.containsNode source) (hnodup : (source :: es.map (·.target)).Nodup) :
    es.length < n.nodeCount := by
  have hsub : source :: es.map (·.target) ⊆ n.nodes := by
    refine List.cons_subset.2
      ⟨(h.represents.containsNode_iff source).1 hsource, fun node hnode => ?_⟩
    obtain ⟨e, he, rfl⟩ := List.mem_map.1 hnode
    have htarget := (h.containsNode_of_mem_edges (mem_edges_of_isWalk hwalk he)).2
    exact (h.represents.containsNode_iff e.target).1 htarget
  have hle := hnodup.length_le_of_subset hsub
  rwa [List.length_cons, List.length_map, ← h.represents.nodeCount_eq] at hle

/-- **A searched route is simple, and at every hop the lightest**, in every network that is
reached: it passes no node twice, and so has fewer hops than there are nodes, and none of the
edges that it takes weighs more than another between the same nodes. -/
theorem shortestPath_simple (ops : List Operation)
    (hroute : (after ops).shortestPath source sink = .ok es) :
    (after ops).IsWalk source es sink ∧ (source :: es.map (·.target)).Nodup ∧
      es.length < (after ops).nodeCount ∧
      ∀ e ∈ es, ∀ f ∈ (after ops).edges, f.source = e.source → f.target = e.target →
        e.weight.value ≤ f.weight.value := by
  have h := wellFormed_after ops
  obtain ⟨i, j, slots, hi, -, hes⟩ := exists_search_of_shortestPath hroute
  have hsource : (after ops).containsNode source := by rw [containsNode, hi]; rfl
  have hnodup := h.nodup_of_shortestPath hroute
  rcases h.shortestPath_cases source sink with ⟨es', hes', -, hwalk, -⟩ | ⟨herror, -⟩
  · rw [hroute] at hes'
    cases hes'
    refine ⟨hwalk, hnodup, h.length_lt_nodeCount hwalk hsource hnodup,
      fun e he f hf hfsource hftarget => ?_⟩
    obtain ⟨i', j', hlightest⟩ := exists_lightestBetween?_of_lightestAlong hes he
    exact h.cost_le_of_lightestBetween? hlightest hf hfsource hftarget
  · rw [hroute] at herror
    cases herror

/-- An edge parallel to the `single` one, which weighs nothing. -/
def freight : Edge :=
  ⟨⟨"a", "b", ⟨{ (default : Url) with scheme := "freight" }⟩⟩, ∅, .zero⟩

/-- An edge back that weighs nothing. -/
def empties : Edge := ⟨⟨"b", "a", default⟩, ∅, .zero⟩

/-- The edges of a network with a cycle that weighs nothing. -/
def shuttle : List Operation := [.addEdge single, .addEdge freight, .addEdge empties]

theorem mem_edges_after_shuttle :
    e ∈ (after shuttle).edges ↔ e = single ∨ e = freight ∨ e = empties :=
  (mem_edges_after_addEdge [single, freight, empties] (by decide)).trans (by simp)

/-- Of two parallel edges the one that weighs nothing is the whole route, though it could be
taken again and again at no cost. -/
theorem shortestPath_simple_shuttle :
    (after shuttle).shortestPath "a" "b" = .ok [freight] ∧
      ([freight] : List Edge).length < (after shuttle).nodeCount := by
  have hfreight : freight ∈ (after shuttle).edges := mem_edges_after_shuttle.2 (.inr (.inl rfl))
  have hwalk : (after shuttle).IsWalk "a" [freight] "b" := ⟨hfreight, rfl, rfl⟩
  have hne : "a" ≠ "b" := by decide
  obtain ⟨hsource, hsink⟩ := (wellFormed_after shuttle).containsNode_of_isWalk hwalk hne
  obtain ⟨es, hes⟩ :=
    (wellFormed_after shuttle).exists_shortestPath ⟨hne, hsource, hsink, _, hwalk⟩
  obtain ⟨hroute, hnodup, hlength, hlightest⟩ := shortestPath_simple shuttle hes
  obtain rfl : es = [freight] := by
    rcases es with _ | ⟨e, es⟩
    · exact absurd hroute hne
    obtain ⟨he, hleaves, hrest⟩ := hroute
    have hle := hlightest e List.mem_cons_self freight hfreight
    obtain rfl : e = freight := by
      rcases mem_edges_after_shuttle.1 he with rfl | rfl | rfl
      · exact absurd (hle rfl rfl) (by decide)
      · rfl
      · exact absurd hleaves (by decide)
    rcases es with _ | ⟨e, es⟩
    · rfl
    -- whatever comes next leads to a node that was passed before
    rcases mem_edges_after_shuttle.1 hrest.1 with rfl | rfl | rfl
    · exact absurd hrest.2.1 (by decide)
    · exact absurd hrest.2.1 (by decide)
    · simp [freight, empties] at hnodup
  exact ⟨hes, hlength⟩

end Network

end Waybill
