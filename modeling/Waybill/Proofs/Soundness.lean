import Waybill.Planner
import Waybill.Proofs.Assembly
import Waybill.Proofs.Removal
import Waybill.Proofs.Shortest

/-!
# What a plan says

A plan leads from the source of its flow to the destination, over edges that some
topology offers, that the policy allows, and at the weights that policy and offer give
them (`sound_of_plan`). However the route was chosen it is a walk
(`isWalk_of_selectRoute`); what is known of the edges of the network is known of its
steps.
-/

namespace Waybill

open Network

variable {n : Network} {e : Edge} {es : List Edge} {source sink : String}

/-! ## Given paths -/

namespace Network

/-- A step that is found joins its two nodes. -/
theorem WellFormed.of_stepBetween (h : n.WellFormed) (hstep : n.stepBetween source sink = .ok e) :
    e ∈ n.edges ∧ e.source = source ∧ e.target = sink := by
  unfold stepBetween at hstep
  split at hstep
  · cases hstep
  split at hstep
  · cases hstep
  split at hstep
  · cases hstep
  next e' hfirst =>
  cases hstep
  simp only [firstBetween?, Option.bind_eq_bind, Option.bind_eq_some_iff,
    Option.map_eq_some_iff] at hfirst
  obtain ⟨tail, htail, head, hhead, l, hl, rfl⟩ := hfirst
  have hhead' : l.head = head := by simpa using List.find?_some hl
  obtain ⟨k, hk, htail'⟩ := h.mem_linksFrom_iff.1 (List.mem_of_find?_eq_some hl)
  obtain ⟨hsource, htarget⟩ := h.slotOf?_of_link hk
  exact ⟨mem_edges_iff.2 ⟨k, l, hk, rfl⟩, h.slotOf?_inj (htail' ▸ hsource) htail,
    h.slotOf?_inj (hhead' ▸ htarget) hhead⟩

/-- The steps along some nodes lead from the first to the last. -/
theorem WellFormed.isWalk_of_stepsAlong (h : n.WellFormed) {nodes : List String}
    (hsteps : n.stepsAlong (source :: nodes) = .ok es) :
    n.IsWalk source es ((source :: nodes).getLast (List.cons_ne_nil _ _)) ∧
      es.length = nodes.length := by
  induction nodes generalizing source es with
  | nil =>
    cases hsteps
    exact ⟨rfl, rfl⟩
  | cons node nodes ih =>
    obtain ⟨e, he, hrest⟩ := bind_eq_ok_iff.1 hsteps
    obtain ⟨es', hes', heq⟩ := bind_eq_ok_iff.1 hrest
    cases heq
    obtain ⟨hmem, hsource, htarget⟩ := h.of_stepBetween he
    obtain ⟨hwalk, hlen⟩ := ih hes'
    exact ⟨⟨hmem, hsource, by rwa [htarget]⟩, by simp [hlen]⟩

/-- Following a path gives a walk along it, with at least one hop. -/
theorem WellFormed.isWalk_of_follow (h : n.WellFormed) {nodes : List String}
    (hfollow : n.follow nodes source sink = .ok es) : n.IsWalk source es sink ∧ es ≠ [] := by
  unfold follow at hfollow
  split at hfollow
  · cases hfollow
  next hlen =>
  split at hfollow
  · cases hfollow
  next hends =>
  rcases nodes with _ | ⟨first, nodes⟩
  · simp at hlen
  · obtain ⟨hwalk, hcount⟩ := h.isWalk_of_stepsAlong hfollow
    simp only [List.head?_cons, List.getLast?_eq_some_getLast (List.cons_ne_nil first nodes),
      ne_eq, Option.some.injEq, not_or, not_not] at hends
    refine ⟨hends.1 ▸ hends.2 ▸ hwalk, ?_⟩
    rintro rfl
    simp only [List.length_cons] at hlen
    simp only [List.length_nil] at hcount
    omega

/-- **However a route is chosen, it is a walk** of at least one edge. -/
theorem WellFormed.isWalk_of_selectRoute (h : n.WellFormed) {path : Option String}
    (hroute : n.selectRoute source sink path = .ok es) : n.IsWalk source es sink ∧ es ≠ [] := by
  have hsearched : n.shortestPath source sink = .ok es → n.IsWalk source es sink ∧ es ≠ [] := by
    intro hes
    rcases h.shortestPath_cases source sink with ⟨es', hes', hne, hwalk, -⟩ | ⟨herror, -⟩
    · rw [hes] at hes'
      cases hes'
      refine ⟨hwalk, ?_⟩
      rintro rfl
      exact hne hwalk
    · rw [hes] at herror
      cases herror
  unfold selectRoute at hroute
  split at hroute
  · next es' hgiven =>
    cases hroute
    obtain ⟨text, -, hverify⟩ := Option.map_eq_some_iff.1 hgiven
    unfold verifyPath at hverify
    split at hverify
    · next hfollow =>
      cases hverify
      exact h.isWalk_of_follow hfollow
    · cases hverify
  · exact hsearched hroute

/-- A route takes edges of the network. -/
theorem WellFormed.containsEdge_of_selectRoute (h : n.WellFormed) {path : Option String}
    (hroute : n.selectRoute source sink path = .ok es) (he : e ∈ es) : n.containsEdge e.id :=
  h.containsEdge_iff.2 ⟨e, mem_edges_of_isWalk (h.isWalk_of_selectRoute hroute).1 he, rfl⟩

end Network

/-! ## The order of topologies -/

/-- Every topology is kept under its own name. -/
def Named (topologies : KeyMap Topology) : Prop :=
  ∀ uri t, topologies.get? uri = some t → t.uri = uri

/-- Topologies under their own names are listed in the order of their names. -/
theorem Named.pairwise_uri_lt {topologies : KeyMap Topology} (h : Named topologies) :
    topologies.values.Pairwise fun t t' => t.uri < t'.uri := by
  have hkeys : topologies.values.map (·.uri) = topologies.keys := KeyMap.Keyed.map_values h
  exact List.pairwise_map.1 (hkeys ▸ topologies.pairwise_keys)

/-- A planner that is made has read the settings and knows the parts it is made from. -/
theorem Setup.eq_of_build {s : Setup} {p : Planner} (h : s.build = .ok p) :
    ∃ policy limit, Policy.ofConfig s.registry s.config = .ok policy ∧
      p = ⟨s.registry, policy, s.catalog, s.edgeTemplates,
        .ofList (s.topologies.map fun t => (t.uri, t)), limit, none, .empty⟩ := by
  obtain ⟨policy, hpolicy, h⟩ := bind_eq_ok_iff.1 h
  -- the time limit is given or read
  dsimp only at h
  split at h
  all_goals
    obtain ⟨limit, -, h⟩ := bind_eq_ok_iff.1 h
    exact ⟨policy, limit, hpolicy, (Except.ok.inj h).symm⟩

/-- A planner is built with every topology under its own name. -/
theorem Setup.named_of_build {s : Setup} {p : Planner} (h : s.build = .ok p) :
    Named p.topologies := by
  obtain ⟨-, -, -, rfl⟩ := eq_of_build h
  exact KeyMap.Keyed.foldl_insert (m := .empty) (f := Topology.uri) nofun s.topologies

theorem Planner.named_register {p : Planner} (h : Named p.topologies) (t : Topology) :
    Named (p.register t).2.topologies :=
  KeyMap.Keyed.insert (f := Topology.uri) h t

theorem Planner.named_unregister {p : Planner} (h : Named p.topologies) (uri : String) :
    Named (p.unregister uri).2.topologies :=
  KeyMap.Keyed.erase h uri

/-- Planning and loading a policy leave the topologies as they are. -/
theorem Planner.topologies_plan (p : Planner) (flow : Flow) :
    (p.plan flow).2.topologies = p.topologies := by
  unfold plan
  split
  · rfl
  · split <;> rfl

theorem Planner.topologies_reload (p : Planner) (config : Properties) :
    (p.reload config).2.topologies = p.topologies := by
  unfold reload
  split <;> rfl

/-! ## Steps -/

/-- What is offered to a planner: by one topology after another, in the order of their
names (`Named.pairwise_uri_lt`). -/
def Planner.offers (p : Planner) : List (Engine × Offer) :=
  p.topologies.values.flatMap fun t => t.answer.offers.map (t.engine, ·)

/-- What an edge weighs to a planner: what the policy proposes for the first offer of it, and else
what this offer advertises, or one. -/
def Planner.Weighs (p : Planner) (id : EdgeId) (x : Float) : Prop :=
  ∃ o, FirstOffer p.offers id o ∧ p.policy.WeighsAs id o.properties x

/-- A plan is sound: it leads from the source to the destination of its flow, over edges
that are offered and allowed, at the weights they have. -/
structure Plan.Sound (plan : Plan) (p : Planner) (flow : Flow) : Prop where
  ne_nil : plan.steps ≠ []
  first : ∃ name, flow.config.get? "flow.sourceIdentifier" = some name ∧
    plan.steps.head?.map (·.source) = some (Text.trim name)
  last : ∃ name, flow.config.get? "flow.destinationIdentifier" = some name ∧
    plan.steps.getLast?.map (·.target) = some (Text.trim name)
  /-- Every step ends where the next one starts. -/
  chained : plan.steps.IsChain fun s t => s.target = t.source
  /-- Every step says of itself what its edge says. -/
  identified : ∀ s ∈ plan.steps,
    s.engine = s.edge.engine ∧ s.source = s.edge.source ∧ s.target = s.edge.target
  /-- The edge of every step is offered by a topology of its engine. -/
  offered : ∀ s ∈ plan.steps, ∃ t ∈ p.topologies.values, t.engine = s.edge.engine ∧
    ∃ o ∈ t.answer.offers, o.source = s.edge.source ∧ o.target = s.edge.target
  /-- What is declared to be blocked is not used, by a policy that keeps to its
  declarations. -/
  allowed : p.policy.kind = .declared → ∀ s ∈ plan.steps,
    s.edge ∉ p.policy.declarations.blockedConnections ∧
    s.edge.source ∉ p.policy.declarations.blockedNodes ∧
    s.edge.target ∉ p.policy.declarations.blockedNodes
  weighed : ∀ s ∈ plan.steps, p.Weighs s.edge s.weight

/-- The step goes over the edge, whatever its job is. -/
def Step.Over (s : Step) (e : Edge) : Prop := ∃ job, s = .ofEdge job e

/-- Steps over a walk lead where the walk leads. -/
theorem Step.chained_of_isWalk {steps : List Step}
    (hover : List.Forall₂ (fun e s => s.Over e) es steps) (hwalk : n.IsWalk source es sink)
    (hne : es ≠ []) :
    steps.head?.map (·.source) = some source ∧ steps.getLast?.map (·.target) = some sink ∧
      steps.IsChain fun s t => s.target = t.source := by
  induction hover generalizing source with
  | nil => exact absurd rfl hne
  | @cons e s es steps hs hover ih =>
    obtain ⟨job, rfl⟩ := hs
    obtain ⟨-, rfl, hrest⟩ := hwalk
    cases hover with
    | nil => exact ⟨rfl, congrArg some hrest, .singleton _⟩
    | @cons e' s' es' steps' hs' hover' =>
      obtain ⟨hhead, hlast, hchain⟩ := ih hrest (List.cons_ne_nil _ _)
      refine ⟨rfl, ?_, .cons_cons ?_ hchain⟩
      · rw [List.getLast?_cons_cons]
        exact hlast
      · exact (Option.some.inj hhead).symm

/-- Every step over a walk goes over an edge of the network. -/
theorem Step.over_edge_of_isWalk {steps : List Step}
    (hover : List.Forall₂ (fun e s => s.Over e) es steps) (hwalk : n.IsWalk source es sink) :
    ∀ s ∈ steps, ∃ e ∈ n.edges, s.Over e := by
  intro s hs
  obtain ⟨e, he, hs⟩ := exists_of_forall₂ hover s hs
  exact ⟨e, mem_edges_of_isWalk hwalk he, hs⟩

/-! ## The network of a planner -/

namespace Planner

variable {p : Planner} {flow : Flow} {plan : Plan}

/-- **Where the edges of a planner's network come from.** -/
theorem of_network (h : p.network = .ok n) : n.WellFormed ∧ ∀ e ∈ n.edges,
    (p.policy.kind = .declared → p.policy.declarations.blocks e.id = false) ∧
    ∃ o, FirstOffer p.offers e.id o ∧ p.policy.weigh e.id o.properties = .ok e := by
  obtain ⟨answers, hanswers, hrest⟩ := bind_eq_ok_iff.1 h
  have hoffers : answers.flatMap (fun a => a.2.map (a.1, ·)) = p.offers := by
    rw [Topology.askAll_eq_ok hanswers, List.flatMap_map]
    rfl
  split at hrest
  · next m hm =>
    cases hrest
    have hassembled := assembled_assemble hm
    rw [hoffers] at hassembled
    refine ⟨hassembled.wellFormed.restrict _, fun e he => ?_⟩
    obtain ⟨hmem, -⟩ := (hassembled.wellFormed.mem_edges_restrict _).1 he
    refine ⟨fun hkind => ?_, hassembled.first e hmem⟩
    exact ((hassembled.wellFormed.mem_edges_restrict_of_declared hkind).1 he).2
  · cases hrest

/-- What an offer is weighed at is what its edge weighs to the planner. -/
theorem weighs_of_weigh {id : EdgeId} {o : Offer} (hfirst : FirstOffer p.offers id o)
    (h : p.policy.weigh id o.properties = .ok e) : p.Weighs id e.weight.value :=
  ⟨o, hfirst, (Policy.of_weigh h).2.2⟩

/-- Every edge of a planner's network is offered by a topology. -/
theorem exists_of_firstOffer {id : EdgeId} {o : Offer} (h : FirstOffer p.offers id o) :
    ∃ t ∈ p.topologies.values, t.engine = id.engine ∧
      ∃ o ∈ t.answer.offers, o.source = id.source ∧ o.target = id.target := by
  obtain ⟨t, ht, ho⟩ := List.mem_flatMap.1 h.mem
  obtain ⟨o', ho', heq⟩ := List.mem_map.1 ho
  obtain ⟨hengine, rfl⟩ := Prod.mk.inj heq
  obtain ⟨before, after, -, hid, -⟩ := h
  exact ⟨t, ht, hengine, o', ho', congrArg EdgeId.source hid, congrArg EdgeId.target hid⟩

/-- What declarations do not block is nowhere among what they declare to be blocked. -/
theorem not_blocked_of_blocks {d : Declarations} {id : EdgeId} (h : d.blocks id = false) :
    id ∉ d.blockedConnections ∧ id.source ∉ d.blockedNodes ∧ id.target ∉ d.blockedNodes := by
  simpa [Declarations.blocks, and_assoc] using h

/-- A plan over a network has a step for every edge of the route. -/
theorem forall₂_step_of_planOver {flow : Flow}
    (h : p.planOver n flow source sink = .ok plan) :
    ∃ es, n.selectRoute source sink (p.path? flow) = .ok es ∧
      List.Forall₂ (fun e s => p.step n flow e = .ok s) es plan.steps := by
  obtain ⟨es, hroute, hrest⟩ := bind_eq_ok_iff.1 h
  obtain ⟨steps, hsteps, heq⟩ := bind_eq_ok_iff.1 hrest
  cases heq
  exact ⟨es, hroute, forall₂_of_mapM_eq_ok hsteps⟩

theorem over_of_step {flow : Flow} {s : Step} (h : p.step n flow e = .ok s) : s.Over e := by
  obtain ⟨job, -, heq⟩ := bind_eq_ok_iff.1 h
  cases heq
  exact ⟨job, rfl⟩

/-- A plan has one step for each edge of its route, in order. -/
theorem forall₂_over_of_planOver {flow : Flow}
    (h : p.planOver n flow source sink = .ok plan) :
    ∃ es, n.selectRoute source sink (p.path? flow) = .ok es ∧
      List.Forall₂ (fun e s => s.Over e) es plan.steps := by
  obtain ⟨es, hroute, hsteps⟩ := forall₂_step_of_planOver h
  exact ⟨es, hroute, hsteps.imp fun e s => over_of_step⟩

theorem trim_of_node {key name : String} (h : flow.node key = .ok name) :
    ∃ raw, flow.config.get? key = some raw ∧ Text.trim raw = name := by
  unfold Flow.node at h
  split at h
  · next hname =>
    cases h
    have := Option.eq_some_of_filter_eq_some hname
    exact Option.map_eq_some_iff.1 this
  · cases h

/-- A planner that knows one topology, which offers one hop. -/
def lone : Planner where
  registry := .standard
  policy := ⟨.declared, .empty, none⟩
  catalog := none
  edgeTemplates := .wholeCatalog
  topologies := .ofList [("t", ⟨"t", "", default, .offered 0 [⟨"a", "b", ∅⟩]⟩)]
  queryTimeout := Setting.defaultQueryTimeout
  lastNetwork := none
  pictures := .empty

/-- A flow over the hop. -/
def loneFlow : Flow :=
  .ofUrl default (.ofList [(Setting.source, " a"), (Setting.destination, "b ")])

theorem network_lone :
    lone.network = .ok ((empty.addEdge single).2.restrict lone.policy) := rfl

/-- From an empty catalog no edge is offered a template, nor without one. -/
theorem candidates_of_nothing {catalog : Option Catalog}
    (hempty : ∀ c ∈ catalog, ∀ uri, c.get? uri = none) (n : Network) (id : EdgeId) :
    EdgeTemplates.wholeCatalog.candidates n catalog id = [] := by
  unfold EdgeTemplates.candidates
  split
  · rcases catalog with _ | c
    · rfl
    · have hkeys : c.keys = [] :=
        List.eq_nil_iff_forall_not_mem.2 fun uri => KeyMap.not_mem_keys_iff.2 (hempty c rfl uri)
      have hentries : c.entries = [] := List.map_eq_nil_iff.1 hkeys
      simp [KeyMap.values, hentries]
  · rfl

/-- Where there is nothing to choose from, jobs carry the settings of the flow alone. -/
theorem step_of_nothing (htemplates : p.edgeTemplates = .wholeCatalog)
    (hempty : ∀ c ∈ p.catalog, ∀ uri, c.get? uri = none) (n : Network) (flow : Flow) (e : Edge) :
    p.step n flow e = .ok (.ofEdge (.plain flow e.source e.target) e) := by
  have hnone : Job.choose flow.templates (p.edgeTemplates.candidates n p.catalog e.id) = none := by
    rw [htemplates, candidates_of_nothing hempty]
    unfold Job.choose
    simp
  simp only [step, Job.ofHop, hnone]
  rfl

/-- A plan is a route and a step for each of its edges. -/
theorem plan_of_steps {es : List Edge} {steps : List Step}
    (hends : flow.ends = .ok (source, sink)) (hnetwork : p.network = .ok n)
    (hroute : n.selectRoute source sink (p.path? flow) = .ok es)
    (hsteps : es.mapM (p.step n flow) = .ok steps) :
    (p.plan flow).1 = .ok ⟨flow.uri, steps⟩ := by
  have hplan : p.planOver n flow source sink = .ok ⟨flow.uri, steps⟩ :=
    bind_eq_ok_iff.2 ⟨es, hroute, bind_eq_ok_iff.2 ⟨_, hsteps, rfl⟩⟩
  simp only [plan, hends, hnetwork, hplan]

/-- Where there is nothing to choose from, a route is all that a plan needs. -/
theorem plan_of_nothing {es : List Edge} (htemplates : p.edgeTemplates = .wholeCatalog)
    (hempty : ∀ c ∈ p.catalog, ∀ uri, c.get? uri = none) (hends : flow.ends = .ok (source, sink))
    (hnetwork : p.network = .ok n) (hroute : n.selectRoute source sink (p.path? flow) = .ok es) :
    (p.plan flow).1 =
      .ok ⟨flow.uri, es.map fun e => .ofEdge (.plain flow e.source e.target) e⟩ := by
  refine plan_of_steps hends hnetwork hroute ?_
  rw [funext (step_of_nothing htemplates hempty n flow)]
  exact List.mapM_pure

/-- Without a catalog a route is all that a plan needs. -/
theorem plan_of_selectRoute {es : List Edge} (hcatalog : p.catalog = none)
    (htemplates : p.edgeTemplates = .wholeCatalog) (hends : flow.ends = .ok (source, sink))
    (hnetwork : p.network = .ok n) (hroute : n.selectRoute source sink (p.path? flow) = .ok es) :
    (p.plan flow).1 =
      .ok ⟨flow.uri, es.map fun e => .ofEdge (.plain flow e.source e.target) e⟩ :=
  plan_of_nothing htemplates (hcatalog ▸ nofun) hends hnetwork hroute

/-- Over the one hop there is a route. -/
theorem exists_shortestPath_lone :
    ∃ es, ((empty.addEdge single).2.restrict lone.policy).shortestPath "a" "b" = .ok es := by
  obtain ⟨hwell, -⟩ := of_network network_lone
  have hmem : single ∈ ((empty.addEdge single).2.restrict lone.policy).edges :=
    ((wellFormed_after [.addEdge single]).mem_edges_restrict_of_declared rfl).2
      ⟨mem_edges_after_single.2 rfl, rfl⟩
  have hwalk : ((empty.addEdge single).2.restrict lone.policy).IsWalk "a" [single] "b" :=
    ⟨hmem, rfl, rfl⟩
  have hne : "a" ≠ "b" := by decide
  obtain ⟨hsource, hsink⟩ := hwell.containsNode_of_isWalk hwalk hne
  exact hwell.exists_shortestPath ⟨hne, hsource, hsink, _, hwalk⟩

/-- **A plan is sound**, whatever the planner knows and however its route was chosen. -/
theorem sound_of_plan (p : Planner) (flow : Flow) (plan : Plan)
    (h : (p.plan flow).1 = .ok plan) : plan.Sound p flow := by
  unfold Planner.plan at h
  split at h
  · cases h
  next source sink hends =>
  split at h
  · cases h
  next n hnetwork =>
  obtain ⟨hwell, hedges⟩ := of_network hnetwork
  obtain ⟨es, hroute, hover⟩ := forall₂_over_of_planOver h
  obtain ⟨hwalk, hne⟩ := hwell.isWalk_of_selectRoute hroute
  obtain ⟨hfirst, hlast, hchained⟩ := Step.chained_of_isWalk hover hwalk hne
  obtain ⟨source', hsource, hrest⟩ := bind_eq_ok_iff.1 hends
  obtain ⟨sink', hsink, heq⟩ := bind_eq_ok_iff.1 hrest
  cases heq
  obtain ⟨rawSource, hrawSource, rfl⟩ := trim_of_node hsource
  obtain ⟨rawSink, hrawSink, rfl⟩ := trim_of_node hsink
  -- what is left is said of every edge of the network, and each step goes over one
  have hedge := Step.over_edge_of_isWalk hover hwalk
  constructor
  case ne_nil =>
    intro hnil
    rw [hnil] at hover
    exact hne (List.forall₂_nil_right_iff.1 hover)
  case first => exact ⟨rawSource, hrawSource, hfirst⟩
  case last => exact ⟨rawSink, hrawSink, hlast⟩
  case chained => exact hchained
  case identified =>
    intro s hs
    obtain ⟨e, -, job, rfl⟩ := hedge s hs
    exact ⟨rfl, rfl, rfl⟩
  case offered =>
    intro s hs
    obtain ⟨e, he, job, rfl⟩ := hedge s hs
    obtain ⟨-, o, hfirst, -⟩ := hedges e he
    exact exists_of_firstOffer hfirst
  case allowed =>
    intro hkind s hs
    obtain ⟨e, he, job, rfl⟩ := hedge s hs
    exact not_blocked_of_blocks ((hedges e he).1 hkind)
  case weighed =>
    intro s hs
    obtain ⟨e, he, job, rfl⟩ := hedge s hs
    obtain ⟨-, o, hfirst, hweigh⟩ := hedges e he
    exact weighs_of_weigh hfirst hweigh

/-- Another engine. -/
def ferry : Engine := ⟨{ (default : Url) with scheme := "ferry" }⟩

/-- Offers of four ways across: at ten, by another engine at a half, over `c` with one hop offered
twice and one that says a weight which is none, and over `d`. -/
def waysAcross : List (Engine × Offer) :=
  [(ferry, ⟨"a", "b", .ofList [(Setting.weight, "0.5")]⟩),
    (default, ⟨"a", "b", .ofList [(Setting.weight, "10")]⟩),
    (default, ⟨"a", "c", .ofList [(Setting.weight, " 2 ")]⟩),
    (default, ⟨"a", "c", .ofList [(Setting.weight, "1")]⟩),
    (default, ⟨"c", "b", .ofList [(Setting.weight, "inf")]⟩),
    (default, ⟨"a", "d", ∅⟩), (default, ⟨"d", "b", ∅⟩)]

/-- A planner that is offered the ways across. Its policy blocks the first of them and the last, and
says twice what the second hop over `c` weighs. -/
def crossing : Planner where
  registry := .standard
  policy := ⟨.declared, {
    blockedConnections := [⟨"a", "b", ferry⟩]
    blockedNodes := ["d"]
    overrides := [⟨⟨"c", "b", default⟩, .four⟩, ⟨⟨"c", "b", default⟩, .three⟩]
    path? := none }, none⟩
  catalog := none
  edgeTemplates := .wholeCatalog
  topologies := .ofList [
    ("s", ⟨"s", "", ferry, .offered 0 ((waysAcross.take 1).map (·.2))⟩),
    ("t", ⟨"t", "", default, .offered 0 ((waysAcross.drop 1).map (·.2))⟩)]
  queryTimeout := Setting.defaultQueryTimeout
  lastNetwork := none
  pictures := .empty

/-- The way across without a stop. -/
def straight : Edge := ⟨⟨"a", "b", default⟩, .ofList [(Setting.weight, "10")], .ten⟩

/-- The first hop of the way over `c`. -/
def firstHop : Edge := ⟨⟨"a", "c", default⟩, .ofList [(Setting.weight, " 2 ")], .two⟩

/-- The second hop of the way over `c`. -/
def secondHop : Edge := ⟨⟨"c", "b", default⟩, .ofList [(Setting.weight, "inf")], .three⟩

/-- The edges that are offered, as they are weighed. -/
def hopsAcross : List Edge :=
  [⟨⟨"a", "b", ferry⟩, .ofList [(Setting.weight, "0.5")], ⟨0.5, by decide⟩⟩, straight, firstHop,
    secondHop, ⟨⟨"a", "d", default⟩, ∅, .one⟩, ⟨⟨"d", "b", default⟩, ∅, .one⟩]

/-- Of all that is offered the way straight on and the two hops over `c` are left. -/
theorem exists_network_crossing : ∃ n, crossing.network = .ok n ∧ n.WellFormed ∧
    ∀ e, e ∈ n.edges ↔ e = straight ∨ e = firstHop ∨ e = secondHop := by
  let answers := [(ferry, (waysAcross.take 1).map (·.2)), (default, (waysAcross.drop 1).map (·.2))]
  obtain ⟨whole, hwhole⟩ : ∃ whole, assemble crossing.policy answers = .ok whole := ⟨_, rfl⟩
  have hassembled : Assembled crossing.policy waysAcross whole := assembled_assemble hwhole
  have hedges : ∀ e, e ∈ whole.edges ↔ e ∈ hopsAcross := fun e => by
    refine hassembled.mem_edges_iff (by decide) ?_
    simp only [hopsAcross, List.forall_mem_cons]
    exact ⟨⟨_, rfl, rfl⟩, ⟨_, rfl, rfl⟩, ⟨_, rfl, rfl⟩, ⟨_, rfl, rfl⟩, ⟨_, rfl, rfl⟩,
      ⟨_, rfl, rfl⟩, List.forall_mem_nil _⟩
  have hnetwork : crossing.network = .ok (whole.restrict crossing.policy) :=
    bind_eq_ok_iff.2 ⟨answers, rfl, by rw [hwhole]; rfl⟩
  have hblocks : ∀ e ∈ hopsAcross, crossing.policy.declarations.blocks e.id = false ↔
      e = straight ∨ e = firstHop ∨ e = secondHop := by decide
  refine ⟨_, hnetwork, (of_network hnetwork).1, fun e => ?_⟩
  rw [hassembled.wellFormed.mem_edges_restrict_of_declared rfl, hedges]
  constructor
  · rintro ⟨he, hpass⟩
    exact (hblocks e he).1 hpass
  · intro he
    have hmem : e ∈ hopsAcross := by
      rcases he with rfl | rfl | rfl <;> simp [hopsAcross]
    exact ⟨hmem, (hblocks e hmem).2 he⟩

/-- The plan goes over `c`: its first hop weighs what the first offer of it says, and its second what
is declared last. -/
theorem sound_of_plan_crossing : ∃ plan, (crossing.plan loneFlow).1 = .ok plan ∧
    plan.steps.map (fun s => (s.edge, s.weight)) =
      [(⟨"a", "c", default⟩, 2), (⟨"c", "b", default⟩, 3)] ∧
    plan.Sound crossing loneFlow := by
  obtain ⟨n, hnetwork, hwell, hedges⟩ := exists_network_crossing
  have hdetour : n.Detour firstHop secondHop := by
    refine ⟨(hedges _).2 (.inr (.inl rfl)), (hedges _).2 (.inr (.inr rfl)), rfl, by decide,
      fun e he => ?_⟩
    rcases (hedges e).1 he with rfl | rfl | rfl
    · exact .inl ⟨rfl, rfl⟩
    · exact .inr (.inl rfl)
    · exact .inr (.inr rfl)
  have hroute : n.shortestPath "a" "b" = .ok [firstHop, secondHop] := by
    refine hdetour.shortestPath_eq hwell fun e he hsource htarget => ?_
    rcases (hedges e).1 he with rfl | rfl | rfl
    · decide
    · exact absurd htarget (by decide)
    · exact absurd hsource (by decide)
  have hplan : (crossing.plan loneFlow).1 = .ok _ :=
    plan_of_selectRoute rfl rfl rfl hnetwork hroute
  exact ⟨_, hplan, rfl, sound_of_plan crossing loneFlow _ hplan⟩

end Planner

end Waybill
