import Waybill.Proofs.Binding
import Waybill.Proofs.GivenPaths
import Waybill.Proofs.PlainPaths
import Waybill.Proofs.Searched

/-!
# Names of jobs

A job is named by its two nodes with a hyphen between them, and the name does not tell where the
one ends and the other begins: `b-a` to `b` is written as `b` to `a-b` is (`Overlaps`). So two
jobs of one plan may have one name (`jobs_collide`), though a plan that is searched for passes no
node twice (`nodup_route`). Where nodes are plain (`plain_hopText`), there is no other way to share
a name (`distinct_jobs`).
-/

namespace Waybill

/-! ## Two nodes and a hyphen -/

/-- Two cuts of a list at the same item are the same cut, or the one lies in what the
other cuts off. -/
theorem append_cons_inj_iff {α : Type} {x : α} {a b c d : List α} :
    a ++ x :: b = c ++ x :: d ↔ a = c ∧ b = d ∨
      (∃ m, c = a ++ x :: m ∧ b = m ++ x :: d) ∨ ∃ m, a = c ++ x :: m ∧ d = m ++ x :: b := by
  constructor
  · intro h
    rcases List.append_eq_append_iff.1 h with ⟨m, rfl, hm⟩ | ⟨m, rfl, hm⟩
    · rcases m with _ | ⟨y, m⟩
      · exact .inl ⟨(List.append_nil a).symm, List.tail_eq_of_cons_eq hm⟩
      · obtain ⟨rfl, htail⟩ := List.cons.inj hm
        exact .inr (.inl ⟨m, rfl, htail⟩)
    · rcases m with _ | ⟨y, m⟩
      · exact .inl ⟨List.append_nil c, (List.tail_eq_of_cons_eq hm).symm⟩
      · obtain ⟨rfl, htail⟩ := List.cons.inj hm
        exact .inr (.inr ⟨m, rfl, htail⟩)
  · rintro (⟨rfl, rfl⟩ | ⟨m, rfl, rfl⟩ | ⟨m, rfl, rfl⟩) <;> simp

namespace Job

variable {source target source' target' : String}

/-- What two nodes are written as when a job is named after them. -/
def hopText (source target : String) : String := source ++ "-" ++ target

/-- The second hop starts with the source of the first and a hyphen, and the first ends with a
hyphen and the target of the second. -/
def Overlaps (source target source' target' : String) : Prop :=
  ∃ middle, source' = source ++ "-" ++ middle ∧ target = middle ++ "-" ++ target'

theorem toList_hopText (source target : String) :
    (hopText source target).toList = source.toList ++ '-' :: target.toList := by
  simp [hopText]

theorem overlaps_iff : Overlaps source target source' target' ↔ ∃ middle,
    source'.toList = source.toList ++ '-' :: middle ∧
      target.toList = middle ++ '-' :: target'.toList := by
  constructor
  · rintro ⟨middle, rfl, rfl⟩
    exact ⟨middle.toList, toList_hopText _ _, toList_hopText _ _⟩
  · rintro ⟨middle, hsource, htarget⟩
    refine ⟨String.ofList middle, String.toList_injective ?_, String.toList_injective ?_⟩
    · simp [hsource]
    · simp [htarget]

/-- **Different hops are written alike just if they overlap.** -/
theorem hopText_eq_iff : hopText source target = hopText source' target' ↔
    source = source' ∧ target = target' ∨
      Overlaps source target source' target' ∨ Overlaps source' target' source target := by
  rw [← String.toList_inj, toList_hopText, toList_hopText, append_cons_inj_iff, String.toList_inj,
    String.toList_inj, overlaps_iff, overlaps_iff]

/-- Then the source of the one is shorter. -/
theorem Overlaps.length_lt (h : Overlaps source target source' target') :
    source.length < source'.length := by
  obtain ⟨middle, rfl, -⟩ := h
  have hhyphen : "-".length = 1 := rfl
  simp only [String.length_append]
  omega

/-- **Nodes are plain that hold no character on account of which a path is rewritten**: the
hyphen between them keeps them from being dots or a drive. -/
theorem plain_hopText (scheme : String) (hsource : source.toList.any Url.isRewritten = false)
    (htarget : target.toList.any Url.isRewritten = false) :
    Url.Plain scheme (hopText source target) := by
  refine Url.plain_of_hyphen ?_ ?_
  · simp [toList_hopText]
  · rw [toList_hopText, List.any_append, List.any_cons, hsource, htarget]
    rfl

/-- Hops overlap only at a hyphen of a source. -/
theorem Overlaps.mem_source (h : Overlaps source target source' target') :
    '-' ∈ source'.toList := by
  obtain ⟨middle, rfl, -⟩ := h
  simp

/-- Hops overlap only at a hyphen of a target. -/
theorem Overlaps.mem_target (h : Overlaps source target source' target') :
    '-' ∈ target.toList := by
  obtain ⟨middle, -, rfl⟩ := h
  simp

end Job

/-! ## Plans that are searched for -/

/-- Along a walk the targets are the sources of what follows, and the sink. -/
theorem Network.sources_of_isWalk {n : Network} {es : List Edge} {source sink : String}
    (hwalk : n.IsWalk source es sink) :
    es.map (·.source) ++ [sink] = source :: es.map (·.target) := by
  induction es generalizing source with
  | nil =>
    obtain rfl : source = sink := hwalk
    rfl
  | cons e es ih =>
    obtain ⟨-, rfl, hrest⟩ := hwalk
    rw [List.map_cons, List.cons_append, ih hrest, List.map_cons]

namespace Planner

variable {p : Planner} {n : Network} {flow : Flow} {plan : Plan} {e : Edge} {s t : Step}
variable {source sink : String}

/-- A route is searched for: no path is asked for, or one that cannot be taken. -/
def Searches (p : Planner) (flow : Flow) : Prop :=
  ∀ path n source sink, p.path? flow = some path → p.network = .ok n →
    flow.ends = .ok (source, sink) → ¬ n.Passable (CommaList.items path) source sink

theorem Searches.selectRoute_eq (h : p.Searches flow) (hnetwork : p.network = .ok n)
    (hends : flow.ends = .ok (source, sink)) :
    n.selectRoute source sink (p.path? flow) = n.shortestPath source sink := by
  obtain ⟨hwell, -⟩ := of_network hnetwork
  rcases hpath : p.path? flow with _ | path
  · rfl
  rcases n.verifyPath_cases path source sink with ⟨es, hes⟩ | ⟨fault, hfault⟩
  · exact absurd (hwell.exists_verifyPath_iff.1 ⟨es, hes⟩) (h path n _ _ hpath hnetwork hends)
  · exact Network.selectRoute_of_error hfault

/-- The job of a step is named after the nodes of its edge. -/
theorem named_of_step (h : p.step n flow e = .ok s) :
    s.source = e.source ∧ s.target = e.target ∧
      s.job.uri = Job.uriFor flow.uri s.source s.target := by
  obtain ⟨job, hjob, heq⟩ := bind_eq_ok_iff.1 h
  cases heq
  exact ⟨rfl, rfl, (Job.of_ofHop_eq_ok hjob).1.uri⟩

/-- **Every job is named after the nodes of its step.** -/
theorem uri_of_plan (h : (p.plan flow).1 = .ok plan) :
    ∀ s ∈ plan.steps, s.job.uri = Job.uriFor flow.uri s.source s.target := by
  rw [fst_plan] at h
  obtain ⟨ends, -, h⟩ := bind_eq_ok_iff.1 h
  obtain ⟨n, -, h⟩ := bind_eq_ok_iff.1 h
  obtain ⟨es, -, hsteps⟩ := forall₂_step_of_planOver h
  have hnamed : List.Forall₂ (fun s e => s.job.uri = Job.uriFor flow.uri s.source s.target ∧
      p.step n flow e = .ok s) plan.steps es :=
    hsteps.flip.imp fun s e hs => ⟨(named_of_step hs).2.2, hs⟩
  exact ((List.forall₂_and_left _ _).1 hnamed).1

/-- **A plan that was searched for passes no node twice.** -/
theorem nodup_route (h : (p.plan flow).1 = .ok plan) (hsearches : p.Searches flow) :
    plan.route.Nodup := by
  rw [fst_plan] at h
  obtain ⟨⟨source, sink⟩, hends, h⟩ := bind_eq_ok_iff.1 h
  obtain ⟨n, hnetwork, h⟩ := bind_eq_ok_iff.1 h
  obtain ⟨hwell, -⟩ := of_network hnetwork
  obtain ⟨es, hroute, hover⟩ := forall₂_over_of_planOver h
  obtain ⟨hwalk, hne⟩ := hwell.isWalk_of_selectRoute hroute
  rw [hsearches.selectRoute_eq hnetwork hends] at hroute
  obtain ⟨-, hlast, -⟩ := Step.chained_of_isWalk hover hwalk hne
  have hsources : plan.steps.map (·.source) = es.map (·.source) := by
    rw [← List.forall₂_eq_eq_eq, List.forall₂_map_left_iff, List.forall₂_map_right_iff]
    refine hover.flip.imp fun s e ⟨job, hs⟩ => ?_
    rw [hs]
    rfl
  rw [Plan.route, hlast, hsources, Option.toList_some, Network.sources_of_isWalk hwalk]
  exact hwell.nodup_of_shortestPath hroute

/-- The steps of a simple route have different sources. -/
theorem nodup_sources (h : plan.route.Nodup) : (plan.steps.map (·.source)).Nodup :=
  h.sublist (List.sublist_append_left _ _)

/-- Two jobs with plain names have one name just if they are one, or their hops overlap. -/
theorem uri_eq_iff {u : Url} (hs : Url.Plain u.scheme (Job.hopText s.source s.target))
    (ht : Url.Plain u.scheme (Job.hopText t.source t.target)) :
    Job.uriFor u s.source s.target = Job.uriFor u t.source t.target ↔
      s.source = t.source ∧ s.target = t.target ∨
        Job.Overlaps s.source s.target t.source t.target ∨
        Job.Overlaps t.source t.target s.source s.target :=
  (Url.Plain.withPath_eq_iff hs ht).trans Job.hopText_eq_iff

/-- **The jobs of a plan that was searched for have different names unless their hops overlap.**
Such a plan passes no node twice, so it repeats no hop. Where the names are plain, two jobs have
one name just if the hops of two steps overlap at a hyphen; so none have if no source holds a
hyphen, or no target. -/
theorem distinct_jobs (p : Planner) (flow : Flow) (plan : Plan)
    (h : (p.plan flow).1 = .ok plan) (hsearches : p.Searches flow) :
    plan.route.Nodup ∧ (plan.steps.map fun s => (s.source, s.target)).Nodup ∧
    ((∀ s ∈ plan.steps, Url.Plain flow.uri.scheme (Job.hopText s.source s.target)) →
      ((plan.steps.map (·.job.uri)).Nodup ↔ ∀ s ∈ plan.steps, ∀ t ∈ plan.steps,
        ¬ Job.Overlaps s.source s.target t.source t.target) ∧
      ((∀ s ∈ plan.steps, '-' ∉ s.source.toList) ∨ (∀ s ∈ plan.steps, '-' ∉ s.target.toList) →
        (plan.steps.map (·.job.uri)).Nodup)) := by
  have hroute := nodup_route h hsearches
  have hsources := nodup_sources hroute
  have huri := uri_of_plan h
  have hhops : (plan.steps.map fun s => (s.source, s.target)).Nodup := by
    refine List.Nodup.of_map Prod.fst ?_
    rw [List.map_map]
    exact hsources
  refine ⟨hroute, hhops, fun hplain => ?_⟩
  have hiff : (plan.steps.map (·.job.uri)).Nodup ↔ ∀ s ∈ plan.steps, ∀ t ∈ plan.steps,
      ¬ Job.Overlaps s.source s.target t.source t.target := by
    constructor
    · intro hnodup s hs t ht hoverlaps
      have hsame : s.job.uri = t.job.uri := by
        rw [huri s hs, huri t ht]
        exact (uri_eq_iff (hplain s hs) (hplain t ht)).2 (.inr (.inl hoverlaps))
      obtain rfl := List.inj_on_of_nodup_map hnodup hs ht hsame
      exact absurd hoverlaps.length_lt (Nat.lt_irrefl _)
    · intro hnone
      refine (hsources.of_map _).map_on fun s hs t ht hsame => ?_
      rw [huri s hs, huri t ht, uri_eq_iff (hplain s hs) (hplain t ht)] at hsame
      -- one hop does not come twice, so two steps of one name overlap
      rcases hsame with ⟨hsource, -⟩ | hoverlaps | hoverlaps
      · exact List.inj_on_of_nodup_map hsources hs ht hsource
      · exact absurd hoverlaps (hnone s hs t ht)
      · exact absurd hoverlaps (hnone t ht s hs)
  refine ⟨hiff, fun hhyphen => hiff.2 fun s hs t ht hoverlaps => ?_⟩
  rcases hhyphen with hsource | htarget
  · exact hsource t ht hoverlaps.mem_source
  · exact htarget s hs hoverlaps.mem_target

/-! ## Two hops in a row -/

section Chained

variable {a b c : String} {es : List Edge}

/-- The engine that offers the hops. -/
def carrier : Engine := ⟨⟨"x", "", "", some "e", none, .rooted [], none, none⟩⟩

/-- The edge of a hop that is offered. -/
def hop (a b : String) : Edge := ⟨⟨a, b, carrier⟩, ∅, .one⟩

/-- A planner that is offered the hops from one node to another and from there to a third. -/
def chained (a b c : String) : Planner :=
  let offers : List Offer := [⟨a, b, ∅⟩, ⟨b, c, ∅⟩]
  { lone with topologies := KeyMap.ofList [("t", ⟨"t", "", carrier, .offered 0 offers⟩)] }

/-- A flow from one node to another. -/
def flowFrom (a c : String) : Flow :=
  .ofUrl ⟨"flow", "", "", some "g", none, .rooted ["f"], none, none⟩
    (.ofList [(Setting.source, a), (Setting.destination, c)])

/-- The network of the two hops. -/
def chain (a b c : String) : Network :=
  (Network.after [.addEdge (hop a b), .addEdge (hop b c)]).restrict (chained a b c).policy

theorem weigh_chained (a b : String) : lone.policy.weigh ⟨a, b, carrier⟩ ∅ = .ok (hop a b) := rfl

theorem addOffer_chained (n : Network) (a b : String) :
    n.addOffer lone.policy carrier ⟨a, b, ∅⟩ = .ok (n.addEdge (hop a b)).2 :=
  bind_eq_ok_iff.2 ⟨hop a b, weigh_chained a b, rfl⟩

/-- Two engines in a chain make a network of two edges. -/
theorem network_chained (a b c : String) : (chained a b c).network = .ok (chain a b c) := by
  have hassemble : Network.assemble (chained a b c).policy [(carrier, [⟨a, b, ∅⟩, ⟨b, c, ∅⟩])] =
      .ok (Network.after [.addEdge (hop a b), .addEdge (hop b c)]) :=
    bind_eq_ok_iff.2 ⟨_, addOffer_chained .empty a b,
      bind_eq_ok_iff.2 ⟨_, addOffer_chained _ b c, rfl⟩⟩
  refine bind_eq_ok_iff.2 ⟨[(carrier, [⟨a, b, ∅⟩, ⟨b, c, ∅⟩])], rfl, ?_⟩
  rw [hassemble]
  rfl

theorem mem_edges_chain_iff (hab : a ≠ b) :
    e ∈ (chain a b c).edges ↔ e = hop a b ∨ e = hop b c := by
  have hnodup : ([hop a b, hop b c].map (·.id)).Nodup := by
    simp [hop, hab]
  have hedges : e ∈ (Network.after ([hop a b, hop b c].map .addEdge)).edges ↔ _ :=
    Network.mem_edges_after_addEdge _ hnodup
  have hblocks : (chained a b c).policy.declarations.blocks e.id = false := rfl
  rw [List.mem_pair] at hedges
  rw [chain, (Network.wellFormed_after _).mem_edges_restrict_of_declared rfl, hblocks,
    and_iff_left rfl]
  exact hedges

/-- The chain is a detour without a shortcut. -/
theorem detour_chain (hab : a ≠ b) (hac : a ≠ c) (hbc : b ≠ c) :
    (chain a b c).Detour (hop a b) (hop b c) where
  mem_first := (mem_edges_chain_iff hab).2 (.inl rfl)
  mem_second := (mem_edges_chain_iff hab).2 (.inr rfl)
  meets := rfl
  nodup := by simp [hop, Edge.source, Edge.target, hab, hac, hbc]
  others _ he := .inr ((mem_edges_chain_iff hab).1 he)

/-- The plan along the hops. -/
def chainedPlan (flow : Flow) (a b c : String) : Plan where
  flow := flow.uri
  steps := [.ofEdge (.plain flow a b) (hop a b), .ofEdge (.plain flow b c) (hop b c)]

/-- And it is planned as the two hops, whatever the flow is called. -/
theorem plan_chained (hab : a ≠ b) (hac : a ≠ c) (hbc : b ≠ c) (hends : flow.ends = .ok (a, c))
    (hpath : flow.path? = none) :
    ((chained a b c).plan flow).1 = .ok (chainedPlan flow a b c) := by
  obtain ⟨hwell, -⟩ := of_network (network_chained a b c)
  -- no hop leads straight on
  have hnone : ∀ e ∈ (chain a b c).edges, e.source = a → e.target ≠ c := by
    intro e he hsource
    rcases (mem_edges_chain_iff hab).1 he with rfl | rfl
    · exact hbc
    · exact absurd hsource.symm hab
  have hsearched : (chain a b c).shortestPath a c = .ok [hop a b, hop b c] :=
    (detour_chain hab hac hbc).shortestPath_eq hwell fun e he hsource htarget =>
      absurd htarget (hnone e he hsource)
  have hroute : (chain a b c).selectRoute a c ((chained a b c).path? flow) =
      .ok [hop a b, hop b c] := by
    rw [path?, hpath]
    exact hsearched
  exact plan_of_selectRoute rfl rfl hends (network_chained a b c) hroute

end Chained

/-- **Two jobs of a plan that was searched for may have one name**: the hop from `b-a` to `b` and
the hop from there to `a-b` are written alike. -/
theorem jobs_collide :
    ((chained "b-a" "b" "a-b").plan (flowFrom "b-a" "a-b")).1 =
      .ok (chainedPlan (flowFrom "b-a" "a-b") "b-a" "b" "a-b") ∧
    (chained "b-a" "b" "a-b").path? (flowFrom "b-a" "a-b") = none ∧
    ¬ ((chainedPlan (flowFrom "b-a" "a-b") "b-a" "b" "a-b").steps.map (·.job.uri)).Nodup := by
  refine ⟨plan_chained (by decide) (by decide) (by decide) rfl rfl, rfl, fun hnodup => ?_⟩
  have hsame : Job.uriFor (flowFrom "b-a" "a-b").uri "b-a" "b" =
      Job.uriFor (flowFrom "b-a" "a-b").uri "b" "a-b" := by decide
  exact (List.nodup_cons.1 hnodup).1 (List.mem_singleton.2 hsame)

/-- A plan has different names for its jobs though all of its nodes hold hyphens. -/
theorem distinct_jobs_chained :
    ((chained "n-1" "n-2" "n-3").plan (flowFrom "n-1" "n-3")).1 =
      .ok (chainedPlan (flowFrom "n-1" "n-3") "n-1" "n-2" "n-3") ∧
    (chained "n-1" "n-2" "n-3").Searches (flowFrom "n-1" "n-3") ∧
    ((chainedPlan (flowFrom "n-1" "n-3") "n-1" "n-2" "n-3").steps.map (·.job.uri)).Nodup := by
  have hplan : ((chained "n-1" "n-2" "n-3").plan (flowFrom "n-1" "n-3")).1 =
      .ok (chainedPlan (flowFrom "n-1" "n-3") "n-1" "n-2" "n-3") :=
    plan_chained (by decide) (by decide) (by decide) rfl rfl
  have hsearches : (chained "n-1" "n-2" "n-3").Searches (flowFrom "n-1" "n-3") :=
    fun _ _ _ _ hpath => nomatch hpath
  obtain ⟨-, -, hdistinct⟩ := distinct_jobs _ _ _ hplan hsearches
  have hplain : ∀ s ∈ (chainedPlan (flowFrom "n-1" "n-3") "n-1" "n-2" "n-3").steps,
      Url.Plain (flowFrom "n-1" "n-3").uri.scheme (Job.hopText s.source s.target) :=
    List.forall_mem_cons.2 ⟨Job.plain_hopText _ (by decide) (by decide),
      List.forall_mem_singleton.2 (Job.plain_hopText _ (by decide) (by decide))⟩
  have hlength : ∀ s ∈ (chainedPlan (flowFrom "n-1" "n-3") "n-1" "n-2" "n-3").steps,
      s.source.length = 3 :=
    List.forall_mem_cons.2 ⟨rfl, List.forall_mem_singleton.2 rfl⟩
  refine ⟨hplan, hsearches, (hdistinct hplain).1.2 fun s hs t ht hoverlaps => ?_⟩
  -- hops overlap only if one source is longer than the other
  have hlt := hoverlaps.length_lt
  rw [hlength s hs, hlength t ht] at hlt
  exact Nat.lt_irrefl 3 hlt

end Planner

end Waybill
