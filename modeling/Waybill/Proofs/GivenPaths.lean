import Waybill.Proofs.Alike

/-!
# Paths that are asked for

A path is taken if its nodes lead from the source to the sink, one edge after another
(`Passable`), and it is taken over the newest edge of every step (`Takes`). Nothing is taken
of a path of which one step fails: then a route is searched for, and what was wrong with the
path is not told (`givenPath_exact`). A flow that names a path is never led along the path of
the policy instead.
-/

namespace Waybill

/-! ## Settings that are not blank -/

namespace KeyMap

variable {config : Properties} {key value : String}

/-- A setting that is not blank is taken trimmed. -/
theorem nonBlank?_eq_some_iff : config.nonBlank? key = some value ↔
    ∃ raw, config.get? key = some raw ∧ Text.trim raw ≠ "" ∧ Text.trim raw = value := by
  simp only [nonBlank?, Option.filter_eq_some_iff, Option.map_eq_some_iff, decide_eq_true_iff]
  constructor
  · rintro ⟨⟨raw, hraw, rfl⟩, hblank⟩
    exact ⟨raw, hraw, hblank, rfl⟩
  · rintro ⟨raw, hraw, hblank, rfl⟩
    exact ⟨⟨raw, hraw, rfl⟩, hblank⟩

/-- A blank setting is as good as none. -/
theorem nonBlank?_eq_none_iff : config.nonBlank? key = none ↔
    ∀ raw, config.get? key = some raw → Text.trim raw = "" := by
  simp only [Option.eq_none_iff_forall_ne_some, ne_eq, nonBlank?_eq_some_iff]
  constructor
  · intro h raw hraw
    by_contra hblank
    exact h _ ⟨raw, hraw, hblank, rfl⟩
  · rintro h value ⟨raw, hraw, hblank, -⟩
    exact hblank (h raw hraw)

end KeyMap

namespace Network

variable {n : Network} {e : Edge} {es : List Edge} {nodes : List String}
variable {a b path source sink : String}

/-- Some nodes lead from a source to a sink: they are two at least, and an edge joins every
two that follow each other. -/
structure Passable (n : Network) (nodes : List String) (source sink : String) : Prop where
  two_le : 2 ≤ nodes.length
  first : nodes.head? = some source
  last : nodes.getLast? = some sink
  joined : nodes.IsChain fun a b => ∃ e ∈ n.edges, e.source = a ∧ e.target = b

/-- One edge for every two nodes that follow each other, the newest that joins them. -/
def Takes (n : Network) (nodes : List String) (es : List Edge) : Prop :=
  List.Forall₂ (fun step e => e ∈ n.edges ∧ e.source = step.1 ∧ e.target = step.2 ∧
    n.firstBetween? step.1 step.2 = some e) (nodes.zip nodes.tail) es

/-! ## Steps -/

theorem WellFormed.of_firstBetween? (h : n.WellFormed) (hfirst : n.firstBetween? a b = some e) :
    e ∈ n.edges ∧ e.source = a ∧ e.target = b :=
  h.of_stepBetween (stepBetween_eq_ok_iff.2 hfirst)

/-- There is a first one if there is any. -/
theorem WellFormed.exists_firstBetween?_iff (h : n.WellFormed) :
    (∃ e, n.firstBetween? a b = some e) ↔ ∃ e ∈ n.edges, e.source = a ∧ e.target = b := by
  constructor
  · rintro ⟨e, hfirst⟩
    exact ⟨e, h.of_firstBetween? hfirst⟩
  · rintro ⟨e, he, hsource, htarget⟩
    rw [← Option.isSome_iff_exists, h.firstBetween?_eq, List.find?_isSome]
    exact ⟨e, h.mem_outgoing_iff.2 ⟨he, hsource⟩, decide_eq_true htarget⟩

/-- Going along a path takes the first edge of every pair of neighbours. -/
theorem stepsAlong_eq_ok_iff : n.stepsAlong nodes = .ok es ↔
    List.Forall₂ (fun step e => n.firstBetween? step.1 step.2 = some e)
      (nodes.zip nodes.tail) es := by
  induction nodes generalizing es with
  | nil => simp [stepsAlong, eq_comm]
  | cons a nodes ih =>
    cases nodes with
    | nil => simp [stepsAlong, eq_comm]
    | cons b nodes =>
      rw [List.tail_cons, List.zip_cons_cons, List.forall₂_cons_left_iff]
      constructor
      · intro hsteps
        obtain ⟨e, he, hrest⟩ := bind_eq_ok_iff.1 hsteps
        obtain ⟨es', hes', heq⟩ := bind_eq_ok_iff.1 hrest
        cases heq
        exact ⟨e, es', stepBetween_eq_ok_iff.1 he, ih.1 hes', rfl⟩
      · rintro ⟨e, es', he, hes', rfl⟩
        exact bind_eq_ok_iff.2 ⟨e, stepBetween_eq_ok_iff.2 he,
          bind_eq_ok_iff.2 ⟨es', ih.2 hes', rfl⟩⟩

/-- One can go along a path if all neighbours in it are joined. -/
theorem WellFormed.exists_stepsAlong_iff (h : n.WellFormed) :
    (∃ es, n.stepsAlong nodes = .ok es) ↔
      nodes.IsChain fun a b => ∃ e ∈ n.edges, e.source = a ∧ e.target = b := by
  simp only [stepsAlong_eq_ok_iff]
  induction nodes with
  | nil => simp
  | cons a nodes ih =>
    cases nodes with
    | nil => simp
    | cons b nodes =>
      simp only [List.tail_cons, List.zip_cons_cons, List.forall₂_cons_left_iff] at ih ⊢
      rw [List.isChain_cons_cons, ← ih, ← h.exists_firstBetween?_iff]
      constructor
      · rintro ⟨-, e, es, he, hes, rfl⟩
        exact ⟨⟨e, he⟩, es, hes⟩
      · rintro ⟨⟨e, he⟩, es, hes⟩
        exact ⟨_, e, es, he, hes, rfl⟩

/-! ## Whole paths -/

/-- **A path is accepted** if it has two nodes at least, starts and ends where the flow
does, and can be gone along. -/
theorem verifyPath_eq_ok_iff : n.verifyPath path source sink = .ok es ↔
    2 ≤ (CommaList.items path).length ∧ (CommaList.items path).head? = some source ∧
      (CommaList.items path).getLast? = some sink ∧
      n.stepsAlong (CommaList.items path) = .ok es := by
  unfold verifyPath follow
  generalize CommaList.items path = nodes
  split
  · next hfollow =>
    split at hfollow
    · cases hfollow
    split at hfollow
    · cases hfollow
    next hlen hends =>
    simp only [ne_eq, not_or, not_not] at hends
    simp [Nat.not_lt.1 hlen, hends, hfollow]
  · next hfollow =>
    simp only [reduceCtorEq, false_iff]
    rintro ⟨hlen, hfirst, hlast, hsteps⟩
    simp [Nat.not_lt.2 hlen, hfirst, hlast, hsteps] at hfollow

/-- A path that cannot be taken is refused as such. -/
theorem verifyPath_cases (n : Network) (path source sink : String) :
    (∃ es, n.verifyPath path source sink = .ok es) ∨
      ∃ fault, n.verifyPath path source sink = .error (.invalidPath path fault) := by
  unfold verifyPath
  split
  · exact .inl ⟨_, rfl⟩
  · exact .inr ⟨_, rfl⟩

/-- **A path is taken just if its nodes can be passed.** -/
theorem WellFormed.exists_verifyPath_iff (h : n.WellFormed) :
    (∃ es, n.verifyPath path source sink = .ok es) ↔
      n.Passable (CommaList.items path) source sink := by
  simp only [verifyPath_eq_ok_iff, exists_and_left, h.exists_stepsAlong_iff]
  exact ⟨fun ⟨hlen, hfirst, hlast, hjoined⟩ => ⟨hlen, hfirst, hlast, hjoined⟩,
    fun ⟨hlen, hfirst, hlast, hjoined⟩ => ⟨hlen, hfirst, hlast, hjoined⟩⟩

/-- **A path that is taken is taken step by step**, over the newest edges. -/
theorem WellFormed.takes_of_verifyPath (h : n.WellFormed)
    (hpath : n.verifyPath path source sink = .ok es) : n.Takes (CommaList.items path) es := by
  obtain ⟨-, -, -, hsteps⟩ := verifyPath_eq_ok_iff.1 hpath
  refine (stepsAlong_eq_ok_iff.1 hsteps).imp fun step e hfirst => ?_
  obtain ⟨hmem, hsource, htarget⟩ := h.of_firstBetween? hfirst
  exact ⟨hmem, hsource, htarget, hfirst⟩

/-! ## Choosing -/

/-- A path that is accepted is taken. -/
theorem selectRoute_of_ok (hpath : n.verifyPath path source sink = .ok es) :
    n.selectRoute source sink (some path) = .ok es := by
  simp [selectRoute, hpath]

theorem selectRoute_of_error {error : PlanError}
    (hpath : n.verifyPath path source sink = .error error) :
    n.selectRoute source sink (some path) = n.shortestPath source sink := by
  simp [selectRoute, hpath]

/-- A search fails in one way only. -/
theorem noPath_of_shortestPath {error : PlanError} (h : n.shortestPath source sink = .error error) :
    error = .noPath source sink := by
  unfold shortestPath at h
  dsimp only at h
  split at h <;> cases h
  rfl

/-- Where a route can be searched for, one is chosen, whatever is asked for. -/
theorem WellFormed.exists_selectRoute (h : n.WellFormed) (hroutable : n.Routable source sink)
    (asked : Option String) : ∃ es, n.selectRoute source sink asked = .ok es := by
  unfold selectRoute
  split
  · exact ⟨_, rfl⟩
  · exact h.exists_shortestPath hroutable

/-- **Whatever is asked for, only the route can be missing.** -/
theorem noPath_of_selectRoute {asked : Option String} {error : PlanError}
    (h : n.selectRoute source sink asked = .error error) : error = .noPath source sink := by
  unfold selectRoute at h
  split at h
  · cases h
  · exact noPath_of_shortestPath h

end Network

/-! ## Whose path is asked for -/

namespace Planner

variable {p : Planner} {flow : Flow}

/-- The planner, if its policy asked for another path. -/
def askingFor (p : Planner) (path : Option String) : Planner :=
  { p with policy := { p.policy with path? := path } }

/-- What a policy asks for makes no difference to the network. -/
theorem network_askingFor (p : Planner) (path : Option String) :
    (p.askingFor path).network = p.network := rfl

/-- The path of a flow that names one is asked for, whatever the policy asks for. -/
theorem path?_of_flow {raw : String} (hraw : flow.config.get? Setting.flowPath = some raw)
    (hblank : Text.trim raw ≠ "") (p : Planner) : p.path? flow = some (Text.trim raw) := by
  have hown : flow.path? = some (Text.trim raw) :=
    KeyMap.nonBlank?_eq_some_iff.2 ⟨raw, hraw, hblank, rfl⟩
  rw [path?, hown, Option.some_or]

/-- The path of a policy is asked for if the flow names none. -/
theorem path?_of_policy
    (hblank : ∀ raw, flow.config.get? Setting.flowPath = some raw → Text.trim raw = "")
    (p : Planner) : p.path? flow = p.policy.path? := by
  have hown : flow.path? = none := KeyMap.nonBlank?_eq_none_iff.2 hblank
  rw [path?, hown, Option.none_or]

/-- **A flow that names a path is planned the same, whatever the policy asks for.** -/
theorem fst_plan_askingFor {raw : String} (hraw : flow.config.get? Setting.flowPath = some raw)
    (hblank : Text.trim raw ≠ "") (p : Planner) (path : Option String) :
    ((p.askingFor path).plan flow).1 = (p.plan flow).1 := by
  have hover : ∀ (n : Network) (source sink : String),
      (p.askingFor path).planOver n flow source sink = p.planOver n flow source sink := by
    intro n source sink
    unfold planOver
    rw [path?_of_flow hraw hblank, path?_of_flow hraw hblank]
    rfl
  rw [fst_plan, fst_plan, network_askingFor]
  simp only [hover]

end Planner

namespace Network

/-- **Paths that are asked for are taken or passed over as a whole**, in every network that is
reached. A path is taken just if its nodes can be passed, and then over the newest edge of
every step; else a route is searched for, as if no path were asked for, and the path is not
complained of. A flow that names a path is planned the same, whatever path the policy asks
for, also if its own is not taken. -/
theorem givenPath_exact (ops : List Operation) (path source sink : String) :
    ((∃ es, (after ops).verifyPath path source sink = .ok es) ↔
      (after ops).Passable (CommaList.items path) source sink) ∧
    (∀ es, (after ops).verifyPath path source sink = .ok es →
      (after ops).Takes (CommaList.items path) es ∧
      (after ops).selectRoute source sink (some path) = .ok es) ∧
    (¬ (after ops).Passable (CommaList.items path) source sink →
      (∃ fault, (after ops).verifyPath path source sink = .error (.invalidPath path fault)) ∧
      (after ops).selectRoute source sink (some path) = (after ops).shortestPath source sink) ∧
    (after ops).selectRoute source sink none = (after ops).shortestPath source sink ∧
    (∀ asked told fault,
      (after ops).selectRoute source sink asked ≠ .error (.invalidPath told fault)) ∧
    ∀ (p : Planner) (flow : Flow),
      (∀ raw, flow.config.get? Setting.flowPath = some raw → Text.trim raw ≠ "" →
        p.path? flow = some (Text.trim raw) ∧
        ∀ asked, ((p.askingFor asked).plan flow).1 = (p.plan flow).1) ∧
      ((∀ raw, flow.config.get? Setting.flowPath = some raw → Text.trim raw = "") →
        p.path? flow = p.policy.path?) := by
  have h := wellFormed_after ops
  refine ⟨h.exists_verifyPath_iff, fun es hes => ⟨h.takes_of_verifyPath hes, selectRoute_of_ok hes⟩,
    fun hnot => ?_, rfl, fun asked told fault hroute => ?_,
    fun p flow => ⟨fun raw hraw hblank => ?_, fun hblank => Planner.path?_of_policy hblank p⟩⟩
  · rcases (after ops).verifyPath_cases path source sink with hes | ⟨fault, hfault⟩
    · exact absurd (h.exists_verifyPath_iff.1 hes) hnot
    · exact ⟨⟨fault, hfault⟩, selectRoute_of_error hfault⟩
  · cases noPath_of_selectRoute hroute
  · exact ⟨Planner.path?_of_flow hraw hblank p, Planner.fst_plan_askingFor hraw hblank p⟩

/-- One edge can be passed, however the path is spaced, and not in the other direction. -/
theorem passable_after_single :
    (after [.addEdge single]).Passable (CommaList.items " a,, b ") "a" "b" ∧
    ¬ (after [.addEdge single]).Passable (CommaList.items "b,a") "b" "a" := by
  have hforth : CommaList.items " a,, b " = ["a", "b"] := by decide
  have hback : CommaList.items "b,a" = ["b", "a"] := by decide
  rw [hforth, hback]
  refine ⟨⟨Nat.le_refl 2, rfl, rfl, ?_⟩, fun ⟨_, _, _, hjoined⟩ => ?_⟩
  · exact .cons_cons ⟨single, mem_edges_after_single.2 rfl, rfl, rfl⟩ (.singleton _)
  · obtain ⟨e, he, hsource, -⟩ := (List.isChain_cons_cons.1 hjoined).1
    rw [mem_edges_after_single.1 he] at hsource
    exact absurd hsource (by decide)

/-- A flow that asks for a path back is planned the same, whatever the policy asks for. -/
theorem givenPath_exact_single :
    (∃ es, (after [.addEdge single]).verifyPath " a,, b " "a" "b" = .ok es ∧
      (after [.addEdge single]).Takes (CommaList.items " a,, b ") es ∧
      (after [.addEdge single]).selectRoute "a" "b" (some " a,, b ") = .ok es) ∧
    (∃ fault, (after [.addEdge single]).verifyPath "b,a" "b" "a" =
      .error (.invalidPath "b,a" fault)) ∧
    (after [.addEdge single]).selectRoute "b" "a" (some "b,a") =
      (after [.addEdge single]).shortestPath "b" "a" ∧
    ∀ asked, ((Planner.lone.askingFor asked).plan (Planner.loneFlow.withPath "b,a")).1 =
      (Planner.lone.plan (Planner.loneFlow.withPath "b,a")).1 := by
  obtain ⟨hforth, htaken, -⟩ := givenPath_exact [.addEdge single] " a,, b " "a" "b"
  obtain ⟨-, -, hback, -, -, hplan⟩ := givenPath_exact [.addEdge single] "b,a" "b" "a"
  obtain ⟨es, hes⟩ := hforth.2 passable_after_single.1
  obtain ⟨hfault, hroute⟩ := hback passable_after_single.2
  have hraw : (Planner.loneFlow.withPath "b,a").config.get? Setting.flowPath = some "b,a" := by
    decide
  exact ⟨⟨es, hes, htaken es hes⟩, hfault, hroute,
    ((hplan Planner.lone (Planner.loneFlow.withPath "b,a")).1 "b,a" hraw (by decide)).2⟩

end Network

end Waybill
