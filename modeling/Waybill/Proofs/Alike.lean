import Waybill.Proofs.Renaming
import Waybill.Proofs.Soundness

/-!
# Networks that are alike

Networks are alike if the same edges leave every node, in the same order (`Alike`).
Their nodes may be in other slots, and one of them may have nodes without edges that
the other lacks. That makes no difference to a route: the searches of the two are one
search under other names (`WellFormed.search_map_nodeAt`), and a node without edges
can no more be reached or left than one that is not there.
-/

namespace Waybill

namespace Network

open Route

variable {n n' : Network} {e : Edge} {es walk : List Edge} {node a b : String} {i j slot : Nat}

/-! ## The edges that leave a node -/

theorem WellFormed.mem_outgoing_iff (h : n.WellFormed) :
    e ∈ n.outgoing node ↔ e ∈ n.edges ∧ e.source = node := by
  unfold outgoing
  split
  · next hnone =>
    simp only [List.not_mem_nil, false_iff, not_and]
    rintro he rfl
    have hsource := (h.containsNode_of_mem_edges he).1
    rw [containsNode, hnone] at hsource
    cases hsource
  · next slot hslot =>
    rw [List.mem_map, mem_edges_iff]
    constructor
    · rintro ⟨l, hl, rfl⟩
      obtain ⟨k, hk, rfl⟩ := h.mem_linksFrom_iff.1 hl
      exact ⟨⟨k, l, hk, rfl⟩, h.slotOf?_inj (h.slotOf?_of_link hk).1 hslot⟩
    · rintro ⟨⟨k, l, hk, rfl⟩, rfl⟩
      refine ⟨l, h.mem_linksFrom_iff.2 ⟨k, hk, ?_⟩, rfl⟩
      rw [(h.slotOf?_of_link hk).1] at hslot
      exact Option.some.inj hslot

/-- The edges of a step, told by the node that they leave. -/
theorem WellFormed.linksBetween_map_edge (h : n.WellFormed) (ha : n.slotOf? a = some i)
    (hb : n.slotOf? b = some j) :
    (n.linksBetween i j).map (·.edge) = (n.outgoing a).filter (·.target = b) := by
  simp only [outgoing, ha, linksBetween, List.filter_map]
  refine congrArg _ (List.filter_congr fun l hl => ?_)
  obtain ⟨k, hk, -⟩ := h.mem_linksFrom_iff.1 hl
  have hhead := (h.slotOf?_of_link hk).2
  rw [Function.comp_apply, decide_eq_decide]
  constructor
  · rintro rfl
    exact h.slotOf?_inj hhead hb
  · rintro rfl
    rw [hhead] at hb
    exact Option.some.inj hb

/-- The newest edge of a step, told by the node that it leaves. -/
theorem WellFormed.firstBetween?_eq (h : n.WellFormed) (a b : String) :
    n.firstBetween? a b = (n.outgoing a).find? (·.target = b) := by
  unfold firstBetween?
  rcases ha : n.slotOf? a with _ | i
  · simp [outgoing, ha]
  rcases hb : n.slotOf? b with _ | j
  · -- no edge leads to a node that is not there
    refine (List.find?_eq_none.2 fun e he htarget => ?_).symm
    have hcontains := (h.containsNode_of_mem_edges (h.mem_outgoing_iff.1 he).1).2
    rw [of_decide_eq_true htarget, containsNode, hb] at hcontains
    cases hcontains
  · rw [← List.head?_filter, ← h.linksBetween_map_edge ha hb, List.head?_map, linksBetween,
      List.head?_filter]
    rfl

/-- A step goes over the first edge between its nodes. -/
theorem stepBetween_eq_ok_iff : n.stepBetween a b = .ok e ↔ n.firstBetween? a b = some e := by
  constructor
  · intro hstep
    unfold stepBetween at hstep
    split at hstep
    · cases hstep
    split at hstep
    · cases hstep
    split at hstep
    · cases hstep
    next hfirst =>
    cases hstep
    exact hfirst
  · intro hfirst
    -- an edge between two nodes is found by looking both up
    obtain ⟨i, hi, hrest⟩ := Option.bind_eq_some_iff.1 hfirst
    obtain ⟨j, hj, -⟩ := Option.bind_eq_some_iff.1 hrest
    simp [stepBetween, containsNode, hi, hj, hfirst]

/-- The lightest edge between two slots is the lightest between the nodes in them, where
the first of equals counts. -/
theorem WellFormed.lightestBetween?_eq (h : n.WellFormed) (ha : n.slotOf? a = some i)
    (hb : n.slotOf? b = some j) :
    n.lightestBetween? i j = lightest? ((n.outgoing a).filter (·.target = b)) := by
  rw [lightestBetween?, h.linksBetween_map_edge ha hb]

/-! ## The search by names -/

/-- The node in a slot. -/
def nodeAt (n : Network) (slot : Nat) : String :=
  ((n.vertices.get? slot).map (·.node)).getD ""

/-- The slots that hold a node. -/
def liveSlots (n : Network) : Set Nat := {slot | ∃ node, n.slotOf? node = some slot}

/-- The hops that leave a node, by the names of the nodes. -/
def hopsByName (n : Network) (node : String) : List (String × Cost) :=
  (n.outgoing node).map fun e => (e.target, cost e)

theorem WellFormed.nodeAt_of_slotOf? (h : n.WellFormed) (hslot : n.slotOf? node = some slot) :
    n.nodeAt slot = node := by
  obtain ⟨v, hv, rfl⟩ := h.get?_of_slotOf? hslot
  simp [nodeAt, hv]

/-- No node is in two slots. -/
theorem WellFormed.injOn_nodeAt (h : n.WellFormed) : n.liveSlots.InjOn n.nodeAt := by
  rintro i ⟨a, ha⟩ j ⟨b, hb⟩ heq
  rw [h.nodeAt_of_slotOf? ha, h.nodeAt_of_slotOf? hb] at heq
  subst heq
  rw [ha] at hb
  exact Option.some.inj hb

/-- Hops between slots are hops between the nodes in them, so that a search over slots is
one over names. -/
theorem WellFormed.renamesHops (h : n.WellFormed) :
    Search.RenamesHops n.liveSlots n.nodeAt n.hops n.hopsByName := by
  rintro slot ⟨node, hslot⟩
  have hlinks : ∀ l ∈ n.linksFrom slot, n.slotOf? l.edge.target = some l.head := by
    intro l hl
    obtain ⟨k, hk, -⟩ := h.mem_linksFrom_iff.1 hl
    exact (h.slotOf?_of_link hk).2
  constructor
  · rw [h.nodeAt_of_slotOf? hslot]
    simp only [hopsByName, outgoing, hslot, hops, List.map_map]
    refine List.map_congr_left fun l hl => ?_
    simp [h.nodeAt_of_slotOf? (hlinks l hl)]
  · intro hop hhop
    obtain ⟨l, hl, rfl⟩ := List.mem_map.1 hhop
    exact ⟨l.edge.target, hlinks l hl⟩

/-- **The search goes by the names of the nodes**, whatever their slots. -/
theorem WellFormed.search_map_nodeAt (h : n.WellFormed) (ha : n.slotOf? a = some i)
    (hb : n.slotOf? b = some j) :
    (n.search i j).map n.nodeAt =
      Search.run n.hopsByName b (n.edgeCount + 2) (.start Cost.zero a) := by
  have := Search.run_map h.injOn_nodeAt h.renamesHops ⟨a, ha⟩ ⟨b, hb⟩ Cost.zero (n.edgeCount + 2)
  rw [h.nodeAt_of_slotOf? ha, h.nodeAt_of_slotOf? hb] at this
  exact this.symm

/-- What the search finds are slots of nodes. -/
theorem WellFormed.live_of_leads (h : n.WellFormed) {steps : List (Nat × Cost)}
    (hsteps : Leads n.hops i steps j) (hi : i ∈ n.liveSlots) :
    ∀ slot ∈ i :: steps.map (·.1), slot ∈ n.liveSlots := by
  induction steps generalizing i with
  | nil => simpa using hi
  | cons step steps ih =>
    rw [List.forall_mem_cons]
    exact ⟨hi, ih hsteps.2 ((h.renamesHops i hi).2 step hsteps.1)⟩

/-! ## Likeness -/

/-- Two networks in which the same edges leave every node, in the same order. -/
structure Alike (n n' : Network) : Prop where
  left : n.WellFormed
  right : n'.WellFormed
  outgoing : ∀ node, n.outgoing node = n'.outgoing node

namespace Alike

theorem symm (h : Alike n n') : Alike n' n := ⟨h.right, h.left, fun node => (h.outgoing node).symm⟩

/-- Networks that are alike have the same edges. -/
theorem mem_edges_iff (h : Alike n n') : e ∈ n.edges ↔ e ∈ n'.edges := by
  have hleft : e ∈ n.outgoing e.source ↔ e ∈ n.edges ∧ e.source = e.source :=
    h.left.mem_outgoing_iff
  rw [h.outgoing, h.right.mem_outgoing_iff] at hleft
  simpa using hleft.symm

theorem containsEdge_eq (h : Alike n n') (id : EdgeId) :
    n.containsEdge id = n'.containsEdge id := by
  rw [Bool.eq_iff_iff, h.left.containsEdge_iff, h.right.containsEdge_iff]
  simp only [h.mem_edges_iff]

theorem edgeCount_eq (h : Alike n n') : n.edgeCount = n'.edgeCount := by
  have hleft := h.left.represents
  have hright := h.right.represents
  have hperm : n.edges.Perm n'.edges :=
    (List.perm_ext_iff_of_nodup hleft.nodup_edges.of_map hright.nodup_edges.of_map).2
      fun e => h.mem_edges_iff
  rw [hleft.edgeCount_eq, hright.edgeCount_eq, hperm.length_eq]

theorem isWalk (h : Alike n n') (hwalk : n.IsWalk a walk b) : n'.IsWalk a walk b := by
  induction walk generalizing a with
  | nil => exact hwalk
  | cons e walk ih => exact ⟨h.mem_edges_iff.1 hwalk.1, hwalk.2.1, ih hwalk.2.2⟩

/-! ### Searched routes -/

/-- They have the same hops by name, in the same order. -/
theorem hopsByName_eq (h : Alike n n') : n.hopsByName = n'.hopsByName := by
  funext node
  rw [hopsByName, hopsByName, h.outgoing]

/-- They have the same edges along slots that hold the same nodes. -/
theorem lightestAlong_eq (h : Alike n n') {slots slots' : List Nat}
    (hlive : ∀ slot ∈ slots, slot ∈ n.liveSlots) (hlive' : ∀ slot ∈ slots', slot ∈ n'.liveSlots)
    (hnames : slots.map n.nodeAt = slots'.map n'.nodeAt) :
    n.lightestAlong slots = n'.lightestAlong slots' := by
  induction slots generalizing slots' with
  | nil =>
    obtain rfl := List.map_eq_nil_iff.1 hnames.symm
    rfl
  | cons i slots ih =>
    obtain ⟨i', slots', rfl, hi, hrest⟩ := List.map_eq_cons_iff.1 hnames.symm
    rw [List.forall_mem_cons] at hlive hlive'
    have htail := ih hlive.2 hlive'.2 hrest.symm
    cases slots with
    | nil =>
      obtain rfl := List.map_eq_nil_iff.1 hrest
      rfl
    | cons j slots =>
      obtain ⟨j', slots', rfl, hj, -⟩ := List.map_eq_cons_iff.1 hrest
      rw [List.forall_mem_cons] at hlive hlive'
      obtain ⟨⟨a, ha⟩, ⟨b, hb⟩, -⟩ := hlive
      obtain ⟨⟨a', ha'⟩, ⟨b', hb'⟩, -⟩ := hlive'
      rw [h.left.nodeAt_of_slotOf? ha, h.right.nodeAt_of_slotOf? ha'] at hi
      rw [h.left.nodeAt_of_slotOf? hb, h.right.nodeAt_of_slotOf? hb'] at hj
      subst hi hj
      simp only [lightestAlong, h.left.lightestBetween?_eq ha hb,
        h.right.lightestBetween?_eq ha' hb', h.outgoing, htail]

/-- **A searched route is the same**: if a walk leads from the source to the sink, both
searches know both ends, and find the same nodes. -/
theorem shortestPath_eq (h : Alike n n') (source sink : String) :
    n.shortestPath source sink = n'.shortestPath source sink := by
  rcases h.left.shortestPath_cases source sink with ⟨es, hes, hne, hwalk, -⟩ | ⟨herror, hnone⟩
  · obtain ⟨hsource, hsink⟩ := h.left.containsNode_of_isWalk hwalk hne
    obtain ⟨hsource', hsink'⟩ := h.right.containsNode_of_isWalk (h.isWalk hwalk) hne
    obtain ⟨i, hi⟩ := Option.isSome_iff_exists.1 hsource
    obtain ⟨j, hj⟩ := Option.isSome_iff_exists.1 hsink
    obtain ⟨i', hi'⟩ := Option.isSome_iff_exists.1 hsource'
    obtain ⟨j', hj'⟩ := Option.isSome_iff_exists.1 hsink'
    -- slots may differ, so the two searches are compared by the names of the nodes in them
    have hsearch : (n.search i j).map n.nodeAt = (n'.search i' j').map n'.nodeAt := by
      rw [h.left.search_map_nodeAt hi hj, h.right.search_map_nodeAt hi' hj', h.hopsByName_eq,
        h.edgeCount_eq]
    have hanswers := h.left.answers_search i j
    have hanswers' := h.right.answers_search i' j'
    generalize hfound : n.search i j = outcome at hsearch hanswers
    generalize hfound' : n'.search i' j' = outcome' at hsearch hanswers'
    cases hanswers with
    | exhausted hnone =>
      obtain ⟨j₂, steps, hj₂, hsteps, -⟩ := h.left.leads_of_isWalk hwalk hi
      rw [hj] at hj₂
      cases hj₂
      exact absurd hsteps (hnone steps)
    | found hsteps _ =>
      cases hanswers' with
      | exhausted _ => cases hsearch
      | found hsteps' _ =>
        obtain ⟨es₂, hes₂, -⟩ := h.left.lightestAlong_of_leads hsteps hi hj
        have halong := h.lightestAlong_eq (h.left.live_of_leads hsteps ⟨source, hi⟩)
          (h.right.live_of_leads hsteps' ⟨source, hi'⟩) (Outcome.found.inj hsearch)
        rw [shortestPath_of_search hne hi hj hfound hes₂,
          shortestPath_of_search hne hi' hj' hfound' (halong ▸ hes₂)]
  · rcases h.right.shortestPath_cases source sink with ⟨es, hes, hne, hwalk, -⟩ | ⟨herror', -⟩
    · rcases hnone with heq | hnone
      · exact absurd heq hne
      · exact absurd (h.symm.isWalk hwalk) (hnone es)
    · rw [herror, herror']

/-! ### Given paths -/

/-- A step is over the same edge in both. -/
theorem stepBetween_eq_ok (h : Alike n n') (hstep : n.stepBetween a b = .ok e) :
    n'.stepBetween a b = .ok e := by
  rw [stepBetween_eq_ok_iff, h.left.firstBetween?_eq, h.outgoing] at hstep
  rw [stepBetween_eq_ok_iff, h.right.firstBetween?_eq, hstep]

theorem stepsAlong_eq_ok (h : Alike n n') {nodes : List String}
    (hsteps : n.stepsAlong nodes = .ok es) : n'.stepsAlong nodes = .ok es := by
  induction nodes generalizing es with
  | nil => exact hsteps
  | cons a nodes ih =>
    cases nodes with
    | nil => exact hsteps
    | cons b nodes =>
      obtain ⟨e, he, hrest⟩ := bind_eq_ok_iff.1 hsteps
      obtain ⟨es', hes', heq⟩ := bind_eq_ok_iff.1 hrest
      exact bind_eq_ok_iff.2 ⟨e, h.stepBetween_eq_ok he, bind_eq_ok_iff.2 ⟨es', ih hes', heq⟩⟩

/-- A given path that can be taken in one network can be taken in the other, over the
same edges. Where it cannot be taken, the reasons may differ. -/
theorem verifyPath_eq_ok (h : Alike n n') {path source sink : String}
    (hpath : n.verifyPath path source sink = .ok es) : n'.verifyPath path source sink = .ok es := by
  unfold verifyPath follow at hpath ⊢
  split at hpath
  · next hfollow =>
    cases hpath
    split at hfollow
    · cases hfollow
    split at hfollow
    · cases hfollow
    next hlen hends => simp only [if_neg hlen, if_neg hends, h.stepsAlong_eq_ok hfollow]
  · cases hpath

/-- **A route is the same**, however it is chosen. -/
theorem selectRoute_eq (h : Alike n n') (source sink : String) (path : Option String) :
    n.selectRoute source sink path = n'.selectRoute source sink path := by
  rcases path with _ | path
  · exact h.shortestPath_eq source sink
  · simp only [selectRoute, Option.map_some]
    rcases hleft : n.verifyPath path source sink with fault | es
    · rcases hright : n'.verifyPath path source sink with fault' | es'
      · exact h.shortestPath_eq source sink
      · rw [h.symm.verifyPath_eq_ok hright] at hleft
        cases hleft
    · rw [h.verifyPath_eq_ok hleft]

end Alike

end Network

/-! ## Plans over networks that are alike -/

namespace Planner

variable {p q : Planner} {n n' : Network}

/-- **A plan is the same** over networks that are alike, if the flow is to take the same
path and the same templates are at hand. -/
theorem planOver_eq (h : n.Alike n') {flow : Flow} (hpath : p.path? flow = q.path? flow)
    (hcatalog : p.catalog = q.catalog) (htemplates : p.edgeTemplates = q.edgeTemplates)
    (source sink : String) : p.planOver n flow source sink = q.planOver n' flow source sink := by
  have hstep : p.step n flow = q.step n' flow := by
    funext e
    unfold step Job.ofHop EdgeTemplates.candidates
    rw [h.containsEdge_eq, hcatalog, htemplates]
  unfold planOver
  rw [h.selectRoute_eq, hpath, hstep]

/-- The plan of a flow is made for its ends, over the network of the time. -/
theorem fst_plan (p : Planner) (flow : Flow) :
    (p.plan flow).1 =
      flow.ends >>= fun ends => p.network >>= fun n => p.planOver n flow ends.1 ends.2 := by
  unfold plan
  rcases flow.ends with e | ⟨source, sink⟩
  · rfl
  · rcases p.network with e | n <;> rfl

end Planner

end Waybill
