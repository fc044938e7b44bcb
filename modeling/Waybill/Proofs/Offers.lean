import Waybill.Proofs.Addition
import Waybill.Proofs.Assembly

/-!
# Assembling in the order of the offers

Offers are weighed one after another, whether or not they add an edge, so the first
that has no weight is named (`foldlM_eq_error_iff`). Where all have one, nodes and edges
are listed in the order in which they are offered first (`Listed`), each edge with the
properties and the weight of its first offer (`assemble_exact`).
-/

namespace Waybill

/-! ## Folds that may fail -/

section Fold

variable {ε σ α : Type} {f : σ → α → Except ε σ} {Refused : α → ε → Prop}

/-- A fold fails if any element does. -/
theorem exists_foldlM_eq_error_iff (hf : ∀ s a e, f s a = .error e ↔ Refused a e) {l : List α}
    {s : σ} : (∃ e, l.foldlM f s = .error e) ↔ ∃ a ∈ l, ∃ e, Refused a e := by
  induction l generalizing s with
  | nil => simp [pure, Except.pure]
  | cons a l ih =>
    rw [List.foldlM_cons]
    rcases hfirst : f s a with e' | s'
    · exact iff_of_true ⟨e', rfl⟩ ⟨a, List.mem_cons_self, e', (hf s a e').1 hfirst⟩
    · have haccepted : ¬ ∃ e, Refused a e := fun ⟨e, he⟩ => by
        rw [(hf s a e).2 he] at hfirst
        cases hfirst
      rw [List.exists_mem_cons_iff, or_iff_right haccepted]
      exact ih

end Fold

/-! ## One offer after another -/

namespace Network

variable {p : Policy} {offers : List (Engine × Offer)} {n n' : Network}

/-- An offer fails if its weight is refused, with the edge and the value. -/
theorem addOffer_eq_error_iff (p : Policy) (n : Network) (x : Engine × Offer) (r : WeightRefusal) :
    n.addOffer p x.1 x.2 = .error r ↔ ∃ value, p.Refuses x value ∧ r = ⟨x.2.edgeId x.1, value⟩ := by
  rw [← Policy.weigh_eq_error_iff]
  unfold addOffer
  rcases p.weigh (x.2.edgeId x.1) x.2.properties with r' | e
  · constructor <;> rintro ⟨⟩ <;> rfl
  · exact iff_of_false nofun nofun

/-- The nodes that some offers name, in the order in which they do: source before
target. -/
def namedBy (offers : List (Engine × Offer)) : List String :=
  offers.flatMap fun x => [x.2.source, x.2.target]

/-- The edges that are offered, in the order in which they are. -/
def idsOf (offers : List (Engine × Offer)) : List EdgeId :=
  offers.map fun x => x.2.edgeId x.1

/-- A network that lists what is offered in the order in which it is offered first. -/
structure Listed (offers : List (Engine × Offer)) (n : Network) : Prop where
  wellFormed : n.WellFormed
  packed : n.Packed
  newest : n.Newest
  nodes_eq : n.nodes = (namedBy offers).eraseDups
  ids_eq : n.edges.map (·.id) = (idsOf offers).eraseDups

theorem listed_empty : Listed [] empty :=
  ⟨wellFormed_empty, packed_empty, newest_empty, rfl, rfl⟩

/-- The network has the edges that were offered. -/
theorem Listed.containsEdge_iff (h : Listed offers n) {id : EdgeId} :
    n.containsEdge id ↔ id ∈ idsOf offers := by
  rw [h.wellFormed.containsEdge_iff, ← List.mem_map, h.ids_eq, List.mem_eraseDups]

/-- The ends of an edge that was offered were named. -/
theorem mem_namedBy_of_mem_idsOf {id : EdgeId} (h : id ∈ idsOf offers) :
    id.source ∈ namedBy offers ∧ id.target ∈ namedBy offers := by
  obtain ⟨x, hx, rfl⟩ := List.mem_map.1 h
  constructor <;> exact List.mem_flatMap.2 ⟨x, hx, by simp [Offer.edgeId]⟩

/-- **One more offer is listed last**, if it is the first of its identity. -/
theorem Listed.addOffer (h : Listed offers n) {engine : Engine} {o : Offer}
    (hadd : n.addOffer p engine o = .ok n') : Listed (offers ++ [(engine, o)]) n' := by
  obtain ⟨e, he, heq⟩ := bind_eq_ok_iff.1 hadd
  cases heq
  have hid : e.id = o.edgeId engine := (Policy.of_weigh he).1
  have hnames : namedBy (offers ++ [(engine, o)]) =
      namedBy offers ++ [e.source] ++ [e.target] := by
    simp [namedBy, Edge.source, Edge.target, hid, Offer.edgeId]
  have hids : idsOf (offers ++ [(engine, o)]) = idsOf offers ++ [e.id] := by
    simp [idsOf, hid]
  refine ⟨h.wellFormed.addEdge e, h.packed.addEdge e, h.newest.addEdge h.wellFormed h.packed e,
    ?_, ?_⟩
  · rw [hnames]
    rcases hnew : n.containsEdge e.id with _ | _
    · have h1 := nodes_addNode_of_eq_eraseDups h.wellFormed h.packed h.nodes_eq e.source
      rw [addEdge_of_new hnew, nodes_connect]
      exact nodes_addNode_of_eq_eraseDups (h.wellFormed.addNode _) (h.packed.addNode _) h1 e.target
    · obtain ⟨hsource, htarget⟩ := mem_namedBy_of_mem_idsOf (h.containsEdge_iff.1 hnew)
      rw [addEdge_of_contains hnew, h.nodes_eq, eraseDups_concat, eraseDups_concat,
        if_pos (List.mem_append_left _ htarget), if_pos hsource]
  · rw [hids, eraseDups_concat, ← h.ids_eq]
    rcases hnew : n.containsEdge e.id with _ | _
    · have hmem : e.id ∉ idsOf offers := by simp [← h.containsEdge_iff, hnew]
      rw [edges_addEdge_of_new h.packed hnew, if_neg hmem, List.map_append]
      rfl
    · rw [addEdge_of_contains hnew, if_pos (h.containsEdge_iff.1 hnew)]

/-! ## All offers -/

/-- What some engines offer, one engine after another. -/
def offersIn (answers : List (Engine × List Offer)) : List (Engine × Offer) :=
  answers.flatMap fun a => a.2.map (a.1, ·)

variable {answers : List (Engine × List Offer)}

/-- An assembled network lists what was offered, each once and in order. -/
theorem listed_assemble (h : assemble p answers = .ok n) : Listed (offersIn answers) n :=
  addOffers_induction (fun _ _ _ _ _ hlisted => hlisted.addOffer) listed_empty h

/-- Every edge is the first offer of its identity, weighed by the policy. -/
theorem first_of_assemble (h : assemble p answers = .ok n) : ∀ e ∈ n.edges,
    ∃ o, FirstOffer (offersIn answers) e.id o ∧ p.weigh e.id o.properties = .ok e :=
  (assembled_assemble h).first

/-- Just what is offered is in the network, in the order in which it is offered first. -/
structure Exact (p : Policy) (offers : List (Engine × Offer)) (n : Network) : Prop where
  nodes_eq : n.nodes = (namedBy offers).eraseDups
  ids_eq : n.edges.map (·.id) = (idsOf offers).eraseDups
  /-- Every edge is the first offer of it. -/
  first : ∀ e ∈ n.edges, ∃ o, FirstOffer offers e.id o ∧ e.properties = o.properties ∧
    p.WeighsAs e.id o.properties e.weight.value
  /-- Source, target and engine tell an edge, each by itself. -/
  existsUnique : ∀ x ∈ offers, ∃! e, e ∈ n.edges ∧
    e.source = x.2.source ∧ e.target = x.2.target ∧ e.engine = x.1

/-- And has the weights of the first offers. -/
theorem exact_assemble (h : assemble p answers = .ok n) : Exact p (offersIn answers) n := by
  have hlisted := listed_assemble h
  refine ⟨hlisted.nodes_eq, hlisted.ids_eq, fun e he => ?_, fun x hx => ?_⟩
  · obtain ⟨o, hfirst, hweigh⟩ := first_of_assemble h e he
    exact ⟨o, hfirst, (Policy.of_weigh hweigh).2⟩
  · obtain ⟨e, he, hid⟩ := hlisted.wellFormed.containsEdge_iff.1
      (hlisted.containsEdge_iff.2 (List.mem_map_of_mem hx))
    refine ⟨e, ⟨he, ?_, ?_, ?_⟩, fun e' ⟨he', hsource, htarget, hengine⟩ => ?_⟩
    · exact congrArg EdgeId.source hid
    · exact congrArg EdgeId.target hid
    · exact congrArg EdgeId.engine hid
    · refine hlisted.wellFormed.eq_of_id_eq he' he (Eq.trans ?_ hid.symm)
      rw [Offer.edgeId, ← hsource, ← htarget, ← hengine]

/-- Assembling fails if any offer is refused. -/
theorem exists_assemble_eq_error_iff : (∃ r, assemble p answers = .error r) ↔
    ∃ x ∈ offersIn answers, ∃ value, p.Refuses x value := by
  refine (exists_foldlM_eq_error_iff (addOffer_eq_error_iff p)).trans ⟨?_, ?_⟩
  · rintro ⟨x, hx, r, value, hrefused, -⟩
    exact ⟨x, hx, value, hrefused⟩
  · rintro ⟨x, hx, value, hrefused⟩
    exact ⟨x, hx, _, value, hrefused, rfl⟩

/-- Nothing but a weight that is refused stands in the way. -/
theorem exists_assemble_eq_ok (h : ∀ x ∈ offersIn answers, ∀ value, ¬ p.Refuses x value) :
    ∃ n, assemble p answers = .ok n := by
  rcases hn : assemble p answers with r | n
  · obtain ⟨x, hx, value, hvalue⟩ := exists_assemble_eq_error_iff.1 ⟨r, hn⟩
    exact absurd hvalue (h x hx value)
  · exact ⟨n, rfl⟩

end Network

end Waybill
