import Mathlib.Data.List.Forall2
import Waybill.Proofs.Contents
import Waybill.Proofs.Results
import Waybill.Proofs.Weighing

/-!
# What a network is assembled from

Every edge of an assembled network is the first offer of its identity, weighed by the
policy (`assembled_assemble`). That is read off while offers are added one after
another: what is in the network was offered, and of what was offered nothing is
missing (`Assembled`).
-/

namespace Waybill

/-! ## Offers -/

/-- What an engine offers, if it does. -/
def Answer.offers : Answer → List Offer
  | offered _ offers => offers
  | unavailable .. => []
  | failed .. => []
  | never => []

namespace Topology

/-- An engine that answers in time gives its offers. -/
theorem ask_eq_ok {limit : Nat} {t : Topology} {answer : Engine × List Offer}
    (h : t.ask limit = .ok answer) : answer = (t.engine, t.answer.offers) := by
  unfold ask at h
  split at h
  · next offers hwithin =>
    cases h
    unfold Answer.within at hwithin
    split at hwithin
    · next heq =>
      split at hwithin
      · cases hwithin
        rw [heq, Answer.offers]
      · cases hwithin
    all_goals cases hwithin
  · cases h

/-- If all answer in time, they may as well be asked one after the other. -/
theorem mapM_ask_of_askAll {limit : Nat} {ts : List Topology}
    {answers : List (Engine × List Offer)} (h : askAll limit ts = .ok answers) :
    ts.mapM (ask limit) = .ok answers := by
  unfold askAll at h
  dsimp only at h
  split at h
  · obtain ⟨-, -, h⟩ := bind_eq_ok_iff.1 h
    exact h
  · exact h

/-- If all engines answer, every engine is there with what it offers. -/
theorem askAll_eq_ok {limit : Nat} {ts : List Topology} {answers : List (Engine × List Offer)}
    (h : askAll limit ts = .ok answers) :
    answers = ts.map fun t => (t.engine, t.answer.offers) := by
  have hall := forall₂_of_mapM_eq_ok (mapM_ask_of_askAll h)
  clear h
  induction hall with
  | nil => rfl
  | cons hask _ ih => rw [List.map_cons, ask_eq_ok hask, ih]

end Topology

/-! ## First offers -/

/-- Of some offers, the first of an identity. -/
def FirstOffer (offers : List (Engine × Offer)) (id : EdgeId) (o : Offer) : Prop :=
  ∃ before after, offers = before ++ (id.engine, o) :: after ∧ o.edgeId id.engine = id ∧
    ∀ x ∈ before, x.2.edgeId x.1 ≠ id

/-- The first offer of an edge is the one that is found from the front. -/
theorem firstOffer_iff {offers : List (Engine × Offer)} {id : EdgeId} {o : Offer} :
    FirstOffer offers id o ↔
      offers.find? (fun x => x.2.edgeId x.1 = id) = some (id.engine, o) := by
  simp only [List.find?_eq_some_iff_append, decide_eq_true_iff, FirstOffer, Bool.not_eq_true',
    decide_eq_false_iff_not]
  constructor
  · rintro ⟨before, after, heq, hid, hbefore⟩
    exact ⟨hid, before, after, heq, hbefore⟩
  · rintro ⟨hid, before, after, heq, hbefore⟩
    exact ⟨before, after, heq, hid, hbefore⟩

theorem FirstOffer.mem {offers : List (Engine × Offer)} {id : EdgeId} {o : Offer}
    (h : FirstOffer offers id o) : (id.engine, o) ∈ offers := by
  obtain ⟨before, after, rfl, -, -⟩ := h
  simp

theorem FirstOffer.append {offers : List (Engine × Offer)} {id : EdgeId} {o : Offer}
    (h : FirstOffer offers id o) (more : List (Engine × Offer)) :
    FirstOffer (offers ++ more) id o := by
  obtain ⟨before, after, rfl, hid, hbefore⟩ := h
  exact ⟨before, after ++ more, by simp, hid, hbefore⟩

/-- An offer of an identity that nothing before it has is the first. -/
theorem firstOffer_concat {offers : List (Engine × Offer)} {engine : Engine} {o : Offer}
    (hnew : ∀ x ∈ offers, x.2.edgeId x.1 ≠ o.edgeId engine) :
    FirstOffer (offers ++ [(engine, o)]) (o.edgeId engine) o :=
  ⟨offers, [], rfl, rfl, hnew⟩

namespace Network

/-- A network in which some offers are assembled: every edge is the first offer of its
identity as the policy weighs it, and every offer has an edge. -/
structure Assembled (p : Policy) (offers : List (Engine × Offer)) (n : Network) : Prop where
  wellFormed : n.WellFormed
  first : ∀ e ∈ n.edges, ∃ o, FirstOffer offers e.id o ∧ p.weigh e.id o.properties = .ok e
  contains : ∀ x ∈ offers, n.containsEdge (x.2.edgeId x.1) = true

variable {p : Policy} {offers : List (Engine × Offer)} {n n' : Network}

theorem assembled_empty : Assembled p [] empty :=
  ⟨wellFormed_empty, fun _ he => absurd he List.not_mem_nil, nofun⟩

/-- **One more offer is assembled**: as an edge, if it is the first of its identity. -/
theorem Assembled.addOffer (h : Assembled p offers n) {engine : Engine} {o : Offer}
    (hadd : n.addOffer p engine o = .ok n') : Assembled p (offers ++ [(engine, o)]) n' := by
  obtain ⟨e, he, heq⟩ := bind_eq_ok_iff.1 hadd
  cases heq
  have hid := (Policy.of_weigh he).1
  refine ⟨h.wellFormed.addEdge e, fun x hx => ?_, fun x hx => ?_⟩
  · rcases (WellFormed.mem_edges_addEdge e).1 hx with hx | ⟨rfl, hnew⟩
    · obtain ⟨o', hfirst, hweigh⟩ := h.first x hx
      exact ⟨o', hfirst.append _, hweigh⟩
    · refine ⟨o, ?_, hid ▸ he⟩
      rw [hid]
      -- an earlier offer of the identity would have its edge already
      refine firstOffer_concat fun y hy hsame => ?_
      have := h.contains y hy
      rw [hsame, ← hid, hnew] at this
      cases this
  · rw [(h.wellFormed.addEdge e).containsEdge_iff]
    rcases List.mem_append.1 hx with hx | hx
    · obtain ⟨y, hy, hyid⟩ := h.wellFormed.containsEdge_iff.1 (h.contains x hx)
      exact ⟨y, (WellFormed.mem_edges_addEdge e).2 (.inl hy), hyid⟩
    · obtain rfl := List.mem_singleton.1 hx
      rcases hnew : n.containsEdge e.id with _ | _
      · exact ⟨e, (WellFormed.mem_edges_addEdge e).2 (.inr ⟨rfl, hnew⟩), hid⟩
      · obtain ⟨y, hy, hyid⟩ := h.wellFormed.containsEdge_iff.1 hnew
        exact ⟨y, (WellFormed.mem_edges_addEdge e).2 (.inl hy), hyid.trans hid⟩

/-- An edge of an assembled network is what comes of weighing the first offer of its identity. -/
theorem Assembled.eq_of_first (h : Assembled p offers n) {e e' : Edge} {o : Offer} (he : e ∈ n.edges)
    (hid : e.id = e'.id)
    (hfirst : offers.find? (fun x => x.2.edgeId x.1 = e'.id) = some (e'.id.engine, o))
    (hweigh : p.weigh e'.id o.properties = .ok e') : e = e' := by
  obtain ⟨o', hfirst', hweigh'⟩ := h.first e he
  rw [hid, firstOffer_iff, hfirst] at hfirst'
  cases hfirst'
  rw [hid, hweigh] at hweigh'
  exact (Except.ok.inj hweigh').symm

/-- **First offers that are weighed are edges**, and all edges if there is one for every offer. -/
theorem Assembled.mem_edges_iff (h : Assembled p offers n) {es : List Edge}
    (hids : ∀ x ∈ offers, x.2.edgeId x.1 ∈ es.map (·.id))
    (hes : ∀ e ∈ es, ∃ o, offers.find? (fun x => x.2.edgeId x.1 = e.id) = some (e.id.engine, o) ∧
      p.weigh e.id o.properties = .ok e) {e : Edge} : e ∈ n.edges ↔ e ∈ es := by
  constructor
  · intro he
    obtain ⟨o, ⟨before, after, hoffers, hid, -⟩, -⟩ := h.first e he
    have hoffered := hids (e.id.engine, o) (by simp [hoffers])
    rw [hid] at hoffered
    obtain ⟨e', he', hid'⟩ := List.mem_map.1 hoffered
    obtain ⟨o', hfirst, hweigh⟩ := hes e' he'
    exact h.eq_of_first he hid'.symm hfirst hweigh ▸ he'
  · intro he
    obtain ⟨o, hfirst, hweigh⟩ := hes e he
    have hcontains := h.contains _ (firstOffer_iff.2 hfirst).mem
    obtain ⟨-, -, -, hid, -⟩ := firstOffer_iff.2 hfirst
    rw [hid, h.wellFormed.containsEdge_iff] at hcontains
    obtain ⟨e', he', hid'⟩ := hcontains
    exact h.eq_of_first he' hid' hfirst hweigh ▸ he'

/-- What holds of the offers made so far and of the network of them, and is kept by one
more, holds in the end. -/
theorem addOffers_induction {P : List (Engine × Offer) → Network → Prop}
    (hstep : ∀ offers n n' engine o, P offers n → n.addOffer p engine o = .ok n' →
      P (offers ++ [(engine, o)]) n')
    (h : P offers n) {more : List (Engine × Offer)} (hadd : n.addOffers p more = .ok n') :
    P (offers ++ more) n' := by
  induction more generalizing offers n with
  | nil =>
    cases hadd
    rwa [List.append_nil]
  | cons x more ih =>
    obtain ⟨m, hm, hrest⟩ := bind_eq_ok_iff.1 hadd
    have := ih (hstep offers n m x.1 x.2 h hm) hrest
    rwa [List.append_assoc] at this

/-- **An assembled network holds the first offer of every identity.** -/
theorem assembled_assemble {answers : List (Engine × List Offer)}
    (h : assemble p answers = .ok n) :
    Assembled p (answers.flatMap fun a => a.2.map (a.1, ·)) n :=
  addOffers_induction (fun _ _ _ _ _ h => h.addOffer) assembled_empty h

end Network

end Waybill
