import Mathlib.Data.List.Induction
import Waybill.Proofs.Exclusion
import Waybill.Proofs.Offers

/-!
# Blocking and not offering

To block an edge and never to be offered it come to the same (`plan_withholding`). The two
networks differ in their slots and in nodes without edges, but list the same edges in the
same order: leaving out offers leaves out their edges and no others
(`edges_eq_filter_of_offers`), and so does the policy (`WellFormed.edges_restrict`).
-/

namespace Waybill

/-! ## Lists told by a key -/

/-- Repetitions are erased before or after what fails a test is. -/
theorem eraseDups_filter {α : Type} [DecidableEq α] (l : List α) (p : α → Bool) :
    (l.filter p).eraseDups = l.eraseDups.filter p := by
  induction l using List.reverseRecOn with
  | nil => rfl
  | append_singleton l a ih =>
    rw [List.filter_append, eraseDups_concat]
    by_cases hp : p a = true
    · rw [List.filter_cons_of_pos hp, List.filter_nil, eraseDups_concat, ih]
      by_cases ha : a ∈ l <;> simp [ha, hp]
    · rw [List.filter_cons_of_neg hp, List.filter_nil, List.append_nil, ih]
      by_cases ha : a ∈ l <;> simp [ha, hp]

/-- Lists are equal if their keys are and a key tells an element. -/
theorem eq_of_map_eq {α κ : Type} (key : α → κ) {l l' : List α} (hkeys : l.map key = l'.map key)
    (htells : ∀ a ∈ l, ∀ b ∈ l', key a = key b → a = b) : l = l' := by
  induction l generalizing l' with
  | nil => exact (List.map_eq_nil_iff.1 hkeys.symm).symm
  | cons a l ih =>
    obtain ⟨b, l', rfl, hb, hrest⟩ := List.map_eq_cons_iff.1 hkeys.symm
    rw [List.forall_mem_cons] at htells
    rw [htells.1 b List.mem_cons_self hb.symm,
      ih hrest.symm fun c hc d hd => htells.2 c hc d (List.mem_cons_of_mem _ hd)]

/-! ## Without what is blocked -/

/-- Declarations block an edge: they name it, or one of its nodes. -/
def Declarations.Blocks (d : Declarations) (id : EdgeId) : Prop :=
  id ∈ d.blockedConnections ∨ id.source ∈ d.blockedNodes ∨ id.target ∈ d.blockedNodes

instance (d : Declarations) (id : EdgeId) : Decidable (d.Blocks id) :=
  inferInstanceAs (Decidable (_ ∨ _))

/-- The declarations without what they block. -/
def Declarations.unblocked (d : Declarations) : Declarations :=
  { d with blockedConnections := [], blockedNodes := [] }

/-- The policy without what it blocks. -/
def Policy.unblocked (p : Policy) : Policy :=
  { p with declarations := p.declarations.unblocked }

/-- The answer without the offers that do not pass. -/
def Answer.keeping (pass : Offer → Bool) : Answer → Answer
  | offered delay offers => offered delay (offers.filter pass)
  | unavailable detail delay => unavailable detail delay
  | failed detail delay => failed detail delay
  | never => never

/-- The topology without the offers of blocked edges. -/
def Topology.withholding (d : Declarations) (t : Topology) : Topology :=
  { t with answer := t.answer.keeping fun o => ¬ d.Blocks (o.edgeId t.engine) }

/-- The map with every value changed. -/
def KeyMap.map {α β : Type} (f : α → β) (m : KeyMap α) : KeyMap β :=
  ⟨m.entries.map fun e => (e.1, f e.2), List.pairwise_map.2 m.ascending⟩

theorem KeyMap.values_map {α β : Type} (f : α → β) (m : KeyMap α) :
    (m.map f).values = m.values.map f := by
  simp [values, KeyMap.map]

/-- The planner that is not offered what its policy blocks, under the policy that blocks
nothing. -/
def Planner.withholding (p : Planner) : Planner :=
  { p with
    policy := p.policy.unblocked
    topologies := p.topologies.map (Topology.withholding p.policy.declarations) }

/-! ## Asking -/

namespace Topology

variable (d : Declarations)

/-- The offers of an engine but for those of blocked edges. -/
def unblockedOffers (answer : Engine × List Offer) : Engine × List Offer :=
  (answer.1, answer.2.filter fun o => ¬ d.Blocks (o.edgeId answer.1))

/-- An engine that withholds answers when it did, with less. -/
theorem ask_withholding (limit : Nat) (t : Topology) :
    (t.withholding d).ask limit = (t.ask limit).map (unblockedOffers d) := by
  obtain ⟨uri, description, engine, answer⟩ := t
  cases answer with
  | offered delay offers =>
    by_cases hdelay : delay ≤ limit <;>
      simp only [withholding, ask, Answer.keeping, Answer.within, hdelay, if_true, if_false] <;>
      rfl
  | unavailable => rfl
  | failed => rfl
  | never => rfl

theorem mapM_ask_withholding (limit : Nat) (ts : List Topology) :
    (ts.map (withholding d)).mapM (ask limit) =
      (ts.mapM (ask limit)).map (List.map (unblockedOffers d)) := by
  induction ts with
  | nil => rfl
  | cons t ts ih =>
    rw [List.map_cons, List.mapM_cons, List.mapM_cons, ask_withholding, ih]
    rcases t.ask limit with e | answer
    · rfl
    · rcases ts.mapM (ask limit) with e | answers <;> rfl

/-- What fails first is the same: nothing comes sooner or later. -/
theorem firstFailure?_withholding (limit : Nat) (ts : List Topology) :
    firstFailure? limit (ts.map (withholding d)) = firstFailure? limit ts := by
  induction ts with
  | nil => rfl
  | cons t ts ih =>
    have hknown : (t.withholding d).answer.knownAfter limit = t.answer.knownAfter limit := by
      obtain ⟨uri, description, engine, answer⟩ := t
      cases answer <;> rfl
    rw [List.map_cons, firstFailure?, firstFailure?, ih, hknown, ask_withholding]
    rcases t.ask limit with e | answer <;> rfl

/-- **Who is to blame is the same**, and if nobody is, all answer what they answered but
for what is blocked. -/
theorem askAll_withholding (limit : Nat) (ts : List Topology) :
    askAll limit (ts.map (withholding d)) =
      (askAll limit ts).map (List.map (unblockedOffers d)) := by
  unfold askAll expectNoFailure
  rw [mapM_ask_withholding, firstFailure?_withholding, List.length_map]
  split
  · rcases firstFailure? limit ts with _ | ⟨time, e⟩ <;> rfl
  · rfl

end Topology

/-! ## The same edges -/

theorem Declarations.blocks_eq_false_iff {d : Declarations} {id : EdgeId} :
    d.blocks id = false ↔ ¬ d.Blocks id := by
  simp [blocks, Blocks, and_assoc]

/-- Without its blocks a policy blocks nothing. -/
theorem Declarations.blocks_unblocked (d : Declarations) (id : EdgeId) :
    d.unblocked.blocks id = false := by
  simp [blocks, unblocked]

namespace Policy

variable {p : Policy}

/-- What is blocked has no say in what edges weigh. -/
theorem weigh_unblocked (hkind : p.kind = .declared) : p.unblocked.weigh = p.weigh := by
  obtain ⟨kind, d⟩ := p
  cases hkind
  rfl

/-- Which weights are refused has nothing to do with what is blocked. -/
theorem refuses_unblocked (hkind : p.kind = .declared) {x : Engine × Offer} {value : Float} :
    p.unblocked.Refuses x value ↔ p.Refuses x value := by
  have hkind' : p.unblocked.kind = .declared := hkind
  rw [refuses_iff (.inl hkind), refuses_iff (.inl hkind'), imp_iff_right hkind, imp_iff_right hkind']
  rfl

end Policy

namespace Network

variable {p : Policy} {d : Declarations} {n n' : Network} {id : EdgeId} {o : Offer}
variable {offers : List (Engine × Offer)} {answers : List (Engine × List Offer)}

/-- What is left by a policy lists the newest edge first still. -/
theorem Newest.restrict (hnewest : n.Newest) (h : n.WellFormed) (p : Policy) :
    (n.restrict p).Newest := by
  refine (leaves_without h _ _).newest h hnewest fun e he => ?_
  simp only [decide_eq_true_iff] at he ⊢
  exact he.2.1

/-- The offers but for those of blocked edges. -/
def unblockedIn (d : Declarations) (offers : List (Engine × Offer)) : List (Engine × Offer) :=
  offers.filter fun x => ¬ d.Blocks (x.2.edgeId x.1)

/-- The offers that are left when engines withhold are those that are not blocked. -/
theorem offersIn_unblocked (d : Declarations) (answers : List (Engine × List Offer)) :
    offersIn (answers.map (Topology.unblockedOffers d)) = unblockedIn d (offersIn answers) := by
  simp [offersIn, unblockedIn, Topology.unblockedOffers, List.filter_flatMap, List.flatMap_map,
    List.filter_map, Function.comp_def]

/-- The first offer of an edge that is not blocked is the first of those that are not. -/
theorem firstOffer_unblockedIn (hid : ¬ d.Blocks id) :
    FirstOffer (unblockedIn d offers) id o ↔ FirstOffer offers id o := by
  rw [firstOffer_iff, firstOffer_iff, unblockedIn, List.find?_filter]
  have hsame : ∀ x : Engine × Offer,
      (¬ d.Blocks (x.2.edgeId x.1) ∧ x.2.edgeId x.1 = id) ↔ x.2.edgeId x.1 = id :=
    fun x => and_iff_right_of_imp fun h => by rwa [h]
  simp only [decide_eq_true_iff, hsame]

theorem idsOf_unblockedIn (d : Declarations) (offers : List (Engine × Offer)) :
    idsOf (unblockedIn d offers) = (idsOf offers).filter fun id => ¬ d.Blocks id := by
  rw [idsOf, idsOf, unblockedIn, List.filter_map]
  rfl

/-- **Leaving out offers leaves out their edges** and no others. -/
theorem edges_eq_filter_of_offers (hkind : p.kind = .declared) (h : assemble p answers = .ok n)
    (h' : assemble p.unblocked (answers.map (Topology.unblockedOffers d)) = .ok n') :
    n'.edges = n.edges.filter fun e => ¬ d.Blocks e.id := by
  have hfirst := first_of_assemble h
  have hfirst' := first_of_assemble h'
  have hids := (listed_assemble h).ids_eq
  have hids' := (listed_assemble h').ids_eq
  rw [offersIn_unblocked] at hfirst' hids'
  refine eq_of_map_eq (fun e => e.id) ?_ fun e' he' e he hid => ?_
  · rw [hids', idsOf_unblockedIn, eraseDups_filter, ← hids, List.filter_map]
    rfl
  · obtain ⟨he, hunblocked⟩ := List.mem_filter.1 he
    obtain ⟨o, ho, hweigh⟩ := hfirst e he
    obtain ⟨o', ho', hweigh'⟩ := hfirst' e' he'
    rw [hid, firstOffer_unblockedIn (of_decide_eq_true hunblocked), firstOffer_iff] at ho'
    rw [firstOffer_iff, ho'] at ho
    cases ho
    rw [Policy.weigh_unblocked hkind, hid, hweigh] at hweigh'
    exact (Except.ok.inj hweigh').symm

/-- **What a policy leaves is what is left if it is not offered**, but for slots and for
nodes without edges. -/
theorem alike_of_offers (hkind : p.kind = .declared) (h : assemble p answers = .ok n)
    (h' : assemble p.unblocked (answers.map (Topology.unblockedOffers p.declarations)) = .ok n') :
    Alike (n.restrict p) (n'.restrict p.unblocked) := by
  have hlisted := listed_assemble h
  have hlisted' := listed_assemble h'
  refine alike_of_newest (hlisted.wellFormed.restrict p) (hlisted'.wellFormed.restrict _)
    (hlisted.newest.restrict hlisted.wellFormed p)
    (hlisted'.newest.restrict hlisted'.wellFormed _) ?_
  have hkind' : p.unblocked.kind = .declared := hkind
  have hunblocked (id : EdgeId) : p.unblocked.declarations.blocks id = false :=
    p.declarations.blocks_unblocked id
  rw [hlisted.wellFormed.edges_restrict_of_declared hkind,
    hlisted'.wellFormed.edges_restrict_of_declared hkind',
    edges_eq_filter_of_offers hkind h h', List.filter_filter]
  simp only [hunblocked, Declarations.blocks_eq_false_iff, decide_true, Bool.true_and]

end Network

/-! ## The same plans -/

namespace Planner

variable {p : Planner}

/-- The planner whose engines withhold assembles what is left of their answers. -/
theorem wholeNetwork_withholding (p : Planner) :
    p.withholding.wholeNetwork =
      Topology.askAll p.queryTimeout p.topologies.values >>= fun answers =>
        match Network.assemble p.policy.unblocked
          (answers.map (Topology.unblockedOffers p.policy.declarations)) with
        | .ok n => .ok n
        | .error refusal => .error (.invalidWeight refusal) := by
  unfold wholeNetwork
  rw [withholding, KeyMap.values_map, Topology.askAll_withholding]
  rcases Topology.askAll p.queryTimeout p.topologies.values with e | answers <;> rfl

/-- **To block is never to be offered**: if no offer is refused, a policy that keeps to its
declarations has the same plans as one that blocks nothing has where what was blocked is
not offered. -/
theorem plan_withholding (hkind : p.policy.kind = .declared)
    (hweighed : ∀ x ∈ p.offers, ∀ value, ¬ p.policy.Refuses x value) (flow : Flow) :
    (p.plan flow).1 = (p.withholding.plan flow).1 := by
  rw [fst_plan, fst_plan, network_eq, network_eq, wholeNetwork_withholding, wholeNetwork]
  refine congrArg _ (funext fun ends => ?_)
  rcases hanswers : Topology.askAll p.queryTimeout p.topologies.values with e | answers
  · rfl
  have hoffers : Network.offersIn answers = p.offers := by
    rw [Topology.askAll_eq_ok hanswers, Network.offersIn, List.flatMap_map]
    rfl
  rw [← hoffers] at hweighed
  obtain ⟨n, hn⟩ := Network.exists_assemble_eq_ok hweighed
  obtain ⟨n', hn'⟩ : ∃ n', Network.assemble p.policy.unblocked
      (answers.map (Topology.unblockedOffers p.policy.declarations)) = .ok n' := by
    refine Network.exists_assemble_eq_ok fun x hx => ?_
    rw [Network.offersIn_unblocked] at hx
    simp only [Policy.refuses_unblocked hkind]
    exact hweighed x (List.mem_of_mem_filter hx)
  simp only [bind, Except.bind, hn, hn']
  exact planOver_eq (Network.alike_of_offers hkind hn hn') rfl rfl rfl ends.1 ends.2

/-- Around a fenced hop two are left to be offered, and the plan is the same whether the
policy puts the fence up or the engine. -/
theorem plan_withholding_fenced :
    Network.fenced.withholding.offers = [(default, ⟨"a", "e", ∅⟩), (default, ⟨"e", "b", ∅⟩)] ∧
    Network.fenced.policy.kind = .declared ∧
    (∀ x ∈ Network.fenced.offers, ∀ value, ¬ Network.fenced.policy.Refuses x value) ∧
    (Network.fenced.plan loneFlow).1 = (Network.fenced.withholding.plan loneFlow).1 := by
  have hunweighed : ∀ x ∈ Network.fenced.offers,
      x.2.properties.get? "flow.edge.weight" = none := by decide
  have haccepted : ∀ x ∈ Network.fenced.offers, ∀ value,
      ¬ Network.fenced.policy.Refuses x value :=
    fun x hx => Policy.not_refuses_of_unweighed (.inl rfl) (hunweighed x hx)
  exact ⟨rfl, rfl, haccepted, plan_withholding rfl haccepted loneFlow⟩

end Planner

end Waybill
