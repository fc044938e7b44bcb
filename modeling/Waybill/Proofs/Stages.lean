import Waybill.Proofs.Binding
import Waybill.Proofs.Exclusion
import Waybill.Proofs.GivenPaths
import Waybill.Proofs.History

/-!
# How far a flow comes

To plan a flow takes stages: its ends are read, all topologies are asked, what they offer is
weighed and assembled and the policy is applied, a route is chosen and its jobs are made. The
first three may fail (`PlanError.Early`), and then the planner is left as it was; after them
it keeps the network, whatever becomes of the flow (`plan_cases`). So the network that is kept
is always that of the last flow that came so far (`lastNetwork_after_iff`), and it is a whole
one, without what the policy excludes (`RoutesOver`).
-/

namespace Waybill

/-! ## Topologies that fail -/

/-- An engine does not say in time what it offers: it refuses, it is late or it never answers. -/
inductive Answer.Fails (limit : Nat) : Answer → QueryFault → Prop
  | unavailable (detail : String) {delay : Nat} (h : delay ≤ limit) :
      Fails limit (.unavailable detail delay) (.unavailable detail)
  | failed (detail : String) {delay : Nat} (h : delay ≤ limit) :
      Fails limit (.failed detail delay) (.failed detail)
  | late {answer : Answer} {delay : Nat} (hdelay : answer.delay? = some delay)
      (h : limit < delay) : Fails limit answer (.timedOut limit)
  | never : Fails limit .never (.timedOut limit)

/-- An answer fails as it does by itself, or because it takes longer than the limit. -/
theorem Answer.within_eq_error_iff {limit : Nat} {answer : Answer} {fault : QueryFault} :
    answer.within limit = .error fault ↔ answer.Fails limit fault := by
  constructor
  · intro h
    cases answer with
    | offered delay offers =>
      rw [within] at h
      split at h
      · cases h
      · next hlate =>
        cases h
        exact .late rfl (Nat.lt_of_not_le hlate)
    | unavailable detail delay =>
      cases h
      by_cases hdelay : delay ≤ limit
      · rw [if_pos hdelay]
        exact .unavailable detail hdelay
      · rw [if_neg hdelay]
        exact .late rfl (Nat.lt_of_not_le hdelay)
    | failed detail delay =>
      cases h
      by_cases hdelay : delay ≤ limit
      · rw [if_pos hdelay]
        exact .failed detail hdelay
      · rw [if_neg hdelay]
        exact .late rfl (Nat.lt_of_not_le hdelay)
    | never =>
      cases h
      exact .never
  · intro h
    cases h with
    | unavailable detail hdelay => rw [within, if_pos hdelay]
    | failed detail hdelay => rw [within, if_pos hdelay]
    | late hdelay hlate =>
      cases answer with
      | offered | unavailable | failed =>
        cases hdelay
        rw [within, if_neg (Nat.not_le.2 hlate)]
      | never => rfl
    | never => rfl

namespace Topology

variable {limit : Nat} {t : Topology} {ts : List Topology} {e : PlanError}
variable {answers : List (Engine × List Offer)}

/-- The failure of a query names the topology and its engine. -/
theorem ask_eq_error_iff : t.ask limit = .error e ↔
    ∃ fault, t.answer.Fails limit fault ∧ e = .queryFailed t.uri t.engine fault := by
  simp only [← Answer.within_eq_error_iff]
  unfold ask
  rcases t.answer.within limit with fault | offers <;> simp [blame, eq_comm]

/-- No failure is found just where all are asked with success. -/
theorem firstFailure?_eq_none_iff :
    firstFailure? limit ts = none ↔ ∀ t ∈ ts, ∀ e, t.ask limit ≠ .error e := by
  induction ts with
  | nil => simp [firstFailure?]
  | cons t ts ih =>
    rw [firstFailure?, List.forall_mem_cons, ← ih]
    rcases t.ask limit with e | answer
    · -- a topology that fails leaves something to be found
      rcases firstFailure? limit ts with _ | ⟨time, e'⟩
      · simp
      · simp only
        split <;> simp
    · simp

/-- **The failure that is found is that of some topology, and no other is known before it.** -/
theorem of_firstFailure? {time : Nat} (h : firstFailure? limit ts = some (time, e)) :
    (∃ t ∈ ts, t.ask limit = .error e ∧ time = t.answer.knownAfter limit) ∧
      ∀ t ∈ ts, ∀ e', t.ask limit = .error e' → time ≤ t.answer.knownAfter limit := by
  induction ts generalizing time e with
  | nil => cases h
  | cons t ts ih =>
    rw [firstFailure?] at h
    rw [List.exists_mem_cons_iff, List.forall_mem_cons]
    rcases hask : t.ask limit with e₀ | answer
    · rcases hrest : firstFailure? limit ts with _ | ⟨time', e'⟩
      · have hnone := firstFailure?_eq_none_iff.1 hrest
        simp only [hask, hrest, Option.some.injEq, Prod.mk.injEq] at h
        obtain ⟨rfl, rfl⟩ := h
        exact ⟨.inl ⟨rfl, rfl⟩, fun _ _ => Nat.le_refl _,
          fun t' ht' e' he' => absurd he' (hnone t' ht' e')⟩
      · obtain ⟨hfound, hfirst⟩ := ih hrest
        simp only [hask, hrest] at h
        -- the failure in front counts unless a later one is known sooner
        split at h
        · next hsooner =>
          cases h
          exact ⟨.inr hfound, fun _ _ => hsooner.le, hfirst⟩
        · next hlater =>
          cases h
          exact ⟨.inl ⟨rfl, rfl⟩, fun _ _ => Nat.le_refl _,
            fun t' ht' e' he' => (Nat.not_lt.1 hlater).trans (hfirst t' ht' e' he')⟩
    · rw [hask] at h
      obtain ⟨hfound, hfirst⟩ := ih h
      exact ⟨.inr hfound, nofun, hfirst⟩

/-- **The topology that is blamed is one that fails**, under its own name and engine. -/
theorem fails_of_askAll (h : askAll limit ts = .error e) :
    ∃ t ∈ ts, ∃ fault, t.answer.Fails limit fault ∧ e = .queryFailed t.uri t.engine fault := by
  have hasked : ts.mapM (ask limit) = .error e → ∃ t ∈ ts, t.ask limit = .error e :=
    exists_of_mapM_eq_error
  suffices h : ∃ t ∈ ts, t.ask limit = .error e by
    obtain ⟨t, ht, hfailed⟩ := h
    exact ⟨t, ht, ask_eq_error_iff.1 hfailed⟩
  unfold askAll at h
  dsimp only at h
  split at h
  · -- of few engines the first failure to be known counts
    rcases bind_eq_error_iff.1 h with hfirst | ⟨-, -, h⟩
    · unfold expectNoFailure at hfirst
      split at hfirst
      · next time e' hsome =>
        cases hfirst
        obtain ⟨⟨t, ht, hfailed, -⟩, -⟩ := of_firstFailure? hsome
        exact ⟨t, ht, hfailed⟩
      · cases hfirst
    · exact hasked h
  · exact hasked h

/-- **All are asked with success just if none fails.** -/
theorem askAll_eq_ok_iff : askAll limit ts = .ok answers ↔
    (∀ t ∈ ts, ∀ fault, ¬ t.answer.Fails limit fault) ∧
      answers = ts.map fun t => (t.engine, t.answer.offers) := by
  constructor
  · intro h
    refine ⟨fun t ht fault hfails => ?_, askAll_eq_ok h⟩
    have hasked : ts.Forall₂ (fun t answer => (∃ a, t.ask limit = .ok a) ∧ t.ask limit = .ok answer)
        answers := (forall₂_of_mapM_eq_ok (mapM_ask_of_askAll h)).imp fun _ _ hok => ⟨⟨_, hok⟩, hok⟩
    obtain ⟨answer, hok⟩ := ((List.forall₂_and_left _ _).1 hasked).1 t ht
    rw [ask_eq_error_iff.2 ⟨fault, hfails, rfl⟩] at hok
    cases hok
  · rintro ⟨hnone, rfl⟩
    rcases h : askAll limit ts with e | answers
    · obtain ⟨t, ht, fault, hfails, -⟩ := fails_of_askAll h
      exact absurd hfails (hnone t ht fault)
    · rw [askAll_eq_ok h]

end Topology

/-! ## Errors by stage -/

/-- The errors of the stages before there is a network to route over. -/
inductive PlanError.Early : PlanError → Prop
  | missingSetting (flow : Url) (key : String) : Early (.missingSetting flow key)
  | queryFailed (topology : String) (engine : Engine) (fault : QueryFault) :
      Early (.queryFailed topology engine fault)
  | invalidWeight (refusal : WeightRefusal) : Early (.invalidWeight refusal)

/-- The settings of a flow name both of its ends. -/
def Flow.NamesEnds (flow : Flow) : Prop :=
  ∀ key ∈ [Setting.source, Setting.destination],
    ∃ raw, flow.config.get? key = some raw ∧ Text.trim raw ≠ ""

variable {flow : Flow}

/-- An end is named by a setting that is not blank. -/
theorem Flow.exists_node_iff {key : String} : (∃ name, flow.node key = .ok name) ↔
    ∃ raw, flow.config.get? key = some raw ∧ Text.trim raw ≠ "" := by
  have hnonBlank : (∃ name, flow.node key = .ok name) ↔
      ∃ name, flow.config.nonBlank? key = some name := by
    unfold node
    rcases flow.config.nonBlank? key with _ | name <;> simp
  rw [hnonBlank]
  simp only [KeyMap.nonBlank?_eq_some_iff]
  constructor
  · rintro ⟨-, raw, hraw, hblank, -⟩
    exact ⟨raw, hraw, hblank⟩
  · rintro ⟨raw, hraw, hblank⟩
    exact ⟨_, raw, hraw, hblank, rfl⟩

theorem Flow.node_eq_error {key : String} {e : PlanError} (h : flow.node key = .error e) :
    e = .missingSetting flow.uri key := by
  unfold node at h
  split at h <;> cases h
  rfl

/-- A flow has both ends if both settings are there. -/
theorem Flow.exists_ends_iff : (∃ ends, flow.ends = .ok ends) ↔ flow.NamesEnds := by
  simp only [NamesEnds, ← exists_node_iff, List.forall_mem_cons, List.not_mem_nil, false_imp_iff,
    implies_true, and_true]
  constructor
  · rintro ⟨ends, h⟩
    obtain ⟨source, hsource, h⟩ := bind_eq_ok_iff.1 h
    obtain ⟨sink, hsink, -⟩ := bind_eq_ok_iff.1 h
    exact ⟨⟨source, hsource⟩, sink, hsink⟩
  · rintro ⟨⟨source, hsource⟩, sink, hsink⟩
    exact ⟨_, bind_eq_ok_iff.2 ⟨source, hsource, bind_eq_ok_iff.2 ⟨sink, hsink, rfl⟩⟩⟩

theorem Flow.ends_eq_error {e : PlanError} (h : flow.ends = .error e) :
    ∃ key, e = .missingSetting flow.uri key := by
  rcases bind_eq_error_iff.1 h with h | ⟨source, -, h⟩
  · exact ⟨_, node_eq_error h⟩
  · rcases bind_eq_error_iff.1 h with h | ⟨sink, -, h⟩
    · exact ⟨_, node_eq_error h⟩
    · cases h

namespace Planner

variable {p : Planner} {n : Network} {e : PlanError} {source sink : String}

/-- What a planner routes over: no topology fails, and of what all of them offer the network
is assembled and left without what the policy excludes. -/
def RoutesOver (p : Planner) (n : Network) : Prop :=
  (∀ t ∈ p.topologies.values, ∀ fault, ¬ t.answer.Fails p.queryTimeout fault) ∧
  ∃ whole, Network.assemble p.policy
    (p.topologies.values.map fun t => (t.engine, t.answer.offers)) = .ok whole ∧
    n = whole.restrict p.policy

/-- The network that a flow is planned over is what the engines offered, assembled and
then restricted. -/
theorem network_eq_ok_iff : p.network = .ok n ↔ p.RoutesOver n := by
  rw [network_eq, bind_eq_ok_iff, RoutesOver]
  constructor
  · rintro ⟨whole, hwhole, hn⟩
    obtain ⟨answers, hanswers, hassembled⟩ := bind_eq_ok_iff.1 hwhole
    obtain ⟨hnone, rfl⟩ := Topology.askAll_eq_ok_iff.1 hanswers
    refine ⟨hnone, whole, ?_, (Except.ok.inj hn).symm⟩
    split at hassembled
    · next hok => rwa [Except.ok.inj hassembled] at hok
    · cases hassembled
  · rintro ⟨hnone, whole, hwhole, rfl⟩
    refine ⟨whole, bind_eq_ok_iff.2 ⟨_, Topology.askAll_eq_ok_iff.2 ⟨hnone, rfl⟩, ?_⟩, rfl⟩
    rw [hwhole]

/-- A network is not made if a topology fails, or else if an offer is refused. -/
theorem network_eq_error (h : p.network = .error e) :
    (∃ t ∈ p.topologies.values, ∃ fault, t.answer.Fails p.queryTimeout fault ∧
      e = .queryFailed t.uri t.engine fault) ∨ ∃ refusal, e = .invalidWeight refusal := by
  rw [network_eq] at h
  rcases bind_eq_error_iff.1 h with h | ⟨whole, -, h⟩
  · rcases bind_eq_error_iff.1 h with h | ⟨answers, -, h⟩
    · exact .inl (Topology.fails_of_askAll h)
    · split at h
      · cases h
      · cases h
        exact .inr ⟨_, rfl⟩
  · cases h

/-- **A topology that fails is why there is no network.** -/
theorem network_eq_error_of_fails {t : Topology} {fault : QueryFault}
    (ht : t ∈ p.topologies.values) (hfails : t.answer.Fails p.queryTimeout fault) :
    ∃ uri engine fault, p.network = .error (.queryFailed uri engine fault) := by
  rcases hasked : Topology.askAll p.queryTimeout p.topologies.values with e | answers
  · obtain ⟨t', -, fault', -, rfl⟩ := Topology.fails_of_askAll hasked
    refine ⟨t'.uri, t'.engine, fault', ?_⟩
    rw [network_eq, wholeNetwork, hasked]
    rfl
  · exact absurd hfails ((Topology.askAll_eq_ok_iff.1 hasked).1 t ht fault)

/-- Over a network a plan wants a route, or else a template that a job is to be bound to. -/
theorem planOver_eq_error_cases (h : p.planOver n flow source sink = .error e) :
    n.selectRoute source sink (p.path? flow) = .error e ∨
      ∃ template hop fault, e = .notBound template hop fault := by
  rcases bind_eq_error_iff.1 h with h | ⟨es, -, h⟩
  · exact .inl h
  · rcases bind_eq_error_iff.1 h with h | ⟨steps, -, h⟩
    · obtain ⟨edge, -, h⟩ := exists_of_mapM_eq_error h
      rcases bind_eq_error_iff.1 h with h | ⟨job, -, h⟩
      · obtain ⟨template, fault, -, -, heq⟩ := Job.of_ofHop_eq_error h
        exact .inr ⟨template, _, fault, heq⟩
      · cases h
    · cases h

/-- Over a network only a route or a job may be missing. -/
theorem planOver_eq_error (h : p.planOver n flow source sink = .error e) : ¬ e.Early := by
  rcases planOver_eq_error_cases h with h | ⟨template, hop, fault, rfl⟩
  · rw [Network.noPath_of_selectRoute h]
    nofun
  · nofun

/-- A plan fails early or over a network. -/
theorem plan_eq_error_cases (h : (p.plan flow).1 = .error e) : e.Early ∨ ∃ ends n,
    flow.ends = .ok ends ∧ p.network = .ok n ∧ p.planOver n flow ends.1 ends.2 = .error e := by
  rw [fst_plan] at h
  rcases bind_eq_error_iff.1 h with h | ⟨ends, hends, h⟩
  · obtain ⟨key, rfl⟩ := Flow.ends_eq_error h
    exact .inl (.missingSetting _ _)
  rcases bind_eq_error_iff.1 h with h | ⟨n, hnetwork, h⟩
  · obtain ⟨t, -, fault, -, rfl⟩ | ⟨refusal, rfl⟩ := network_eq_error h
    · exact .inl (.queryFailed _ _ _)
    · exact .inl (.invalidWeight _)
  · exact .inr ⟨ends, n, hends, hnetwork, h⟩

/-! ## The network that is kept -/

/-- A flow comes as far as a network. -/
structure Reaches (p : Planner) (flow : Flow) (n : Network) : Prop where
  ends : flow.NamesEnds
  network : p.RoutesOver n

/-- **A flow that comes as far as a network leaves it behind**, whatever becomes of the flow
then; any other fails early and leaves the planner as it was. -/
theorem plan_cases (p : Planner) (flow : Flow) :
    (∃ n, p.Reaches flow n ∧ (p.plan flow).2.lastNetwork = some n ∧
      ∀ e, (p.plan flow).1 = .error e → ¬ e.Early) ∨
    (∀ n, ¬ p.Reaches flow n) ∧ (p.plan flow).2 = p ∧
      ∃ e, (p.plan flow).1 = .error e ∧ e.Early := by
  unfold plan
  split
  · next e hends =>
    refine .inr ⟨fun n hreaches => ?_, rfl, e, rfl, ?_⟩
    · obtain ⟨ends, hok⟩ := Flow.exists_ends_iff.2 hreaches.ends
      rw [hends] at hok
      cases hok
    · obtain ⟨key, rfl⟩ := Flow.ends_eq_error hends
      exact .missingSetting _ _
  next source sink hends =>
  split
  · next e hnetwork =>
    refine .inr ⟨fun n hreaches => ?_, rfl, e, rfl, ?_⟩
    · rw [network_eq_ok_iff.2 hreaches.network] at hnetwork
      cases hnetwork
    · obtain ⟨t, -, fault, -, rfl⟩ | ⟨refusal, rfl⟩ := network_eq_error hnetwork
      · exact .queryFailed _ _ _
      · exact .invalidWeight _
  · next n hnetwork =>
    exact .inl ⟨n, ⟨Flow.exists_ends_iff.1 ⟨_, hends⟩, network_eq_ok_iff.1 hnetwork⟩, rfl,
      fun e => planOver_eq_error⟩

/-- There is one such network. -/
theorem RoutesOver.unique {n' : Network} (h : p.RoutesOver n) (h' : p.RoutesOver n') : n = n' :=
  Except.ok.inj ((network_eq_ok_iff.2 h).symm.trans (network_eq_ok_iff.2 h'))

/-- A flow whose ends are named fails for a topology just if one fails. -/
theorem exists_queryFailed_iff (h : flow.NamesEnds) :
    (∃ uri engine fault, (p.plan flow).1 = .error (.queryFailed uri engine fault)) ↔
      ∃ t ∈ p.topologies.values, ∃ fault, t.answer.Fails p.queryTimeout fault := by
  obtain ⟨ends, hends⟩ := Flow.exists_ends_iff.2 h
  constructor
  · rintro ⟨uri, engine, fault, hplan⟩
    by_contra hnone
    push Not at hnone
    rcases plan_cases p flow with ⟨n, -, -, hlate⟩ | ⟨hnot, -, -⟩
    · exact hlate _ hplan (.queryFailed _ _ _)
    · -- no topology fails, so the flow fails for what is offered
      rcases hnetwork : p.network with e | n
      · obtain ⟨t, ht, fault', hfails, -⟩ | ⟨refusal, rfl⟩ := network_eq_error hnetwork
        · exact hnone t ht fault' hfails
        · rw [fst_plan, hends, hnetwork] at hplan
          cases hplan
      · exact hnot n ⟨h, network_eq_ok_iff.1 hnetwork⟩
  · rintro ⟨t, ht, fault, hfails⟩
    obtain ⟨uri, engine, fault', hnetwork⟩ := network_eq_error_of_fails ht hfails
    exact ⟨uri, engine, fault', by rw [fst_plan, hends, hnetwork]; rfl⟩

/-- **The topology that a flow fails for is one that fails**, and is told with its engine. -/
theorem fails_of_plan {uri : String} {engine : Engine} {fault : QueryFault}
    (h : (p.plan flow).1 = .error (.queryFailed uri engine fault)) :
    ∃ t ∈ p.topologies.values, t.uri = uri ∧ t.engine = engine ∧
      t.answer.Fails p.queryTimeout fault := by
  rw [fst_plan] at h
  rcases bind_eq_error_iff.1 h with h | ⟨ends, -, h⟩
  · obtain ⟨key, h⟩ := Flow.ends_eq_error h
    cases h
  rcases bind_eq_error_iff.1 h with h | ⟨n, -, h⟩
  · obtain ⟨t, ht, fault', hfails, h⟩ | ⟨refusal, h⟩ := network_eq_error h
    · cases h
      exact ⟨t, ht, rfl, rfl, hfails⟩
    · cases h
  · exact absurd (.queryFailed _ _ _) (planOver_eq_error h)

/-! ## Runs -/

/-- No network is kept from the start. -/
theorem lastNetwork_of_build {s : Setup} (h : s.build = .ok p) : p.lastNetwork = none := by
  obtain ⟨-, -, -, rfl⟩ := Setup.eq_of_build h
  rfl

/-- An operation plans a flow that comes as far as a network. -/
def Makes (p : Planner) (op : Operation) (n : Network) : Prop :=
  ∃ flow, op = .plan flow ∧ p.Reaches flow n

/-- Of some operations the one at a position plans a flow that comes as far as a network. -/
def MakesAt (p : Planner) (ops : List Operation) (i : Nat) (n : Network) : Prop :=
  ∃ op, ops[i]? = some op ∧ (p.after (ops.take i)).Makes op n

variable {op : Operation} {ops : List Operation} {i : Nat}

/-- Nothing but planning changes which network was the last. -/
theorem lastNetwork_apply_of_ne_plan (h : ∀ flow, op ≠ .plan flow) :
    (p.apply op).lastNetwork = p.lastNetwork := by
  cases op with
  | plan flow => exact absurd rfl (h flow)
  | reload config =>
    simp only [apply, reload]
    split <;> rfl
  | register _ => rfl
  | unregister _ => rfl
  | addTemplate _ => rfl
  | removeTemplate _ => rfl
  | takePictures => rfl

/-- Planning makes a network if the flow reaches it. -/
theorem makes_plan_iff : p.Makes (.plan flow) n ↔ p.Reaches flow n := by
  constructor
  · rintro ⟨_, hop, hreaches⟩
    cases hop
    exact hreaches
  · exact fun h => ⟨flow, rfl, h⟩

/-- **Only a flow that comes as far as a network replaces the one that is kept.** -/
theorem lastNetwork_apply_iff : (p.apply op).lastNetwork = some n ↔
    p.Makes op n ∨ (∀ n', ¬ p.Makes op n') ∧ p.lastNetwork = some n := by
  by_cases hplan : ∃ flow, op = .plan flow
  · obtain ⟨flow, rfl⟩ := hplan
    simp only [makes_plan_iff, apply]
    rcases plan_cases p flow with ⟨n₀, hreaches, hlast, -⟩ | ⟨hnot, hsame, -⟩
    · rw [hlast, Option.some_inj]
      constructor
      · rintro rfl
        exact .inl hreaches
      · rintro (h | ⟨hnot, -⟩)
        · exact hreaches.network.unique h.network
        · exact absurd hreaches (hnot n₀)
    · rw [hsame]
      simp [hnot]
  · have hnone : ∀ n', ¬ p.Makes op n' := by
      rintro n' ⟨flow, hop, -⟩
      exact hplan ⟨flow, hop⟩
    rw [lastNetwork_apply_of_ne_plan fun flow hop => hplan ⟨flow, hop⟩]
    simp [hnone]

theorem after_concat (p : Planner) (ops : List Operation) (op : Operation) :
    p.after (ops ++ [op]) = (p.after ops).apply op := by
  rw [after, List.foldl_append]
  rfl

theorem MakesAt.lt_length (h : p.MakesAt ops i n) : i < ops.length := by
  obtain ⟨op, hop, -⟩ := h
  exact (List.getElem?_eq_some_iff.1 hop).1

/-- One more operation may make one more network, and undoes none. -/
theorem makesAt_concat_iff : p.MakesAt (ops ++ [op]) i n ↔
    p.MakesAt ops i n ∨ i = ops.length ∧ (p.after ops).Makes op n := by
  unfold MakesAt
  rcases Nat.lt_trichotomy i ops.length with hlt | rfl | hgt
  · rw [List.getElem?_append_left hlt, List.take_append_of_le_length hlt.le]
    simp [hlt.ne]
  · simp
  · rw [List.getElem?_eq_none (by simp; omega), List.getElem?_eq_none hgt.le]
    simp [hgt.ne']

/-- **The network that is kept is that of the last flow that came so far.** -/
theorem lastNetwork_after_iff (h : p.lastNetwork = none) :
    (p.after ops).lastNetwork = some n ↔
      ∃ i, p.MakesAt ops i n ∧ ∀ j n', p.MakesAt ops j n' → j ≤ i := by
  induction ops using List.reverseRecOn generalizing n with
  | nil => simp [after, h, MakesAt]
  | append_singleton ops op ih =>
    rw [after_concat, lastNetwork_apply_iff, ih]
    simp only [makesAt_concat_iff]
    constructor
    · rintro (hmakes | ⟨hnone, i, hi, hlast⟩)
      · refine ⟨ops.length, .inr ⟨rfl, hmakes⟩, fun j n' hj => ?_⟩
        rcases hj with hj | ⟨rfl, -⟩
        · exact hj.lt_length.le
        · exact Nat.le_refl _
      · refine ⟨i, .inl hi, fun j n' hj => ?_⟩
        rcases hj with hj | ⟨-, hmakes⟩
        · exact hlast j n' hj
        · exact absurd hmakes (hnone n')
    · rintro ⟨i, hi | ⟨rfl, hmakes⟩, hlast⟩
      · refine .inr ⟨fun n' hmakes => ?_, i, hi, fun j n' hj => hlast j n' (.inl hj)⟩
        -- a network made by the last operation would be later than any before it
        have hle : ops.length ≤ i := hlast _ n' (.inr ⟨rfl, hmakes⟩)
        exact absurd hi.lt_length (Nat.not_lt.2 hle)
      · exact .inl hmakes

/-- No network is kept just if no flow came so far. -/
theorem lastNetwork_after_eq_none_iff (h : p.lastNetwork = none) :
    (p.after ops).lastNetwork = none ↔ ∀ i n, ¬ p.MakesAt ops i n := by
  induction ops using List.reverseRecOn with
  | nil => simp [after, h, MakesAt]
  | append_singleton ops op ih =>
    simp only [after_concat, Option.eq_none_iff_forall_ne_some, ne_eq, lastNetwork_apply_iff,
      makesAt_concat_iff] at ih ⊢
    constructor
    · intro hnone i n hmakes
      have hlast : ∀ n', ¬ (p.after ops).Makes op n' := fun n' hn' => hnone n' (.inl hn')
      rcases hmakes with hi | ⟨-, hn⟩
      · exact ih.1 (fun n' hn' => hnone n' (.inr ⟨hlast, hn'⟩)) i n hi
      · exact hlast n hn
    · rintro hnone n (hn | ⟨-, hn⟩)
      · exact hnone ops.length n (.inr ⟨rfl, hn⟩)
      · exact ih.2 (fun i n' hi => hnone i n' (.inl hi)) n hn

/-- **Where a flow fails, and what it leaves behind**, in every run of a planner that was made.
If its ends are named it fails for a topology just if one fails to answer, and tells of one
that does. Failing early it leaves the planner as it was; else it leaves the whole network
that was routed over, also if there is no route over it or no template. So the network that
is kept is that of the last flow that came so far, and there is none before. -/
theorem plan_stages {s : Setup} (h : s.build = .ok p) (ops : List Operation) :
    (∀ flow : Flow,
      (flow.NamesEnds →
        ((∃ uri engine fault,
          ((p.after ops).plan flow).1 = .error (.queryFailed uri engine fault)) ↔
        ∃ t ∈ (p.after ops).topologies.values, ∃ fault,
          t.answer.Fails (p.after ops).queryTimeout fault)) ∧
      (∀ uri engine fault,
        ((p.after ops).plan flow).1 = .error (.queryFailed uri engine fault) →
        ∃ t ∈ (p.after ops).topologies.values, t.uri = uri ∧ t.engine = engine ∧
          t.answer.Fails (p.after ops).queryTimeout fault) ∧
      (∀ e, ((p.after ops).plan flow).1 = .error e → e.Early →
        ((p.after ops).plan flow).2 = p.after ops) ∧
      ((∀ e, ((p.after ops).plan flow).1 = .error e → ¬ e.Early) →
        ∃ n, (p.after ops).RoutesOver n ∧
          ((p.after ops).plan flow).2.lastNetwork = some n)) ∧
    (∀ n, (p.after ops).lastNetwork = some n ↔
      ∃ i, p.MakesAt ops i n ∧ ∀ j n', p.MakesAt ops j n' → j ≤ i) ∧
    ((p.after ops).lastNetwork = none ↔ ∀ i n, ¬ p.MakesAt ops i n) := by
  have hstart : p.lastNetwork = none := lastNetwork_of_build h
  refine ⟨fun flow => ⟨exists_queryFailed_iff, fun _ _ _ => fails_of_plan, fun e he hearly => ?_,
    fun hlate => ?_⟩, fun n => lastNetwork_after_iff hstart, lastNetwork_after_eq_none_iff hstart⟩
  · rcases plan_cases (p.after ops) flow with ⟨-, -, -, hlate⟩ | ⟨-, hsame, -⟩
    · exact absurd hearly (hlate e he)
    · exact hsame
  · rcases plan_cases (p.after ops) flow with ⟨n, hreaches, hlast, -⟩ | ⟨-, -, e, he, hearly⟩
    · exact ⟨n, hreaches.network, hlast⟩
    · exact absurd hearly (hlate e he)

/-- What the lone planner is made from. -/
def loneSetup : Setup :=
  { Setup.ofConfig ∅ with topologies := [⟨"t", "", default, .offered 0 [⟨"a", "b", ∅⟩]⟩] }

/-- A flow is planned before an engine falls silent, and one that names no ends after it. -/
def silenced : List Operation :=
  [.plan loneFlow, .register ⟨"u", "", default, .never⟩, .plan (.ofUrl default ∅)]

/-- After an engine fell silent a flow fails for it, and the network of the first flow is
still kept. -/
theorem plan_stages_silenced :
    loneSetup.build = .ok lone ∧
    (∃ uri engine fault,
      ((lone.after silenced).plan loneFlow).1 = .error (.queryFailed uri engine fault)) ∧
    ((lone.after silenced).plan loneFlow).2 = lone.after silenced ∧
    ∃ n, lone.MakesAt silenced 0 n ∧ (lone.after silenced).lastNetwork = some n := by
  have hbuild : loneSetup.build = .ok lone := rfl
  obtain ⟨hflow, hlast, -⟩ := plan_stages hbuild silenced
  obtain ⟨hqueried, -, hleft, -⟩ := hflow loneFlow
  have hends : loneFlow.NamesEnds := Flow.exists_ends_iff.1 ⟨_, rfl⟩
  have htopologies : (lone.after silenced).topologies =
      lone.topologies.insert "u" ⟨"u", "", default, .never⟩ := by
    simp only [silenced, after, List.foldl, apply, topologies_plan, register]
  have hsilent : ⟨"u", "", default, .never⟩ ∈ (lone.after silenced).topologies.values := by
    rw [htopologies]
    decide
  obtain ⟨uri, engine, fault, hfailed⟩ := (hqueried hends).2 ⟨_, hsilent, _, .never⟩
  have hfirst : lone.MakesAt silenced 0
      ((Network.empty.addEdge Network.single).2.restrict lone.policy) :=
    ⟨_, rfl, loneFlow, rfl, hends, network_eq_ok_iff.1 network_lone⟩
  refine ⟨hbuild, ⟨uri, engine, fault, hfailed⟩, hleft _ hfailed (.queryFailed _ _ _), _, hfirst,
    (hlast _).2 ⟨0, hfirst, fun j n hj => ?_⟩⟩
  obtain ⟨op, hop, flow, rfl, hreaches⟩ := hj
  have hnone : ¬ (Flow.ofUrl default ∅).NamesEnds := by
    intro h
    obtain ⟨raw, hraw, -⟩ := h Setting.source List.mem_cons_self
    cases hraw
  rcases j with _ | _ | _ | j
  · exact Nat.le_refl 0
  · cases hop
  · cases hop
    exact absurd hreaches.ends hnone
  · cases hop

end Planner

end Waybill
