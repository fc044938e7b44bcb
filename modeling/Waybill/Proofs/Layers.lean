import Waybill.Proofs.Openness
import Waybill.Proofs.Rows

/-!
# Routes through layers

Every edge over a layered topology leads from a row to the next, so along a walk the row is the
number of edges taken (`exists_row_of_isWalk`), and a walk from the source to the sink takes one
edge more than there are layers. That holds of every plan, whatever was drawn (`length_of_plan`).
Where nothing failed to be drawn, all rows are joined, and there is a walk and so a plan
(`exists_network_and_plan`).
-/

namespace Waybill

open Network

/-! ## What is generated can be used -/

namespace Layered

variable {s : Shape} {draws : Draws} {x y : String}

/-- The URL of an engine by its number. -/
def engineUrl (engine : Nat) : Url where
  scheme := "engine"
  username := ""
  password := ""
  host := some ("cluster-" ++ toString engine)
  port := some 8443
  path := .rooted []
  query := none
  fragment := none

/-- The URL of an engine is made of parts that are read back. -/
theorem settled_engineUrl (engine : Nat) : (engineUrl engine).Settled := by
  have hscheme : Url.SchemeText "engine".toList := ⟨rfl, by simp [Url.isSchemeChar], by simp⟩
  have hname : ∀ c ∈ "cluster-".toList,
      Url.isForbiddenInHost c = false ∧ Url.Percent.inControls c = false := by
    simp [Url.isForbiddenInHost, Url.Percent.inControls]
  have hhost : ∀ c ∈ ("cluster-" ++ toString engine).toList,
      Url.isForbiddenInHost c = false ∧ Url.Percent.inControls c = false := by
    rw [String.toList_append, Url.toList_toString, List.forall_mem_append]
    exact ⟨hname, Url.Address.forall_mem_toDigits (by decide) (by decide)⟩
  have hport : 8443 ≤ 65535 ∧ Url.defaultPort? "engine" ≠ some 8443 := by decide
  have hfile : "engine" ≠ "file" := by decide
  constructor
  case scheme => exact hscheme
  case username => exact fun c hc => absurd hc List.not_mem_nil
  case password => exact fun c hc => absurd hc List.not_mem_nil
  case host => exact .inl (.given hhost)
  case port =>
    rintro _ ⟨⟩
    exact hport
  case hosted =>
    intro hempty
    have hlength := congrArg String.length hempty
    simp [engineUrl] at hlength
  case file => exact fun h => absurd h hfile

/-- So every engine of a layered manifest is read as one. -/
theorem exists_parse_engine (engine : Nat) :
    ∃ e, Engine.parse s!"engine://cluster-{engine}:8443" = .ok e := by
  have htext : s!"engine://cluster-{engine}:8443" =
      (engineUrl engine).scheme ++ "://" ++ (engineUrl engine).authority := by
    have hauthority : (engineUrl engine).authority =
        "" ++ ("cluster-" ++ engine.repr) ++ (":" ++ Nat.repr 8443) := rfl
    have hfront : "engine://cluster-" = "engine" ++ "://" ++ "" ++ "cluster-" := rfl
    have hport : ":8443" = ":" ++ Nat.repr 8443 := by decide
    calc "engine://cluster-" ++ engine.repr ++ ":8443"
      _ = "engine" ++ "://" ++ "" ++ "cluster-" ++ engine.repr ++ (":" ++ Nat.repr 8443) := by
        rw [hfront, hport]
      _ = "engine" ++ "://" ++ (engineUrl engine).authority := by
        rw [hauthority]
        simp only [String.append_assoc]
  rw [htext, Engine.parse, (settled_engineUrl engine).parse_base]
  exact ⟨_, rfl⟩

/-- Every weight that is drawn reads back from its text as a weight. -/
theorem isWeight_of_tenths (t : Tenths) :
    (Decimal.read (Text.trim (Decimal.plain t.toFloat))).isFinite ∧
      ¬ Decimal.read (Text.trim (Decimal.plain t.toFloat)) < 0 := by
  have hall : ∀ steps : Fin 91,
      (Decimal.read (Text.trim (Decimal.plain (Tenths.mk steps).toFloat))).isFinite ∧
        ¬ Decimal.read (Text.trim (Decimal.plain (Tenths.mk steps).toFloat)) < 0 := by
    decide +kernel
  exact hall t.steps

theorem toOffer_ends (o : OfferEntry) :
    o.toOffer.source = o.source ∧ o.toOffer.target = o.target := by
  unfold OfferEntry.toOffer
  split <;> exact ⟨rfl, rfl⟩

/-- **What is generated describes topologies.** -/
theorem exists_toTopologies (s : Shape) (draws : Nat → Draws) :
    ∃ ts, (manifest s draws).toTopologies = .ok ts := by
  refine exists_mapM_eq_ok_iff.2 fun entry hentry => ?_
  obtain ⟨engine, -, rfl⟩ := List.mem_map.1 hentry
  obtain ⟨e, he⟩ := exists_parse_engine engine
  have hparse : Engine.parse (topology s (draws engine) engine).engine = .ok e := he
  rw [TopologyEntry.toTopology, hparse]
  exact ⟨_, rfl⟩

end Layered

/-! ## What a planner is offered -/

/-- A planner knows the topologies that a manifest describes, and no others. -/
def Planner.Knows (p : Planner) (m : TopologyManifest) : Prop :=
  ∃ ts, m.toTopologies = .ok ts ∧ p.topologies = Topology.byUri ts

/-- So does a planner that is made from them. -/
theorem Setup.knows_of_build {setup : Setup} {p : Planner} {m : TopologyManifest}
    (hm : m.toTopologies = .ok setup.topologies) (h : setup.build = .ok p) : p.Knows m := by
  obtain ⟨-, -, -, rfl⟩ := eq_of_build h
  exact ⟨_, hm, rfl⟩

namespace Layered

variable {s : Shape} {draws : Nat → Draws} {p : Planner} {n : Network} {x y : String}
variable {es : List Edge}

/-- Every engine offers at once what its draws say for the pairs of adjacent rows. -/
theorem answer_of_knows (h : p.Knows (manifest s draws)) {t : Topology}
    (ht : t ∈ p.topologies.values) : ∃ engine,
      t.answer = .offered 0 ((offersFrom (draws engine) 0 (pairs s.rows)).map (·.toOffer)) := by
  obtain ⟨ts, hts, hknown⟩ := h
  rw [hknown] at ht
  obtain ⟨uri, hmem⟩ := KeyMap.mem_of_mem_values_ofList ht
  obtain ⟨t', ht', heq⟩ := List.mem_map.1 hmem
  obtain ⟨-, rfl⟩ := Prod.mk.inj heq
  obtain ⟨entry, hentry, htopology⟩ := exists_of_forall₂ (mapM_eq_ok_iff.1 hts) t' ht'
  obtain ⟨engine, -, rfl⟩ := List.mem_map.1 hentry
  refine ⟨engine, ?_⟩
  unfold TopologyEntry.toTopology at htopology
  split at htopology
  · cases htopology
  · cases htopology
    rfl

theorem exists_topology_of_knows (h : p.Knows (manifest s draws)) (hengines : 1 ≤ s.engines) :
    ∃ t, t ∈ p.topologies.values := by
  obtain ⟨ts, hts, hknown⟩ := h
  have hlength := (mapM_eq_ok_iff.1 hts).length_eq
  have hne : (ts.map fun t => (t.uri, t)) ≠ [] := by
    rw [← List.length_pos_iff, List.length_map, ← hlength]
    simp only [manifest, List.length_map, List.length_range]
    omega
  rw [hknown]
  exact KeyMap.exists_mem_values_ofList hne

/-- Every offer was drawn for some engine. -/
theorem exists_of_mem_offers (h : p.Knows (manifest s draws)) {o : Engine × Offer}
    (ho : o ∈ p.offers) :
    ∃ engine, ∃ entry ∈ offersFrom (draws engine) 0 (pairs s.rows), entry.toOffer = o.2 := by
  obtain ⟨t, ht, ho⟩ := List.mem_flatMap.1 ho
  obtain ⟨engine, hanswer⟩ := answer_of_knows h ht
  rw [hanswer, Answer.offers] at ho
  obtain ⟨offer, hoffer, rfl⟩ := List.mem_map.1 ho
  obtain ⟨entry, hentry, rfl⟩ := List.mem_map.1 hoffer
  exact ⟨engine, entry, hentry, rfl⟩

theorem adjacent_of_mem_offersFrom {draws : Draws} {entry : OfferEntry}
    (h : entry ∈ offersFrom draws 0 (pairs s.rows)) :
    Adjacent s.rows entry.source entry.target :=
  mem_pairs_iff.1 ((sublist_pairs draws 0 (pairs s.rows)).subset (List.mem_map_of_mem h))

/-- **Engines offer to move data from a row to the next.** -/
theorem adjacent_of_mem_offers (h : p.Knows (manifest s draws)) {o : Engine × Offer}
    (ho : o ∈ p.offers) : Adjacent s.rows o.2.source o.2.target := by
  obtain ⟨engine, entry, hentry, heq⟩ := exists_of_mem_offers h ho
  rw [← heq, (toOffer_ends entry).1, (toOffer_ends entry).2]
  exact adjacent_of_mem_offersFrom hentry

/-! ## Walks -/

/-- **No edge leads anywhere but from a row to the next.** -/
theorem adjacent_of_mem_edges (h : p.Knows (manifest s draws)) (hnetwork : p.network = .ok n)
    {e : Edge} (he : e ∈ n.edges) : Adjacent s.rows e.source e.target := by
  obtain ⟨-, o, hfirst, -⟩ := (Planner.of_network hnetwork).2 e he
  have hadjacent := adjacent_of_mem_offers h hfirst.mem
  obtain ⟨-, -, -, hid, -⟩ := hfirst
  rwa [Edge.source, Edge.target, ← congrArg EdgeId.source hid, ← congrArg EdgeId.target hid]

/-- **A walk goes on by one row with every edge.** -/
theorem exists_row_of_isWalk {rows : List (List String)} (hnodup : rows.flatten.Nodup)
    (hedges : ∀ e ∈ n.edges, Adjacent rows e.source e.target) (hwalk : n.IsWalk x es y) {i : Nat}
    {a : List String} (ha : rows[i]? = some a) (hx : x ∈ a) :
    ∃ b, rows[i + es.length]? = some b ∧ y ∈ b := by
  induction es generalizing x i a with
  | nil =>
    obtain rfl := hwalk
    exact ⟨a, ha, hx⟩
  | cons e es ih =>
    obtain ⟨he, rfl, hrest⟩ := hwalk
    obtain ⟨j, a', b, ha', hb, hsource, htarget⟩ := hedges e he
    obtain rfl := row_unique hnodup ha ha' hx hsource
    obtain ⟨c, hc, hy⟩ := ih hrest hb htarget
    refine ⟨c, ?_, hy⟩
    rw [List.length_cons, ← hc]
    congr 1
    omega

theorem getElem?_rows_last (s : Shape) : s.rows[s.layers + 1]? = some [sink] := by
  rw [Shape.rows_eq, List.getElem?_append_right (by simp [Shape.length_middle])]
  simp [Shape.length_middle]

/-- A walk through all layers takes one edge more than there are layers. -/
theorem length_of_isWalk (hedges : ∀ e ∈ n.edges, Adjacent s.rows e.source e.target)
    (hwalk : n.IsWalk source es sink) : es.length = s.layers + 1 := by
  obtain ⟨b, hb, hsink⟩ := exists_row_of_isWalk s.nodup_rows hedges hwalk (i := 0) (a := [source])
    rfl List.mem_cons_self
  have hrow := row_unique s.nodup_rows hb (getElem?_rows_last s) hsink List.mem_cons_self
  omega

/-- **Every plan from the source to the sink passes all layers once**, whatever was drawn and
however its route was chosen. -/
theorem length_of_plan (h : p.Knows (manifest s draws)) {flow : Flow} {plan : Plan}
    (hends : flow.ends = .ok (source, sink)) (hplan : (p.plan flow).1 = .ok plan) :
    plan.steps.length = s.layers + 1 := by
  rw [Planner.fst_plan, hends] at hplan
  obtain ⟨_, ⟨⟩, hplan⟩ := bind_eq_ok_iff.1 hplan
  obtain ⟨n, hnetwork, hplan⟩ := bind_eq_ok_iff.1 hplan
  obtain ⟨es, hroute, hover⟩ := Planner.forall₂_over_of_planOver hplan
  have hwalk := ((Planner.of_network hnetwork).1.isWalk_of_selectRoute hroute).1
  rw [← hover.length_eq]
  exact length_of_isWalk (fun e => adjacent_of_mem_edges h hnetwork) hwalk

/-! ## Where all pairs are offered -/

/-- Engines answer at once, and what they offer has a weight. -/
theorem isOpen_of_knows (h : p.Knows (manifest s draws)) (hp : p.policy.BlocksNothing) :
    p.IsOpen where
  answered := by
    intro t ht fault hfails
    obtain ⟨engine, hanswer⟩ := answer_of_knows h ht
    rw [hanswer] at hfails
    exact Answer.not_fails_at_once hfails
  accepted := by
    intro x hx value hrefused
    obtain ⟨-, hadvertised, hinvalid⟩ := (Policy.refuses_iff hp.builtIn).1 hrefused
    obtain ⟨engine, entry, hentry, heq⟩ := exists_of_mem_offers h hx
    obtain ⟨weight, hweight, -⟩ := exists_weight_of_mem hentry
    have hread : x.2.properties.weight? =
        some (Decimal.read (Text.trim (Decimal.plain weight.toFloat))) := by
      rw [← heq, OfferEntry.toOffer, hweight]
      simp [Offer.withWeight, KeyMap.withWeight, KeyMap.weight?, KeyMap.get?_insert]
    obtain rfl := Option.some.inj (hread.symm.trans (KeyMap.weight?_eq_some_iff.2 hadvertised))
    exact hinvalid (isWeight_of_tenths weight)
  allowed := hp

/-- What draws that never fail offer joins all rows. -/
theorem exists_mem_offers (h : p.Knows (manifest s draws)) (hengines : 1 ≤ s.engines)
    (hdraws : ∀ engine i, (draws engine i).isSome) (hadjacent : Adjacent s.rows x y) :
    ∃ o ∈ p.offers, o.2.source = x ∧ o.2.target = y := by
  obtain ⟨t, ht⟩ := exists_topology_of_knows h hengines
  obtain ⟨engine, hanswer⟩ := answer_of_knows h ht
  have hmem : (x, y) ∈ (offersFrom (draws engine) 0 (pairs s.rows)).map hop := by
    rw [map_hop_offersFrom (hdraws engine)]
    exact mem_pairs_iff.2 hadjacent
  obtain ⟨entry, hentry, heq⟩ := List.mem_map.1 hmem
  obtain ⟨rfl, rfl⟩ := Prod.mk.inj heq
  refine ⟨(t.engine, entry.toOffer), List.mem_flatMap.2 ⟨t, ht, List.mem_map_of_mem ?_⟩,
    toOffer_ends entry⟩
  rw [hanswer]
  exact List.mem_map_of_mem hentry

/-- Where neighbouring rows are joined and none is empty, a walk leads through all of them. -/
theorem exists_isWalk {rows : List (List String)} {a : List String}
    (hne : ∀ row ∈ rows, row ≠ [])
    (hedges : ∀ v w, Adjacent (a :: rows ++ [[y]]) v w → ∃ e ∈ n.edges, e.source = v ∧ e.target = w)
    (hx : x ∈ a) : ∃ es, n.IsWalk x es y := by
  induction rows generalizing a x with
  | nil =>
    obtain ⟨e, he, hsource, htarget⟩ :=
      hedges x y (adjacent_cons_cons.2 (.inl ⟨hx, List.mem_cons_self⟩))
    exact ⟨[e], he, hsource, htarget⟩
  | cons b rows ih =>
    obtain ⟨hb, hrest⟩ := List.forall_mem_cons.1 hne
    -- all nodes of the next row are joined to this one, so any will do
    obtain ⟨z, hz⟩ := List.exists_mem_of_ne_nil b hb
    obtain ⟨e, he, hsource, htarget⟩ := hedges x z (adjacent_cons_cons.2 (.inl ⟨hx, hz⟩))
    obtain ⟨es, hwalk⟩ :=
      ih hrest (fun v w h => hedges v w (adjacent_cons_cons.2 (.inr h))) hz
    exact ⟨e :: es, he, hsource, by rwa [htarget]⟩

theorem ne_nil_of_mem_rows (hwidth : 1 ≤ s.width) : ∀ row ∈ s.rows, row ≠ [] := by
  have hmiddle : ∀ row ∈ s.middle, row ≠ [] := fun row hrow => by
    rw [← List.length_pos_iff, Shape.length_of_mem_middle row hrow]
    exact hwidth
  rw [Shape.rows_eq]
  simp only [List.forall_mem_append, List.forall_mem_cons]
  exact ⟨⟨List.cons_ne_nil _ _, hmiddle⟩, List.cons_ne_nil _ _, nofun⟩

/-- **All nodes are named where all pairs are offered**, and no others ever. -/
theorem mem_namedBy_iff (h : p.Knows (manifest s draws)) (hengines : 1 ≤ s.engines)
    (hwidth : 1 ≤ s.width) (hdraws : ∀ engine i, (draws engine i).isSome) :
    x ∈ namedBy p.offers ↔ x ∈ s.rows.flatten := by
  constructor
  · intro hx
    obtain ⟨o, ho, hx⟩ := List.mem_flatMap.1 hx
    obtain ⟨hsource, htarget⟩ := (adjacent_of_mem_offers h ho).mem_flatten
    rcases List.mem_pair.1 hx with rfl | rfl
    · exact hsource
    · exact htarget
  · intro hx
    have hlength : 2 ≤ s.rows.length := by
      rw [s.length_rows]
      omega
    obtain ⟨y, hxy | hyx⟩ := exists_adjacent hlength (ne_nil_of_mem_rows hwidth) hx
    · obtain ⟨o, ho, rfl, -⟩ := exists_mem_offers h hengines hdraws hxy
      exact List.mem_flatMap.2 ⟨o, ho, List.mem_cons_self⟩
    · obtain ⟨o, ho, -, rfl⟩ := exists_mem_offers h hengines hdraws hyx
      exact List.mem_flatMap.2 ⟨o, ho, List.mem_cons_of_mem _ List.mem_cons_self⟩

/-- **Where all pairs are offered and nothing is blocked, the network has all nodes and there is a
plan.** -/
theorem exists_network_and_plan (h : p.Knows (manifest s draws)) (hengines : 1 ≤ s.engines)
    (hwidth : 1 ≤ s.width) (hdraws : ∀ engine i, (draws engine i).isSome)
    (hp : p.policy.BlocksNothing) :
    (∃ n, p.network = .ok n ∧ n.nodeCount = 2 + s.layers * s.width) ∧
    (p.edgeTemplates = .wholeCatalog → (∀ c ∈ p.catalog, ∀ uri, c.get? uri = none) →
      ∀ flow : Flow, flow.ends = .ok (source, sink) → ∃ plan, (p.plan flow).1 = .ok plan) := by
  obtain ⟨n, hnetwork, hwell, hnodes, -, hoffered⟩ :=
    Planner.exists_network_of_open (isOpen_of_knows h hp)
  have hmem : ∀ x, x ∈ n.nodes ↔ x ∈ s.rows.flatten := fun x => by
    rw [hnodes, List.mem_eraseDups, mem_namedBy_iff h hengines hwidth hdraws]
  have hperm : n.nodes.Perm s.rows.flatten :=
    (List.perm_ext_iff_of_nodup hwell.represents.nodup_nodes s.nodup_rows).2 hmem
  have hcount : n.nodeCount = 2 + s.layers * s.width := by
    rw [hwell.represents.nodeCount_eq, hperm.length_eq, s.length_flatten_rows]
  refine ⟨⟨n, hnetwork, hcount⟩, fun htemplates hempty flow hends => ?_⟩
  have hne : ∀ row ∈ s.middle, row ≠ [] := fun row hrow =>
    ne_nil_of_mem_rows hwidth row (by simp [Shape.rows_eq, hrow])
  obtain ⟨es, hwalk⟩ : ∃ es, n.IsWalk source es sink := by
    refine exists_isWalk (a := [source]) hne (fun v w hadjacent => ?_) List.mem_cons_self
    obtain ⟨o, ho, rfl, rfl⟩ := exists_mem_offers h hengines hdraws hadjacent
    exact hoffered o ho
  exact Planner.exists_plan_of_isWalk htemplates hempty hends (by decide) hnetwork hwalk

/-- **Layered topologies are layered and can be routed through.** No two nodes have one name; an
engine offers no pair twice, and only from a row to the next, whatever was drawn. A plan from the
source to the sink takes one step more than there are layers, however its route was chosen. Where
every pair is drawn, every engine offers all of them; then the network of a policy that blocks
nothing has all nodes, and without templates there is a plan. -/
theorem layered_exact (s : Shape) (draws : Nat → Draws) :
    s.rows.flatten.Nodup ∧
    (∀ t ∈ (manifest s draws).topologies, (t.offers.map hop).Nodup ∧
      ∀ o ∈ t.offers, Adjacent s.rows o.source o.target) ∧
    (∃ ts, (manifest s draws).toTopologies = .ok ts) ∧
    (∀ p : Planner, p.Knows (manifest s draws) → ∀ flow plan,
      flow.ends = .ok (source, sink) → (p.plan flow).1 = .ok plan →
        plan.steps.length = s.layers + 1) ∧
    ((∀ engine i, (draws engine i).isSome) →
      (∀ t ∈ (manifest s draws).topologies, t.offers.map hop = pairs s.rows ∧
        t.offers.length =
          if s.layers = 0 then 1 else 2 * s.width + (s.layers - 1) * s.width ^ 2) ∧
      (1 ≤ s.engines → 1 ≤ s.width → ∀ p : Planner, p.Knows (manifest s draws) →
        p.policy.BlocksNothing →
          (∃ n, p.network = .ok n ∧ n.nodeCount = 2 + s.layers * s.width) ∧
          (p.edgeTemplates = .wholeCatalog → (∀ c ∈ p.catalog, ∀ uri, c.get? uri = none) →
            ∀ flow : Flow, flow.ends = .ok (source, sink) →
              ∃ plan, (p.plan flow).1 = .ok plan))) := by
  refine ⟨s.nodup_rows, fun t ht => ?_, exists_toTopologies s draws,
    fun p h flow plan => length_of_plan h, fun hdraws => ⟨fun t ht => ?_,
    fun hengines hwidth p h hp => exists_network_and_plan h hengines hwidth hdraws hp⟩⟩
  · obtain ⟨engine, -, rfl⟩ := List.mem_map.1 ht
    exact ⟨(nodup_pairs s.nodup_rows).sublist (sublist_pairs (draws engine) 0 (pairs s.rows)),
      fun o => adjacent_of_mem_offersFrom⟩
  · obtain ⟨engine, -, rfl⟩ := List.mem_map.1 ht
    have hall : (topology s (draws engine) engine).offers.map hop = pairs s.rows :=
      map_hop_offersFrom (hdraws engine) 0
    refine ⟨hall, ?_⟩
    rw [← List.length_map hop, hall, s.length_pairs, Shape.pairCount]

/-- Two engines, and a layer of two nodes. -/
def small : Shape := ⟨2, 1, 2⟩

/-- A flow through the layer. -/
def throughSmall : Flow :=
  .ofUrl default (.ofList [(Setting.source, "source"), (Setting.destination, "sink")])

/-- What is drawn for the small topologies: every pair, at one and a half for the first engine and
at a weight of its own for each pair of the second. -/
def smallDraws : Nat → Draws
  | 0 => .always fun _ => ⟨5⟩
  | _ + 1 => .always fun i => ⟨Fin.ofNat 91 (10 * i)⟩

/-- There is a plan of two steps through one layer, over a network of four nodes. -/
theorem layered_exact_small : ∃ (setup : Setup) (p : Planner) (plan : Plan),
    (manifest small smallDraws).toTopologies = .ok setup.topologies ∧
    setup.build = .ok p ∧ (p.plan throughSmall).1 = .ok plan ∧ plan.steps.length = 2 ∧
    ∃ n, p.network = .ok n ∧ n.nodeCount = 4 := by
  obtain ⟨-, -, ⟨ts, hts⟩, hlength, hall⟩ := layered_exact small smallDraws
  have hdraws : ∀ engine i, (smallDraws engine i).isSome
    | 0, _ => rfl
    | _ + 1, _ => rfl
  obtain ⟨-, hopen⟩ := hall hdraws
  let setup : Setup := { Setup.ofConfig ∅ with topologies := ts }
  let p : Planner := { Planner.lone with topologies := Topology.byUri ts }
  have hbuild : setup.build = .ok p := rfl
  have hknows : p.Knows (manifest small smallDraws) := Setup.knows_of_build hts hbuild
  have hends : throughSmall.ends = .ok (source, sink) := rfl
  obtain ⟨hnetwork, hplans⟩ :=
    hopen (by decide) (by decide) p hknows (.declared rfl rfl rfl)
  obtain ⟨plan, hplan⟩ := hplans rfl nofun throughSmall hends
  exact ⟨setup, p, plan, hts, hbuild, hplan, hlength p hknows _ _ hends hplan, hnetwork⟩

end Layered

end Waybill
