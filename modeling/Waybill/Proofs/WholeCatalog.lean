import Waybill.Proofs.Stages

/-!
# Planning with the whole catalog

Where every edge may use all of the catalog, which template a hop is bound to is no matter of the
hop: the edges of a network are all offered the keys of the catalog (`candidates_wholeCatalog`),
so it is settled once for a flow (`Catalog.SettlesOn`), and each step of each route goes by that
(`ofHop_of_settlesOn`, `plan_wholeCatalog`). What is offered is what the catalog has; that it
stands there under its own name (`Catalog.keyed_after`) is all that is asked of the catalog.
-/

namespace Waybill

/-! ## What a catalog settles on -/

namespace Catalog

variable {c : Catalog} {wanted : List String} {t : Template} {uri : String}

/-- The template that a catalog settles on where some are wanted: that of the first wanted name
that it has, or else that of the least name that it has. -/
inductive SettlesOn (c : Catalog) (wanted : List String) (t : Template) : Prop
  | wanted {before later : List String} (h : wanted = before ++ t.uri :: later)
      (found : c.get? t.uri = some t) (first : ∀ uri ∈ before, c.get? uri = none)
  | least (found : c.get? t.uri = some t) (unwanted : ∀ uri ∈ wanted, c.get? uri = none)
      (least : ∀ uri t', c.get? uri = some t' → t.uri ≤ uri)

/-- What a catalog settles on is in it. -/
theorem SettlesOn.found (h : c.SettlesOn wanted t) : c.get? t.uri = some t := by
  cases h with
  | wanted _ found _ => exact found
  | least found _ _ => exact found

/-- A least key is the first. -/
theorem keys_eq_cons_of_le {v : Template} (hfound : c.get? uri = some v)
    (hle : ∀ uri' t', c.get? uri' = some t' → uri ≤ uri') : ∃ rest, c.keys = uri :: rest := by
  have hmem : uri ∈ c.keys := KeyMap.mem_keys_iff.2 ⟨v, hfound⟩
  have hascending := c.pairwise_keys
  rcases hkeys : c.keys with _ | ⟨first, rest⟩
  · rw [hkeys] at hmem
    cases hmem
  rw [hkeys] at hmem hascending
  refine ⟨rest, ?_⟩
  rcases List.mem_cons.1 hmem with rfl | hlater
  · rfl
  · -- an earlier key would be less
    have hlt := (List.pairwise_cons.1 hascending).1 uri hlater
    obtain ⟨t', ht'⟩ := KeyMap.mem_keys_iff.1 (hkeys ▸ List.mem_cons_self : first ∈ c.keys)
    exact absurd hlt (String.not_lt.2 (hle first t' ht'))

/-- **What is chosen out of all keys is what the catalog settles on.** -/
theorem SettlesOn.chosen (h : c.SettlesOn wanted t) : Job.Chosen wanted c.keys t.uri := by
  cases h with
  | wanted h found first =>
    exact .wanted h (KeyMap.mem_keys_iff.2 ⟨t, found⟩)
      fun uri huri => KeyMap.not_mem_keys_iff.2 (first uri huri)
  | least found unwanted least =>
    obtain ⟨rest, hkeys⟩ := keys_eq_cons_of_le found least
    exact .first hkeys fun uri huri => KeyMap.not_mem_keys_iff.2 (unwanted uri huri)

/-- A catalog settles on one template at most. -/
theorem SettlesOn.unique {t' : Template} (h : c.SettlesOn wanted t)
    (h' : c.SettlesOn wanted t') : t = t' := by
  have huri : t.uri = t'.uri := h.chosen.unique h'.chosen
  exact Option.some.inj (h.found.symm.trans (huri ▸ h'.found))

/-- It settles on what is chosen among its names. -/
theorem exists_settlesOn_of_chosen (hkeyed : c.Keyed (·.uri))
    (h : Job.Chosen wanted c.keys uri) : ∃ t, c.SettlesOn wanted t := by
  cases h with
  | @wanted before later h offered first =>
    obtain ⟨t, ht⟩ := KeyMap.mem_keys_iff.1 offered
    obtain rfl : t.uri = uri := hkeyed _ _ ht
    exact ⟨t, .wanted h ht fun u hu => KeyMap.not_mem_keys_iff.1 (first u hu)⟩
  | @first rest h unwanted =>
    have hmem : uri ∈ c.keys := h ▸ List.mem_cons_self
    obtain ⟨t, ht⟩ := KeyMap.mem_keys_iff.1 hmem
    obtain rfl : t.uri = uri := hkeyed _ _ ht
    refine ⟨t, .least ht (fun u hu => KeyMap.not_mem_keys_iff.1 (unwanted u hu)) ?_⟩
    intro u t' ht'
    have hascending := h ▸ c.pairwise_keys
    rcases List.mem_cons.1 (h ▸ KeyMap.mem_keys_iff.2 ⟨t', ht'⟩) with rfl | hlater
    · exact String.le_refl _
    · exact String.not_lt.1 (String.lt_asymm <| (List.pairwise_cons.1 hascending).1 u hlater)

/-- **A catalog is empty or settles on a template**, if each stands under its own name. -/
theorem empty_or_settlesOn (hkeyed : c.Keyed (·.uri)) (wanted : List String) :
    (∀ uri, c.get? uri = none) ∨ ∃ t, c.SettlesOn wanted t := by
  rcases hchoose : Job.choose wanted c.keys with _ | uri
  · refine .inl fun uri => KeyMap.not_mem_keys_iff.1 ?_
    rw [Job.choose_eq_none_iff.1 hchoose]
    exact List.not_mem_nil
  · exact .inr (exists_settlesOn_of_chosen hkeyed (Job.choose_eq_some_iff.1 hchoose))

end Catalog

/-! ## Hops -/

variable {n : Network} {id : EdgeId} {c : Catalog} {flow : Flow} {t : Template}

/-- **Over every edge a hop is bound to what the catalog settles on**, or to nothing, if settings
that this template requires are given nowhere. -/
theorem Job.ofHop_of_settlesOn (hid : n.containsEdge id) (hkeyed : c.Keyed (·.uri))
    (h : c.SettlesOn flow.templates t) (source target : String) :
    Job.ofHop .wholeCatalog n (some c) flow id source target =
      if lacking t flow.config = [] then
        .ok { plain flow source target with
          config := flow.config.atop t.config, template := some t.uri }
      else
        .error (.notBound t.uri (source ++ "-" ++ target)
          (.incomplete ⟨lacking t flow.config⟩)) := by
  have hchosen :
      Chosen flow.templates (EdgeTemplates.wholeCatalog.candidates n (some c) id) t.uri := by
    rw [EdgeTemplates.candidates_wholeCatalog hid hkeyed]
    exact h.chosen
  split
  · next hcomplete =>
    exact ofHop_of_admits hchosen ⟨⟨c, rfl, h.found⟩, lacking_eq_nil_iff.1 hcomplete⟩
  · next hlacks => exact ofHop_of_refuses hchosen (.incomplete rfl h.found hlacks)

/-! ## Plans -/

namespace Planner

variable {p : Planner} {plan : Plan}

/-- **Every step goes by what the catalog settles on.** -/
theorem step_of_settlesOn (htemplates : p.edgeTemplates = .wholeCatalog)
    (hcatalog : p.catalog = some c) (hkeyed : c.Keyed (·.uri))
    (ht : c.SettlesOn flow.templates t) {e : Edge} (he : n.containsEdge e.id) :
    (∃ s, p.step n flow e = .ok s ∧ s.job.template = some t.uri ∧ Job.lacking t flow.config = []) ∨
    p.step n flow e = .error (.notBound t.uri (e.source ++ "-" ++ e.target)
      (.incomplete ⟨Job.lacking t flow.config⟩)) ∧ Job.lacking t flow.config ≠ [] := by
  have hjob := Job.ofHop_of_settlesOn he hkeyed ht e.source e.target
  unfold step
  rw [htemplates, hcatalog, hjob]
  by_cases hlacks : Job.lacking t flow.config = []
  · rw [if_pos hlacks]
    exact .inl ⟨_, rfl, rfl, hlacks⟩
  · rw [if_neg hlacks]
    exact .inr ⟨rfl, hlacks⟩

/-- The steps of a plan go over edges of a network. -/
theorem exists_step_of_plan (h : (p.plan flow).1 = .ok plan) {s : Step} (hs : s ∈ plan.steps) :
    ∃ (n : Network) (e : Edge), n.containsEdge e.id ∧ p.step n flow e = .ok s := by
  rw [fst_plan] at h
  obtain ⟨ends, -, h⟩ := bind_eq_ok_iff.1 h
  obtain ⟨n, hnetwork, h⟩ := bind_eq_ok_iff.1 h
  obtain ⟨es, hroute, hsteps⟩ := forall₂_step_of_planOver h
  obtain ⟨e, he, hstep⟩ := exists_of_forall₂ hsteps s hs
  exact ⟨n, e, (of_network hnetwork).1.containsEdge_of_selectRoute hroute he, hstep⟩

/-- A flow that no template can be bound to fails over an edge of a network. -/
theorem exists_step_of_notBound {uri hop : String} {fault : BindingFault}
    (h : (p.plan flow).1 = .error (.notBound uri hop fault)) :
    ∃ (n : Network) (e : Edge), n.containsEdge e.id ∧
      p.step n flow e = .error (.notBound uri hop fault) := by
  rcases plan_eq_error_cases h with hearly | ⟨ends, n, -, hnetwork, h⟩
  · cases hearly
  rcases bind_eq_error_iff.1 h with h | ⟨es, hroute, h⟩
  · cases Network.noPath_of_selectRoute h
  rcases bind_eq_error_iff.1 h with h | ⟨steps, -, h⟩
  · obtain ⟨e, he, hstep⟩ := exists_of_mapM_eq_error h
    exact ⟨n, e, (of_network hnetwork).1.containsEdge_of_selectRoute hroute he, hstep⟩
  · cases h

/-- **With the whole catalog to choose from, all of a plan is bound to one template**, after all
that was done with the catalog. Where it is empty, or there is none, no step of a plan is bound,
and no flow fails for a template. Otherwise it settles on a template, every step of a plan is bound
to that, and a flow that fails for a template fails for that one, for settings that it requires
and that neither it nor the flow gives; never because it is not found. -/
theorem plan_wholeCatalog (p : Planner) (changes : Option (List Catalog.Change)) (flow : Flow)
    (htemplates : p.edgeTemplates = .wholeCatalog)
    (hcatalog : p.catalog = changes.map Catalog.after) :
    ((∀ c ∈ p.catalog, ∀ uri, c.get? uri = none) ∧
      (∀ plan, (p.plan flow).1 = .ok plan → ∀ s ∈ plan.steps, s.job.template = none) ∧
      ∀ uri hop fault, (p.plan flow).1 ≠ .error (.notBound uri hop fault)) ∨
    ∃ c ∈ p.catalog, ∃ t, c.SettlesOn flow.templates t ∧
      (∀ plan, (p.plan flow).1 = .ok plan → ∀ s ∈ plan.steps, s.job.template = some t.uri) ∧
      ∀ uri hop fault, (p.plan flow).1 = .error (.notBound uri hop fault) →
        uri = t.uri ∧ fault = .incomplete ⟨Job.lacking t flow.config⟩ ∧
          Job.lacking t flow.config ≠ [] := by
  -- what a catalog settles on is told by the flow alone, and so for all hops at once
  have hcases : (∀ c ∈ p.catalog, ∀ uri, c.get? uri = none) ∨
      ∃ c, p.catalog = some c ∧ c.Keyed (·.uri) ∧ ∃ t, c.SettlesOn flow.templates t := by
    rw [hcatalog]
    rcases changes with _ | changes
    · exact .inl nofun
    · have hkeyed := Catalog.keyed_after changes
      rcases Catalog.empty_or_settlesOn hkeyed flow.templates with hempty | hsettles
      · refine .inl fun c hc => ?_
        cases hc
        exact hempty
      · exact .inr ⟨_, rfl, hkeyed, hsettles⟩
  rcases hcases with hempty | ⟨c, hc, hkeyed, t, ht⟩
  · refine .inl ⟨hempty, fun plan hplan s hs => ?_, fun uri hop fault hfails => ?_⟩
    · obtain ⟨n, e, -, hstep⟩ := exists_step_of_plan hplan hs
      rw [step_of_nothing htemplates hempty] at hstep
      cases hstep
      rfl
    · obtain ⟨n, e, -, hstep⟩ := exists_step_of_notBound hfails
      rw [step_of_nothing htemplates hempty] at hstep
      cases hstep
  · refine .inr ⟨c, hc, t, ht, fun plan hplan s hs => ?_, fun uri hop fault hfails => ?_⟩
    · obtain ⟨n, e, he, hstep⟩ := exists_step_of_plan hplan hs
      rcases step_of_settlesOn htemplates hc hkeyed ht he with ⟨s', hs', hbound, -⟩ | ⟨herror, -⟩
      · rw [hstep] at hs'
        cases hs'
        exact hbound
      · rw [hstep] at herror
        cases herror
    · obtain ⟨n, e, he, hstep⟩ := exists_step_of_notBound hfails
      rcases step_of_settlesOn htemplates hc hkeyed ht he with ⟨s', hs', -⟩ | ⟨herror, hlacks⟩
      · rw [hstep] at hs'
        cases hs'
      · rw [hstep] at herror
        cases herror
        exact ⟨rfl, rfl, hlacks⟩

/-- The planner that knows one hop, with two templates to choose from. -/
def stocked : Planner := { lone with catalog := some (Catalog.after Job.copyAndZip) }

/-- A flow that would like to copy, and says for whom. -/
def servedFlow : Flow := Job.copying.withSetting "user" "me"

theorem exists_settlesOn_copy : ∃ t, t.uri = "job://copy" ∧ Job.lacking t servedFlow.config = [] ∧
    (Catalog.after Job.copyAndZip).SettlesOn servedFlow.templates t := by
  refine ⟨⟨"job://copy", "", .ofList [("mode", "fast")], ["user"]⟩, rfl, by decide, ?_⟩
  have hwanted : servedFlow.templates = ["job://none"] ++ "job://copy" :: [] := rfl
  refine .wanted hwanted rfl fun uri huri => ?_
  rw [List.mem_singleton.1 huri]
  rfl

theorem exists_plan_stocked : ∃ plan, (stocked.plan servedFlow).1 = .ok plan := by
  obtain ⟨es, hes⟩ := exists_shortestPath_lone
  obtain ⟨t, -, hcomplete, ht⟩ := exists_settlesOn_copy
  have hends : servedFlow.ends = .ok ("a", "b") := rfl
  have hnetwork : stocked.network = lone.network := rfl
  have hroute : ((Network.empty.addEdge Network.single).2.restrict lone.policy).selectRoute "a" "b"
      (stocked.path? servedFlow) = .ok es := hes
  have hsteps : ∀ e ∈ es, ∃ s, stocked.step
      ((Network.empty.addEdge Network.single).2.restrict lone.policy) servedFlow e = .ok s := by
    intro e he
    have hid := (of_network network_lone).1.containsEdge_of_selectRoute hroute he
    rcases step_of_settlesOn (p := stocked) rfl rfl (Catalog.keyed_after _) ht hid with
      ⟨s, hs, -⟩ | ⟨-, hlacks⟩
    · exact ⟨s, hs⟩
    · exact absurd hcomplete hlacks
  obtain ⟨steps, hsteps⟩ := exists_mapM_eq_ok_iff.2 hsteps
  exact ⟨_, plan_of_steps hends (hnetwork.trans network_lone) hroute hsteps⟩

/-- A flow that would like to copy, and says for whom, has a plan that copies at every step. -/
theorem plan_wholeCatalog_stocked :
    ∃ plan, (stocked.plan servedFlow).1 = .ok plan ∧
      ∀ s ∈ plan.steps, s.job.template = some "job://copy" := by
  obtain ⟨plan, hplan⟩ := exists_plan_stocked
  obtain ⟨t, huri, -, ht⟩ := exists_settlesOn_copy
  refine ⟨plan, hplan, ?_⟩
  rcases plan_wholeCatalog stocked (some Job.copyAndZip) servedFlow rfl rfl with
    ⟨hempty, -⟩ | ⟨c, hc, t', ht', hbound, -⟩
  · have hfound := ht.found
    rw [hempty _ rfl] at hfound
    cases hfound
  · cases hc
    rw [ht'.unique ht, huri] at hbound
    exact hbound plan hplan

end Planner

end Waybill
