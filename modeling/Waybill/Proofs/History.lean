import Mathlib.Data.List.Induction
import Mathlib.Data.List.Perm.Basic
import Waybill.Proofs.Alike

/-!
# What a planner remembers

A planner answers by what it knows now, and keeps nothing else of what was done with it.
That is told by a second account of the same operations, which revises not the planner
but what a new one would be made from (`Setup.revise`, `Setup.current`). After every
operation the planner reflects the setup (`Reflects.apply`), so a new planner plans as it
does (`plan_after`), whatever the order in which the topologies are given to it: both list
them by their names (`pairwise_uri_after`).
-/

namespace Waybill

/-! ## Topologies by name -/

namespace KeyMap

variable {α : Type}

theorem ofList_concat (l : List (String × α)) (e : String × α) :
    ofList (l ++ [e]) = (ofList l).insert e.1 e.2 := by
  rw [ofList, List.foldl_append]
  rfl

/-- The value of a key of a list of entries is one of the list. -/
theorem mem_of_mem_values_ofList {l : List (String × α)} {v : α}
    (h : v ∈ (ofList l).values) : ∃ k, (k, v) ∈ l := by
  induction l using List.reverseRecOn with
  | nil => cases h
  | append_singleton l e ih =>
    rw [ofList_concat] at h
    obtain ⟨entry, hentry, rfl⟩ := List.mem_map.1 h
    rcases mem_insertEntry hentry with rfl | hentry
    · exact ⟨e.1, by simp⟩
    · obtain ⟨k, hk⟩ := ih (List.mem_map_of_mem hentry)
      exact ⟨k, List.mem_append_left _ hk⟩

/-- A map of some entries holds some value. -/
theorem exists_mem_values_ofList {l : List (String × α)} (h : l ≠ []) :
    ∃ v, v ∈ (ofList l).values := by
  rcases List.eq_nil_or_concat' l with rfl | ⟨l, e, rfl⟩
  · exact absurd rfl h
  · have hget : (ofList (l ++ [e])).get? e.1 = some e.2 := by
      rw [ofList_concat, get?_insert, if_pos rfl]
    exact ⟨e.2, List.mem_map_of_mem (mem_of_findEntry hget)⟩

end KeyMap

namespace Topology

variable {ts ts' : List Topology}

/-- Topologies under their names; of two with one name the later counts. -/
def byUri (ts : List Topology) : KeyMap Topology :=
  .ofList (ts.map fun t => (t.uri, t))

/-- The topologies with one more, in place of the one that had its name. -/
def adding (ts : List Topology) (t : Topology) : List Topology :=
  ts.filter (·.uri ≠ t.uri) ++ [t]

/-- No two topologies have one name. -/
def Distinct (ts : List Topology) : Prop := (ts.map (·.uri)).Nodup

theorem byUri_concat (ts : List Topology) (t : Topology) :
    byUri (ts ++ [t]) = (byUri ts).insert t.uri t := by
  rw [byUri, List.map_append]
  exact KeyMap.ofList_concat _ (t.uri, t)

theorem byUri_filter (ts : List Topology) (uri : String) :
    byUri (ts.filter (·.uri ≠ uri)) = (byUri ts).erase uri := by
  induction ts using List.reverseRecOn with
  | nil => rfl
  | append_singleton ts t ih =>
    rw [List.filter_append, byUri_concat]
    refine KeyMap.ext_get? fun k => ?_
    by_cases ht : t.uri = uri
    · rw [List.filter_cons_of_neg (by simpa using ht), List.filter_nil, List.append_nil, ih,
        KeyMap.get?_erase, KeyMap.get?_erase, KeyMap.get?_insert]
      by_cases hk : k = uri <;> simp [hk, ht]
    · rw [List.filter_cons_of_pos (by simpa using ht), List.filter_nil, byUri_concat, ih,
        KeyMap.get?_erase, KeyMap.get?_insert, KeyMap.get?_insert, KeyMap.get?_erase]
      by_cases hk : k = t.uri <;> simp [hk, ht]

/-- Adding to the list is setting in the map. -/
theorem byUri_adding (ts : List Topology) (t : Topology) :
    byUri (adding ts t) = (byUri ts).insert t.uri t := by
  rw [adding, byUri_concat, byUri_filter]
  refine KeyMap.ext_get? fun k => ?_
  rw [KeyMap.get?_insert, KeyMap.get?_insert, KeyMap.get?_erase]
  by_cases hk : k = t.uri <;> simp [hk]

theorem Distinct.filter (h : Distinct ts) (uri : String) : Distinct (ts.filter (·.uri ≠ uri)) :=
  List.Nodup.sublist (List.filter_sublist.map _) h

/-- A list stays without repetitions when what had the name is replaced. -/
theorem Distinct.adding (h : Distinct ts) (t : Topology) : Distinct (adding ts t) := by
  unfold Distinct Topology.adding
  rw [List.map_append, List.map_singleton, List.nodup_append]
  refine ⟨h.filter t.uri, List.nodup_singleton _, fun uri huri uri' huri' => ?_⟩
  obtain ⟨t', ht', rfl⟩ := List.mem_map.1 huri
  rw [List.mem_singleton.1 huri']
  simpa using (List.mem_filter.1 ht').2

/-- In whatever order they are put there, topologies of different names are the same under
their names. -/
theorem byUri_eq_of_perm (h : Distinct ts) (hperm : ts.Perm ts') : byUri ts = byUri ts' := by
  unfold byUri KeyMap.ofList
  rw [List.foldl_map, List.foldl_map]
  refine hperm.foldl_eq' (fun t ht t' ht' m => ?_) _
  by_cases htt : t = t'
  · rw [htt]
  · have hne : t.uri ≠ t'.uri := fun huri => htt (List.inj_on_of_nodup_map h ht ht' huri)
    refine KeyMap.ext_get? fun k => ?_
    simp only [KeyMap.get?_insert]
    by_cases hk : k = t.uri
    · simp [hk, hne]
    · simp [hk]

end Topology

/-! ## Operations -/

/-- What may be done with a planner. -/
inductive Planner.Operation where
  | plan (flow : Flow)
  | register (t : Topology)
  | unregister (uri : String)
  | reload (config : Properties)
  | addTemplate (t : Template)
  | removeTemplate (uri : String)
  | takePictures

namespace Planner

/-- The planner after an operation, whatever the operation answers. -/
def apply (p : Planner) : Operation → Planner
  | .plan flow => (p.plan flow).2
  | .register t => (p.register t).2
  | .unregister uri => (p.unregister uri).2
  | .reload config => (p.reload config).2
  | .addTemplate t => (p.addTemplate t).2
  | .removeTemplate uri => (p.removeTemplate uri).2
  | .takePictures => p.takePictures.2

/-- The planner after some operations. -/
def after (p : Planner) (ops : List Operation) : Planner := ops.foldl apply p

end Planner

namespace Setup

/-- What a planner would be made from after an operation: settings count once they give a
policy, and to plan makes no difference. -/
def revise (s : Setup) : Planner.Operation → Setup
  | .plan _ => s
  | .register t => { s with topologies := Topology.adding s.topologies t }
  | .unregister uri => { s with topologies := s.topologies.filter (·.uri ≠ uri) }
  | .reload config =>
    match Policy.ofConfig s.registry config with
    | .ok _ => { s with config }
    | .error _ => s
  | .addTemplate t => { s with catalog := s.catalog.map (·.add t) }
  | .removeTemplate uri => { s with catalog := s.catalog.map (·.erase uri) }
  | .takePictures => s

/-- What a planner would be made from after some operations, each topology once. -/
def current (s : Setup) (ops : List Planner.Operation) : Setup :=
  ops.foldl revise { s with topologies := s.topologies.foldl Topology.adding [] }

end Setup

/-! ## The planner and the setup -/

/-- A planner knows what is in a setup. -/
structure Reflects (s : Setup) (p : Planner) : Prop where
  registry : p.registry = s.registry
  policy : Policy.ofConfig s.registry s.config = .ok p.policy
  catalog : p.catalog = s.catalog
  edgeTemplates : p.edgeTemplates = s.edgeTemplates
  topologies : p.topologies = Topology.byUri s.topologies

variable {s : Setup} {p : Planner}

/-- To plan leaves a network and a picture behind, and nothing that planners know. -/
theorem Reflects.plan (h : Reflects s p) (flow : Flow) : Reflects s (p.plan flow).2 := by
  unfold Planner.plan
  split
  · exact h
  · split
    · exact h
    · exact ⟨h.registry, h.policy, h.catalog, h.edgeTemplates, h.topologies⟩

/-- **An operation changes the planner as it changes the setup.** -/
theorem Reflects.apply (h : Reflects s p) (op : Planner.Operation) :
    Reflects (s.revise op) (p.apply op) := by
  obtain ⟨hregistry, hpolicy, hcatalog, htemplates, htopologies⟩ := h
  cases op with
  | plan flow =>
    exact Reflects.plan ⟨hregistry, hpolicy, hcatalog, htemplates, htopologies⟩ flow
  | register t =>
    refine ⟨hregistry, hpolicy, hcatalog, htemplates, ?_⟩
    rw [Setup.revise, Topology.byUri_adding, ← htopologies]
    rfl
  | unregister uri =>
    refine ⟨hregistry, hpolicy, hcatalog, htemplates, ?_⟩
    rw [Setup.revise, Topology.byUri_filter, ← htopologies]
    rfl
  | reload config =>
    rw [Setup.revise, Planner.apply, Planner.reload, hregistry]
    rcases hread : Policy.ofConfig s.registry config with e | policy
    · exact ⟨hregistry, hpolicy, hcatalog, htemplates, htopologies⟩
    · exact ⟨rfl, hread, hcatalog, htemplates, htopologies⟩
  | addTemplate t =>
    refine ⟨hregistry, hpolicy, ?_, htemplates, htopologies⟩
    rw [Setup.revise, ← hcatalog]
    rfl
  | removeTemplate uri =>
    refine ⟨hregistry, hpolicy, ?_, htemplates, htopologies⟩
    rw [Setup.revise, ← hcatalog]
    rfl
  | takePictures => exact ⟨hregistry, hpolicy, hcatalog, htemplates, htopologies⟩

/-- **So do many.** -/
theorem Reflects.foldl_apply (h : Reflects s p) (ops : List Planner.Operation) :
    Reflects (ops.foldl Setup.revise s) (ops.foldl Planner.apply p) := by
  induction ops generalizing s p with
  | nil => exact h
  | cons op ops ih => exact ih (h.apply op)

/-- No revision brings one name twice into a setup. -/
theorem Setup.distinct_foldl_revise (h : Topology.Distinct s.topologies)
    (ops : List Planner.Operation) : Topology.Distinct (ops.foldl revise s).topologies := by
  induction ops generalizing s with
  | nil => exact h
  | cons op ops ih =>
    refine ih ?_
    cases op with
    | register t => exact h.adding t
    | unregister uri => exact h.filter uri
    | reload config =>
      simp only [revise]
      split <;> exact h
    | plan _ => exact h
    | addTemplate _ => exact h
    | removeTemplate _ => exact h
    | takePictures => exact h

/-! ## Making a planner -/

/-- Each topology once is what is kept of them under their names. -/
theorem Topology.foldl_adding (ts : List Topology) :
    Distinct (ts.foldl Topology.adding []) ∧ byUri (ts.foldl Topology.adding []) = byUri ts := by
  induction ts using List.reverseRecOn with
  | nil => exact ⟨List.nodup_nil, rfl⟩
  | append_singleton ts t ih =>
    rw [List.foldl_append, byUri_concat, ← ih.2]
    exact ⟨ih.1.adding t, byUri_adding _ t⟩

/-- A planner that is made reflects what it is made from. -/
theorem Setup.reflects_of_build (h : s.build = .ok p) : Reflects s p := by
  obtain ⟨policy, limit, hpolicy, rfl⟩ := eq_of_build h
  exact ⟨rfl, hpolicy, rfl, rfl, rfl⟩

/-- With a time limit a planner is made if the settings give a policy. -/
theorem Setup.exists_build {policy : Policy} (h : Policy.ofConfig s.registry s.config = .ok policy)
    {limit : Nat} (hlimit : s.queryTimeout = some limit) :
    ∃ q, s.build = .ok q ∧ Reflects s q ∧ q.queryTimeout = limit := by
  have hbuild : ∃ q, s.build = .ok q ∧ q.queryTimeout = limit := by
    unfold build
    rw [h, hlimit]
    exact ⟨_, rfl, rfl⟩
  obtain ⟨q, hq, hlimit⟩ := hbuild
  exact ⟨q, hq, reflects_of_build hq, hlimit⟩

theorem Planner.queryTimeout_apply (p : Planner) (op : Operation) :
    (p.apply op).queryTimeout = p.queryTimeout := by
  cases op with
  | plan flow =>
    simp only [apply, plan]
    split
    · rfl
    · split <;> rfl
  | reload config =>
    simp only [apply, reload]
    split <;> rfl
  | register _ => rfl
  | unregister _ => rfl
  | addTemplate _ => rfl
  | removeTemplate _ => rfl
  | takePictures => rfl

theorem Planner.queryTimeout_after (p : Planner) (ops : List Operation) :
    (p.after ops).queryTimeout = p.queryTimeout := by
  induction ops generalizing p with
  | nil => rfl
  | cons op ops ih => exact (ih (p.apply op)).trans (p.queryTimeout_apply op)

/-- Every topology stays under its own name. -/
theorem Planner.named_after (h : Named p.topologies) (ops : List Operation) :
    Named (p.after ops).topologies := by
  induction ops generalizing p with
  | nil => exact h
  | cons op ops ih =>
    refine ih ?_
    cases op with
    | plan flow =>
      rw [apply, topologies_plan]
      exact h
    | register t => exact named_register h t
    | unregister uri => exact named_unregister h uri
    | reload config =>
      rw [apply, topologies_reload]
      exact h
    | addTemplate _ => exact h
    | removeTemplate _ => exact h
    | takePictures => exact h

/-- **Whatever was done, topologies are asked in the order of their names.** -/
theorem Planner.pairwise_uri_after (h : s.build = .ok p) (ops : List Operation) :
    (p.after ops).topologies.values.Pairwise fun t t' => t.uri < t'.uri :=
  (named_after (Setup.named_of_build h) ops).pairwise_uri_lt

/-- Planners that reflect one setup plan alike. -/
theorem Reflects.fst_plan_eq {q : Planner} (h : Reflects s p) (h' : Reflects s q)
    (hlimit : p.queryTimeout = q.queryTimeout) (flow : Flow) :
    (p.plan flow).1 = (q.plan flow).1 := by
  have hpolicy : p.policy = q.policy := Except.ok.inj (h.policy.symm.trans h'.policy)
  have hcatalog : p.catalog = q.catalog := h.catalog.trans h'.catalog.symm
  have htemplates : p.edgeTemplates = q.edgeTemplates := h.edgeTemplates.trans h'.edgeTemplates.symm
  have htopologies : p.topologies = q.topologies := h.topologies.trans h'.topologies.symm
  -- a plan is made of nothing else
  obtain ⟨⟩ := p
  obtain ⟨⟩ := q
  dsimp only at *
  subst hpolicy hcatalog htemplates htopologies hlimit
  rw [Planner.fst_plan, Planner.fst_plan]
  rfl

/-- The setup with its topologies in another order is the same to planners. -/
theorem Reflects.perm (h : Reflects s p) (hdistinct : Topology.Distinct s.topologies)
    {ts : List Topology} (hperm : ts.Perm s.topologies) :
    Reflects { s with topologies := ts } p :=
  ⟨h.registry, h.policy, h.catalog, h.edgeTemplates,
    h.topologies.trans (Topology.byUri_eq_of_perm hdistinct hperm.symm)⟩

namespace Planner

/-- **What was done with a planner leaves no trace**: a new one plans as it does, that is
made from the settings accepted last, from the catalog of the time and from the topologies
of the time in any order, with the same registry, edge templates and time limit. -/
theorem plan_after (h : s.build = .ok p) (ops : List Operation) {ts : List Topology}
    (hperm : ts.Perm (s.current ops).topologies) (flow : Flow) :
    ∃ q, { s.current ops with
        topologies := ts, queryTimeout := some p.queryTimeout }.build = .ok q ∧
      (q.plan flow).1 = ((p.after ops).plan flow).1 := by
  have hstart : Reflects { s with topologies := s.topologies.foldl Topology.adding [] } p := by
    obtain ⟨hregistry, hpolicy, hcatalog, htemplates, htopologies⟩ := Setup.reflects_of_build h
    exact ⟨hregistry, hpolicy, hcatalog, htemplates,
      htopologies.trans (Topology.foldl_adding s.topologies).2.symm⟩
  have hdistinct := Setup.distinct_foldl_revise (s := { s with topologies := _ })
    (Topology.foldl_adding s.topologies).1 ops
  have hend : Reflects { s.current ops with topologies := ts } (p.after ops) :=
    (hstart.foldl_apply ops).perm hdistinct hperm
  obtain ⟨q, hq, hreflects, hlimit⟩ := Setup.exists_build
    (s := { s.current ops with topologies := ts, queryTimeout := some p.queryTimeout })
    hend.policy rfl
  refine ⟨q, hq, ?_⟩
  have hreflects' : Reflects { s.current ops with topologies := ts } q :=
    ⟨hreflects.registry, hreflects.policy, hreflects.catalog, hreflects.edgeTemplates,
      hreflects.topologies⟩
  exact hreflects'.fst_plan_eq hend (hlimit.trans (queryTimeout_after p ops).symm) flow

/-- An engine that offers one hop, under two names. -/
def twiceNamed : Setup :=
  { Setup.ofConfig ∅ with
    topologies := ["x", "y"].map fun uri => ⟨uri, "", default, .offered 0 [⟨"a", "b", ∅⟩]⟩
    queryTimeout := some Setting.defaultQueryTimeout }

/-- Plans and settings that are refused, and a name that is taken away and given again. -/
def detours : List Operation :=
  [.plan loneFlow, .reload (KeyMap.empty.insert Setting.policyName "none"), .unregister "x",
    .plan (.ofUrl default ∅), .register ⟨"x", "", default, .offered 0 [⟨"a", "b", ∅⟩]⟩]

/-- After some detours a planner plans like the new one, though its topologies were
registered in another order. -/
theorem plan_after_detours :
    ∃ p, twiceNamed.build = .ok p ∧
      twiceNamed.topologies.Perm (twiceNamed.current detours).topologies ∧
      twiceNamed.topologies ≠ (twiceNamed.current detours).topologies ∧
      ∃ q, { twiceNamed.current detours with
          topologies := twiceNamed.topologies, queryTimeout := some p.queryTimeout }.build = .ok q ∧
        (q.plan loneFlow).1 = ((p.after detours).plan loneFlow).1 := by
  have hpolicy : Policy.ofConfig twiceNamed.registry twiceNamed.config =
      .ok ⟨.declared, .empty, none⟩ := rfl
  obtain ⟨p, hp, -⟩ := Setup.exists_build hpolicy rfl
  have hperm : twiceNamed.topologies.Perm (twiceNamed.current detours).topologies := by decide
  exact ⟨p, hp, hperm, by decide, plan_after hp detours hperm loneFlow⟩

end Planner

end Waybill
