import Mathlib.Data.List.Induction
import Waybill.Proofs.Soundness

/-!
# How jobs are bound to templates

A hop may use the templates that its edge is offered (`EdgeTemplates.Advertises`), and one of
them is chosen (`Job.Chosen`). Then the job is bound to that one or there is no job: that
another template would do, or that the flow alone would, makes no difference (`ofHop_exact`).
Only a hop that is offered nothing carries the flow's settings alone.
-/

namespace Waybill

/-! ## Catalogs -/

namespace Catalog

/-- What may be done with a catalog. -/
inductive Change where
  | add (t : Template)
  | remove (uri : String)

/-- The catalog after a change. -/
def apply (c : Catalog) : Change → Catalog
  | .add t => c.add t
  | .remove uri => c.erase uri

/-- The catalog after some changes to the empty one. -/
def after (changes : List Change) : Catalog := changes.foldl apply .empty

/-- **Templates stay under their own names.** -/
theorem keyed_after (changes : List Change) : (after changes).Keyed (·.uri) := by
  induction changes using List.reverseRecOn with
  | nil => exact nofun
  | append_singleton changes change ih =>
    rw [after, List.foldl_append]
    cases change with
    | add t => exact KeyMap.Keyed.insert ih t
    | remove uri => exact KeyMap.Keyed.erase ih uri

end Catalog

/-! ## What an edge is offered -/

namespace EdgeTemplates

/-- The names of the templates that an edge is offered: those of the whole catalog in ascending
order, or those listed last for it, each where it first stands. -/
inductive Advertises (catalog : Option Catalog) (id : EdgeId) :
    EdgeTemplates → List String → Prop
  | noCatalog (h : catalog = none) : Advertises catalog id .wholeCatalog []
  | wholeCatalog {c : Catalog} {uris : List String} (h : catalog = some c)
      (ascending : uris.Pairwise (· < ·)) (mem_iff : ∀ uri, uri ∈ uris ↔ ∃ t, c.get? uri = some t) :
      Advertises catalog id .wholeCatalog uris
  | listed {before later : List (EdgeId × List String)} {uris : List String}
      (last : ∀ l ∈ later, l.1 ≠ id) :
      Advertises catalog id (.listed (before ++ (id, uris) :: later)) uris.eraseDups
  | unlisted {lists : List (EdgeId × List String)} (h : ∀ l ∈ lists, l.1 ≠ id) :
      Advertises catalog id (.listed lists) []

variable {n : Network} {id : EdgeId}

/-- **Every edge is offered the keys of the catalog.** -/
theorem candidates_wholeCatalog {c : Catalog} (hid : n.containsEdge id)
    (hkeyed : c.Keyed (·.uri)) : wholeCatalog.candidates n (some c) id = c.keys := by
  unfold candidates
  rw [if_pos hid]
  exact KeyMap.Keyed.map_values hkeyed

/-- **The candidates of an edge are what it is offered.** -/
theorem advertises_candidates (hid : n.containsEdge id) (templates : EdgeTemplates)
    {catalog : Option Catalog} (h : ∀ c ∈ catalog, c.Keyed (·.uri)) :
    templates.Advertises catalog id (templates.candidates n catalog id) := by
  cases templates with
  | wholeCatalog =>
    rcases catalog with _ | c
    · unfold candidates
      rw [if_pos hid]
      exact .noCatalog rfl
    · rw [candidates_wholeCatalog hid (h c rfl)]
      exact .wholeCatalog rfl c.pairwise_keys fun _ => KeyMap.mem_keys_iff
  | listed lists =>
    unfold candidates
    rw [if_pos hid]
    dsimp only
    rcases hlast : lists.reverse.find? (·.1 = id) with _ | ⟨id', uris⟩
    · rw [hlast]
      refine .unlisted fun l hl => ?_
      simpa using List.find?_eq_none.1 hlast l (List.mem_reverse.2 hl)
    · obtain ⟨hid', later, before, hlists, hlater⟩ := List.find?_eq_some_iff_append.1 hlast
      have heq : lists = before.reverse ++ (id', uris) :: later.reverse := by
        simpa using congrArg List.reverse hlists
      obtain rfl : id' = id := by simpa using hid'
      rw [hlast, heq]
      exact .listed fun l hl => by simpa using hlater l (List.mem_reverse.1 hl)

end EdgeTemplates

namespace Job

variable {wanted candidates : List String} {uri : String}
variable {catalog : Option Catalog} {config : Properties} {fault : BindingFault}

/-! ## Which template is chosen -/

/-- The first wanted template that may be used, or else the first that may be used. -/
inductive Chosen (wanted candidates : List String) (uri : String) : Prop
  | wanted {before later : List String} (h : wanted = before ++ uri :: later)
      (offered : uri ∈ candidates) (first : ∀ u ∈ before, u ∉ candidates)
  | first {rest : List String} (h : candidates = uri :: rest)
      (unwanted : ∀ u ∈ wanted, u ∉ candidates)

/-- A template is chosen if it is the one that the rule names. -/
theorem choose_eq_some_iff :
    choose wanted candidates = some uri ↔ Chosen wanted candidates uri := by
  unfold choose
  constructor
  · intro h
    rcases hfound : wanted.find? candidates.contains with _ | u
    · rw [hfound, Option.none_or, List.head?_eq_some_iff] at h
      obtain ⟨rest, h⟩ := h
      exact .first h (by simpa using List.find?_eq_none.1 hfound)
    · rw [hfound, Option.some_or, Option.some_inj] at h
      subst h
      obtain ⟨hoffered, before, later, h, hbefore⟩ := List.find?_eq_some_iff_append.1 hfound
      exact .wanted h (by simpa using hoffered) (by simpa using hbefore)
  · rintro (⟨h, hoffered, hbefore⟩ | ⟨h, hunwanted⟩)
    · have hfound : wanted.find? candidates.contains = some uri :=
        List.find?_eq_some_iff_append.2 ⟨by simpa using hoffered, _, _, h, by simpa using hbefore⟩
      rw [hfound, Option.some_or]
    · have hfound : wanted.find? candidates.contains = none :=
        List.find?_eq_none.2 (by simpa using hunwanted)
      rw [hfound, Option.none_or, h, List.head?_cons]

theorem Chosen.unique {uri' : String} (h : Chosen wanted candidates uri)
    (h' : Chosen wanted candidates uri') : uri = uri' :=
  Option.some.inj ((choose_eq_some_iff.2 h).symm.trans (choose_eq_some_iff.2 h'))

theorem choose_eq_none_iff : choose wanted candidates = none ↔ candidates = [] := by
  unfold choose
  rw [Option.or_eq_none_iff, List.head?_eq_none_iff, List.find?_eq_none]
  constructor
  · exact fun h => h.2
  · rintro rfl
    simp

/-! ## What a template completes -/

/-- The keys that a template requires and that neither it nor some settings give. -/
def lacking (t : Template) (config : Properties) : List String :=
  t.requiredKeys.filter fun key => config.get? key = none ∧ t.config.get? key = none

/-- The keys that are missing are those without a value in the flow or the template. -/
theorem missingKeys_eq_lacking (t : Template) (config : Properties) :
    t.missingKeys config = lacking t config := by
  refine List.filter_congr fun key _ => ?_
  rw [KeyMap.contains, KeyMap.get?_atop]
  rcases config.get? key with _ | value <;> rcases t.config.get? key with _ | value <;> rfl

/-- Why a template cannot be used: there is no catalog, the catalog lacks it, or settings that
it requires are given nowhere. -/
inductive Refuses (catalog : Option Catalog) (uri : String) (config : Properties) :
    BindingFault → Prop
  | noCatalog (h : catalog = none) : Refuses catalog uri config .noCatalog
  | notFound {c : Catalog} (h : catalog = some c) (missing : c.get? uri = none) :
      Refuses catalog uri config (.notFound ⟨uri⟩)
  | incomplete {c : Catalog} {t : Template} (h : catalog = some c) (found : c.get? uri = some t)
      (lacks : lacking t config ≠ []) : Refuses catalog uri config (.incomplete ⟨lacking t config⟩)

/-- A template can be used: the catalog has it, and what it requires is given. -/
structure Admits (catalog : Option Catalog) (uri : String) (config : Properties) (t : Template) :
    Prop where
  found : ∃ c, catalog = some c ∧ c.get? uri = some t
  complete : ∀ key ∈ t.requiredKeys,
    (∃ value, config.get? key = some value) ∨ ∃ value, t.config.get? key = some value

/-- Nothing is lacking if every required key has a value, from the flow or from the
template. -/
theorem lacking_eq_nil_iff {t : Template} : lacking t config = [] ↔ ∀ key ∈ t.requiredKeys,
    (∃ value, config.get? key = some value) ∨ ∃ value, t.config.get? key = some value := by
  simp only [lacking, List.filter_eq_nil_iff, decide_eq_true_eq, not_and_or,
    ← Option.ne_none_iff_exists', ne_eq]

/-- A template that lacks nothing is put under the settings of the flow; otherwise all
that it lacks is told. -/
theorem resolve_eq (t : Template) (config : Properties) : t.resolve config =
    if lacking t config = [] then .ok (config.atop t.config) else .error ⟨lacking t config⟩ := by
  unfold Template.resolve
  rw [missingKeys_eq_lacking]
  split
  · next h => rw [h, if_pos rfl]
  · next h => rw [if_neg h]

theorem complete_of_admits {t : Template} (h : Admits catalog uri config t) :
    complete catalog uri config = .ok (config.atop t.config) := by
  obtain ⟨⟨c, rfl, hfound⟩, hcomplete⟩ := h
  simp only [complete, Catalog.find, hfound, resolve_eq, if_pos (lacking_eq_nil_iff.2 hcomplete)]

/-- A template that refuses is not completed, and says why. -/
theorem complete_of_refuses (h : Refuses catalog uri config fault) :
    complete catalog uri config = .error fault := by
  cases h with
  | noCatalog h =>
    rw [h]
    rfl
  | notFound h hmissing => simp only [complete, h, Catalog.find, hmissing]
  | incomplete h hfound hlacks =>
    simp only [complete, h, Catalog.find, hfound, resolve_eq, if_neg hlacks]

/-- **A template can be used or is refused for a reason.** -/
theorem admits_or_refuses (catalog : Option Catalog) (uri : String) (config : Properties) :
    (∃ t, Admits catalog uri config t) ∨ ∃ fault, Refuses catalog uri config fault := by
  rcases hcatalog : catalog with _ | c
  · exact .inr ⟨_, .noCatalog rfl⟩
  rcases hfound : c.get? uri with _ | t
  · exact .inr ⟨_, .notFound rfl hfound⟩
  by_cases hlacks : lacking t config = []
  · exact .inl ⟨t, ⟨c, rfl, hfound⟩, lacking_eq_nil_iff.1 hlacks⟩
  · exact .inr ⟨_, .incomplete rfl hfound hlacks⟩

/-! ## The job of a hop -/

section Hop

variable {templates : EdgeTemplates} {n : Network} {flow : Flow} {id : EdgeId}
variable {source target : String} {uris : List String} {job : Job} {e : PlanError}

/-- A job is named after its hop and described as its flow is. -/
structure Tells (flow : Flow) (source target : String) (job : Job) : Prop where
  uri : job.uri = uriFor flow.uri source target
  description : job.description = flow.description
  version : job.version = flow.version

/-- A hop without candidates carries the flow alone. -/
theorem ofHop_of_candidates_eq_nil (h : templates.candidates n catalog id = []) :
    ofHop templates n catalog flow id source target = .ok (plain flow source target) := by
  have hchoose : choose flow.templates (templates.candidates n catalog id) = none :=
    choose_eq_none_iff.2 h
  simp only [ofHop, hchoose]

/-- A hop whose chosen template admits it is bound to that template. -/
theorem ofHop_of_admits {t : Template}
    (h : Chosen flow.templates (templates.candidates n catalog id) uri)
    (hadmits : Admits catalog uri flow.config t) :
    ofHop templates n catalog flow id source target = .ok { plain flow source target with
      config := flow.config.atop t.config, template := some uri } := by
  have hchoose := choose_eq_some_iff.2 h
  simp only [ofHop, hchoose, complete_of_admits hadmits]

/-- A hop whose chosen template refuses is no job; no other candidate is tried. -/
theorem ofHop_of_refuses (h : Chosen flow.templates (templates.candidates n catalog id) uri)
    (hrefuses : Refuses catalog uri flow.config fault) :
    ofHop templates n catalog flow id source target =
      .error (.notBound uri (source ++ "-" ++ target) fault) := by
  have hchoose := choose_eq_some_iff.2 h
  simp only [ofHop, hchoose, complete_of_refuses hrefuses]

/-- **A hop is offered nothing, or what is chosen of its offers can be used or is refused.** -/
theorem hop_cases (catalog : Option Catalog) (flow : Flow) (uris : List String) :
    uris = [] ∨ ∃ uri, Chosen flow.templates uris uri ∧
      ((∃ t, Admits catalog uri flow.config t) ∨
        ∃ fault, Refuses catalog uri flow.config fault) := by
  rcases hchoose : choose flow.templates uris with _ | uri
  · exact .inl (choose_eq_none_iff.1 hchoose)
  · exact .inr ⟨uri, choose_eq_some_iff.1 hchoose, admits_or_refuses catalog uri flow.config⟩

/-- A job that was made came about in one of the two ways. -/
theorem of_ofHop_eq_ok (h : ofHop templates n catalog flow id source target = .ok job) :
    Tells flow source target job ∧
      ((templates.candidates n catalog id = [] ∧ job.template = none ∧ job.config = flow.config) ∨
      ∃ uri t, Chosen flow.templates (templates.candidates n catalog id) uri ∧
        Admits catalog uri flow.config t ∧ job.template = some uri ∧
        ∀ key, job.config.get? key = (flow.config.get? key).or (t.config.get? key)) := by
  rcases hop_cases catalog flow (templates.candidates n catalog id) with
    hnil | ⟨uri, hchosen, ⟨t, hadmits⟩ | ⟨fault, hrefuses⟩⟩
  · rw [ofHop_of_candidates_eq_nil hnil] at h
    cases h
    exact ⟨⟨rfl, rfl, rfl⟩, .inl ⟨hnil, rfl, rfl⟩⟩
  · rw [ofHop_of_admits hchosen hadmits] at h
    cases h
    exact ⟨⟨rfl, rfl, rfl⟩, .inr ⟨uri, t, hchosen, hadmits, rfl, KeyMap.get?_atop _ _⟩⟩
  · rw [ofHop_of_refuses hchosen hrefuses] at h
    cases h

theorem of_ofHop_eq_error (h : ofHop templates n catalog flow id source target = .error e) :
    ∃ uri fault, Chosen flow.templates (templates.candidates n catalog id) uri ∧
      Refuses catalog uri flow.config fault ∧
      e = .notBound uri (source ++ "-" ++ target) fault := by
  rcases hop_cases catalog flow (templates.candidates n catalog id) with
    hnil | ⟨uri, hchosen, ⟨t, hadmits⟩ | ⟨fault, hrefuses⟩⟩
  · rw [ofHop_of_candidates_eq_nil hnil] at h
    cases h
  · rw [ofHop_of_admits hchosen hadmits] at h
    cases h
  · rw [ofHop_of_refuses hchosen hrefuses] at h
    cases h
    exact ⟨uri, fault, hchosen, hrefuses, rfl⟩

/-- **Jobs are bound to templates exactly as their edges, their flows and the catalog say**, over
every edge of a network that is reached and from every catalog that is, or from none. A hop is
left without a template just if its edge is offered none, and then has the settings of the flow
alone. It is bound just if the chosen template is in the catalog and lacks nothing that it
requires, and then has the settings of the flow before those of the template. In all other cases
there is no job, and the chosen template is blamed for the hop. -/
theorem ofHop_exact (ops : List Network.Operation) {edge : Edge}
    (hedge : edge ∈ (Network.after ops).edges) (templates : EdgeTemplates)
    (changes : Option (List Catalog.Change)) (flow : Flow) (source target : String) :
    ∃ uris, templates.Advertises (changes.map Catalog.after) edge.id uris ∧
    ((∃ job, ofHop templates (Network.after ops) (changes.map Catalog.after) flow edge.id
      source target = .ok job ∧ job.template = none) ↔ uris = []) ∧
    ((∃ job uri, ofHop templates (Network.after ops) (changes.map Catalog.after) flow edge.id
      source target = .ok job ∧ job.template = some uri) ↔
      ∃ uri t, Chosen flow.templates uris uri ∧
        Admits (changes.map Catalog.after) uri flow.config t) ∧
    (∀ job, ofHop templates (Network.after ops) (changes.map Catalog.after) flow edge.id
      source target = .ok job →
      Tells flow source target job ∧
      (job.template = none → job.config = flow.config) ∧
      ∀ uri, job.template = some uri → Chosen flow.templates uris uri ∧
        ∃ t, Admits (changes.map Catalog.after) uri flow.config t ∧
          ∀ key, job.config.get? key = (flow.config.get? key).or (t.config.get? key)) ∧
    ∀ e, ofHop templates (Network.after ops) (changes.map Catalog.after) flow edge.id
      source target = .error e ↔
      ∃ uri fault, Chosen flow.templates uris uri ∧
        Refuses (changes.map Catalog.after) uri flow.config fault ∧
        e = .notBound uri (source ++ "-" ++ target) fault := by
  have hid : (Network.after ops).containsEdge edge.id :=
    (Network.wellFormed_after ops).containsEdge_iff.2 ⟨edge, hedge, rfl⟩
  have hkeyed : ∀ c ∈ changes.map Catalog.after, c.Keyed (·.uri) := by
    intro c hc
    obtain ⟨changes, -, rfl⟩ := Option.map_eq_some_iff.1 hc
    exact Catalog.keyed_after changes
  refine ⟨_, EdgeTemplates.advertises_candidates hid templates hkeyed, ⟨?_, ?_⟩, ⟨?_, ?_⟩, ?_, ?_⟩
  · rintro ⟨job, hjob, hnone⟩
    obtain ⟨-, ⟨hnil, -, -⟩ | ⟨uri, t, -, -, hsome, -⟩⟩ := of_ofHop_eq_ok hjob
    · exact hnil
    · rw [hnone] at hsome
      cases hsome
  · exact fun hnil => ⟨_, ofHop_of_candidates_eq_nil hnil, rfl⟩
  · rintro ⟨job, uri, hjob, hsome⟩
    obtain ⟨-, ⟨-, hnone, -⟩ | ⟨uri, t, hchosen, hadmits, -, -⟩⟩ := of_ofHop_eq_ok hjob
    · rw [hnone] at hsome
      cases hsome
    · exact ⟨uri, t, hchosen, hadmits⟩
  · rintro ⟨uri, t, hchosen, hadmits⟩
    exact ⟨_, uri, ofHop_of_admits hchosen hadmits, rfl⟩
  · intro job hjob
    obtain ⟨htells, ⟨-, hnone, hconfig⟩ | ⟨uri, t, hchosen, hadmits, hsome, hconfig⟩⟩ :=
      of_ofHop_eq_ok hjob
    · refine ⟨htells, fun _ => hconfig, fun uri hsome => ?_⟩
      rw [hnone] at hsome
      cases hsome
    · refine ⟨htells, fun hnone => ?_, fun uri' hsome' => ?_⟩
      · rw [hnone] at hsome
        cases hsome
      · rw [hsome] at hsome'
        cases hsome'
        exact ⟨hchosen, t, hadmits, hconfig⟩
  · refine fun e => ⟨of_ofHop_eq_error, ?_⟩
    rintro ⟨uri, fault, hchosen, hrefuses, rfl⟩
    exact ofHop_of_refuses hchosen hrefuses

end Hop

/-- Two templates, of which the first asks for a user. -/
def copyAndZip : List Catalog.Change :=
  [.add ⟨"job://zip", "", ∅, []⟩, .add ⟨"job://copy", "", .ofList [("mode", "fast")], ["user"]⟩]

/-- A flow that would like a template that is not there, or else to copy. -/
def copying : Flow := Planner.loneFlow.withTemplates ["job://none", "job://copy"]

theorem chosen_copying {uris : List String} {flow : Flow}
    (h : EdgeTemplates.wholeCatalog.Advertises (some (Catalog.after copyAndZip))
      Network.single.id uris)
    (hflow : flow.templates = ["job://none"] ++ "job://copy" :: []) :
    Chosen flow.templates uris "job://copy" := by
  cases h with
  | noCatalog h => cases h
  | wholeCatalog h _ hmem =>
    cases h
    refine .wanted hflow ((hmem _).2 ⟨_, rfl⟩) fun uri huri => ?_
    rw [List.mem_singleton.1 huri, hmem]
    rintro ⟨t, ht⟩
    cases ht

/-- A flow without a user is not bound to the other template, and one with a user is bound. -/
theorem ofHop_exact_copying :
    ofHop .wholeCatalog (Network.after [.addEdge Network.single])
      (some (Catalog.after copyAndZip)) copying Network.single.id "a" "b" =
      .error (.notBound "job://copy" "a-b" (.incomplete ⟨["user"]⟩)) ∧
    ∃ job, ofHop .wholeCatalog (Network.after [.addEdge Network.single])
      (some (Catalog.after copyAndZip)) (copying.withSetting "user" "me") Network.single.id
      "a" "b" = .ok job ∧ job.template = some "job://copy" := by
  have hedge := Network.mem_edges_after_single.2 rfl
  obtain ⟨uris, hadvertises, -, -, -, hfailed⟩ := ofHop_exact [.addEdge Network.single] hedge
    .wholeCatalog (some copyAndZip) copying "a" "b"
  obtain ⟨uris', hadvertises', -, hbound, hjob, -⟩ := ofHop_exact [.addEdge Network.single] hedge
    .wholeCatalog (some copyAndZip) (copying.withSetting "user" "me") "a" "b"
  have hlacks : Refuses (some (Catalog.after copyAndZip)) "job://copy" copying.config
      (.incomplete ⟨["user"]⟩) :=
    .incomplete (t := ⟨"job://copy", "", .ofList [("mode", "fast")], ["user"]⟩) rfl rfl (by decide)
  have hadmits : Admits (some (Catalog.after copyAndZip)) "job://copy"
      (copying.withSetting "user" "me").config
      ⟨"job://copy", "", .ofList [("mode", "fast")], ["user"]⟩ :=
    ⟨⟨_, rfl, rfl⟩, fun key hkey => .inl ⟨"me", by rw [List.mem_singleton.1 hkey]; rfl⟩⟩
  refine ⟨(hfailed _).2 ⟨_, _, chosen_copying hadvertises rfl, hlacks, rfl⟩, ?_⟩
  have hchosen : Chosen (copying.withSetting "user" "me").templates uris' "job://copy" :=
    chosen_copying hadvertises' rfl
  obtain ⟨job, uri, hok, huri⟩ := hbound.2 ⟨_, _, hchosen, hadmits⟩
  obtain ⟨hchosen', -⟩ := (hjob job hok).2.2 uri huri
  exact ⟨job, hok, huri.trans (congrArg some (hchosen'.unique hchosen))⟩

end Job

end Waybill
