import Waybill.Proofs.FlowManifests
import Waybill.Proofs.Lines
import Waybill.Proofs.Manifests
import Waybill.Proofs.Openness

/-!
# What a command line reports

A request goes through stages in a fixed order (`Stage`): four manifests are loaded, a planner is
made of them, a flow is planned. Either one of the stages is the first to fail (`Request.Fails`) or
there is a plan (`Request.Plans`), and which of the two it is the report tells in full, up to what
is logged and the times: with a failure goes its message and what was printed before
(`refused_of_fails`), with a plan the plan and the network it was found over (`run_of_plans`). So a
plan or a network is shown just if the run ends well (`shows_run_iff`). A path asked for on the
command line is a path in the flow's manifest (`Redirects.run`): both are one setting of the flow.
-/

namespace Waybill.CommandLine

variable {files files' : Files} {trace : Trace} {r : Request} {i : Inputs} {p : Planner}
variable {plan : Plan} {n : Network} {message : String}

/-! ## What is loaded -/

/-- The settings of a request, or why there are none: those of a file, or no settings where none is
named. -/
inductive ReadsConfig (files : Files) : Option String → Except String Properties → Prop
  | unnamed : ReadsConfig files none (.ok .empty)
  | unread {file : String} {e : ManifestError} (h : Manifest.ofFile .map files file = .error e) :
      ReadsConfig files (some file) (.error e.message)
  | read {file : String} {config : Properties} (h : Manifest.ofFile .map files file = .ok config) :
      ReadsConfig files (some file) (.ok config)

/-- The topologies of a request, or why there are none: those that the manifest in a file makes. -/
inductive ReadsTopologies (files : Files) : String → Except String (List Topology) → Prop
  | unread {file : String} {e : ManifestError}
      (h : Manifest.ofFile TopologyManifest.codec files file = .error e) :
      ReadsTopologies files file (.error e.message)
  | unfit {file : String} {m : TopologyManifest} {e : ManifestError}
      (h : Manifest.ofFile TopologyManifest.codec files file = .ok m)
      (hunfit : m.toTopologies = .error e) : ReadsTopologies files file (.error e.message)
  | read {file : String} {m : TopologyManifest} {topologies : List Topology}
      (h : Manifest.ofFile TopologyManifest.codec files file = .ok m)
      (hfit : m.toTopologies = .ok topologies) : ReadsTopologies files file (.ok topologies)

/-- The catalog of a request, or why there is none: that of a file, or none where none is named. -/
inductive ReadsCatalog (files : Files) : Option String → Except String (Option Catalog) → Prop
  | unnamed : ReadsCatalog files none (.ok none)
  | unread {file : String} {e : ManifestError}
      (h : Manifest.ofFile TemplateManifest.codec files file = .error e) :
      ReadsCatalog files (some file) (.error e.message)
  | read {file : String} {m : TemplateManifest}
      (h : Manifest.ofFile TemplateManifest.codec files file = .ok m) :
      ReadsCatalog files (some file) (.ok (some m.toCatalog))

/-- The flow of a request, or why there is none: that of the manifest in a file, in which the path of
the request, if it has one, stands for that of the manifest. -/
inductive ReadsFlow (files : Files) : String → Option String → Except String Flow → Prop
  | unread {file : String} {path : Option String} {e : ManifestError}
      (h : Manifest.ofFile FlowManifest.codec files file = .error e) :
      ReadsFlow files file path (.error e.message)
  | unfit {file : String} {path : Option String} {m : FlowManifest} {fault : FlowFault}
      (h : Manifest.ofFile FlowManifest.codec files file = .ok m)
      (hunfit : { m with path := path.or m.path }.toFlow = .error fault) :
      ReadsFlow files file path (.error ("Failed to convert flow: " ++ fault.message))
  | read {file : String} {path : Option String} {m : FlowManifest} {flow : Flow}
      (h : Manifest.ofFile FlowManifest.codec files file = .ok m)
      (hfit : { m with path := path.or m.path }.toFlow = .ok flow) :
      ReadsFlow files file path (.ok flow)

/-- The settings that are loaded are those that the relation says, and so is the message
if there are none. -/
theorem readsConfig_iff {file : Option String} {x : Except String Properties} :
    ReadsConfig files file x ↔ (Inputs.loadConfig files file).mapError (·.message) = x := by
  constructor
  · rintro (_ | h | h)
    · rfl
    all_goals
      rw [Inputs.loadConfig, h]
      rfl
  · rintro rfl
    rcases file with _ | file
    · exact .unnamed
    rw [Inputs.loadConfig]
    rcases h : Manifest.ofFile .map files file with e | config
    · exact .unread h
    · exact .read h

/-- The topologies that are loaded are those that the relation says. -/
theorem readsTopologies_iff {file : String} {x : Except String (List Topology)} :
    ReadsTopologies files file x ↔
      (Inputs.loadTopologies files file).mapError (·.message) = x := by
  constructor
  · rintro (h | ⟨h, hconverted⟩ | ⟨h, hconverted⟩)
    · rw [Inputs.loadTopologies, h]
      rfl
    all_goals
      rw [Inputs.loadTopologies, h]
      exact congrArg (Except.mapError _) hconverted
  · rintro rfl
    rw [Inputs.loadTopologies]
    rcases h : Manifest.ofFile TopologyManifest.codec files file with e | m
    · exact .unread h
    show ReadsTopologies files file (m.toTopologies.mapError (·.message))
    rcases hconverted : m.toTopologies with e | topologies
    · exact .unfit h hconverted
    · exact .read h hconverted

/-- The catalog that is loaded is the one that the relation says. -/
theorem readsCatalog_iff {file : Option String} {x : Except String (Option Catalog)} :
    ReadsCatalog files file x ↔ (Inputs.loadCatalog files file).mapError (·.message) = x := by
  constructor
  · rintro (_ | h | h)
    · rfl
    all_goals
      rw [Inputs.loadCatalog, h]
      rfl
  · rintro rfl
    rcases file with _ | file
    · exact .unnamed
    rw [Inputs.loadCatalog]
    rcases h : Manifest.ofFile TemplateManifest.codec files file with e | m
    · exact .unread h
    · exact .read h

/-- **A path on the command line is one in the manifest**, from which the flow is made. -/
theorem loadFlow_addPath (files : Files) (file : String) (path : Option String) :
    (Inputs.loadFlow files file).map (FlowManifest.addPath path) =
      (Manifest.ofFile FlowManifest.codec files file).mapError .manifest >>= fun m =>
        { m with path := path.or m.path }.toFlow.mapError .flow := by
  rw [Inputs.loadFlow]
  rcases Manifest.ofFile FlowManifest.codec files file with e | m
  · rfl
  dsimp only
  rcases path with _ | path
  · show _ = m.toFlow.mapError LoadError.flow
    rcases m.toFlow with fault | flow <;> rfl
  · show _ = (m.withPath path).toFlow.mapError LoadError.flow
    rw [m.toFlow_withPath]
    rcases m.toFlow with fault | flow <;> rfl

/-- The flow that is loaded, with the path from the command line, is the one that the
relation says. -/
theorem readsFlow_iff {file : String} {path : Option String} {x : Except String Flow} :
    ReadsFlow files file path x ↔
      ((Inputs.loadFlow files file).map (FlowManifest.addPath path)).mapError (·.message) = x := by
  rw [loadFlow_addPath]
  constructor
  · rintro (h | ⟨h, hconverted⟩ | ⟨h, hconverted⟩)
    · rw [h]
      rfl
    all_goals
      rw [h]
      exact congrArg (fun flow => (Except.mapError LoadError.flow flow).mapError _) hconverted
  · rintro rfl
    rcases h : Manifest.ofFile FlowManifest.codec files file with e | m
    · exact .unread h
    show ReadsFlow files file path
      (({ m with path := path.or m.path }.toFlow.mapError LoadError.flow).mapError LoadError.message)
    rcases hconverted : FlowManifest.toFlow { m with path := path.or m.path } with fault | flow
    · exact .unfit h hconverted
    · exact .read h hconverted

/-! ### What is loaded, and what is told where it is not -/

theorem readsConfig_ok_iff {file : Option String} {config : Properties} :
    ReadsConfig files file (.ok config) ↔ Inputs.loadConfig files file = .ok config :=
  readsConfig_iff.trans mapError_eq_ok_iff

theorem readsConfig_error_iff {file : Option String} : ReadsConfig files file (.error message) ↔
    ∃ e, Inputs.loadConfig files file = .error e ∧ message = e.message :=
  readsConfig_iff.trans mapError_eq_error_iff

theorem readsTopologies_ok_iff {file : String} {topologies : List Topology} :
    ReadsTopologies files file (.ok topologies) ↔
      Inputs.loadTopologies files file = .ok topologies :=
  readsTopologies_iff.trans mapError_eq_ok_iff

theorem readsTopologies_error_iff {file : String} : ReadsTopologies files file (.error message) ↔
    ∃ e, Inputs.loadTopologies files file = .error e ∧ message = e.message :=
  readsTopologies_iff.trans mapError_eq_error_iff

theorem readsCatalog_ok_iff {file : Option String} {catalog : Option Catalog} :
    ReadsCatalog files file (.ok catalog) ↔ Inputs.loadCatalog files file = .ok catalog :=
  readsCatalog_iff.trans mapError_eq_ok_iff

theorem readsCatalog_error_iff {file : Option String} : ReadsCatalog files file (.error message) ↔
    ∃ e, Inputs.loadCatalog files file = .error e ∧ message = e.message :=
  readsCatalog_iff.trans mapError_eq_error_iff

theorem readsFlow_ok_iff {file : String} {path : Option String} {flow : Flow} :
    ReadsFlow files file path (.ok flow) ↔
      ∃ flow', Inputs.loadFlow files file = .ok flow' ∧ FlowManifest.addPath path flow' = flow :=
  readsFlow_iff.trans (mapError_eq_ok_iff.trans map_eq_ok_iff)

theorem readsFlow_error_iff {file : String} {path : Option String} :
    ReadsFlow files file path (.error message) ↔
      ∃ e, Inputs.loadFlow files file = .error e ∧ message = e.message := by
  rw [readsFlow_iff, mapError_eq_error_iff]
  simp only [map_eq_error_iff]

/-! ## Stages -/

/-- What a request goes through, in this order. -/
inductive Stage where
  | config
  | topologies
  | templates
  | flow
  | setup
  | planning
  deriving DecidableEq, Repr

/-- What a planner is made from: what was loaded, and the built-in policies. -/
def Inputs.setup (i : Inputs) : Setup where
  config := i.config
  registry := .standard
  catalog := i.catalog
  edgeTemplates := .wholeCatalog
  topologies := i.topologies
  queryTimeout := none

/-- All that is logged. -/
def Trace.records (trace : Trace) : List String :=
  trace.loading ++ trace.setup ++ trace.planning

/-- A request ends with one error, behind the lines that were printed before it. Of those only what
is logged can look like a step, a plan or a network. -/
structure Outcome.Refused (o : Outcome) (trace : Trace) (message : String) (before : List String) :
    Prop where
  code : o.code = 1
  stderr : o.stderr = "\nError: " ++ message ++ "\n"
  stdout : o.stdout = printed before
  quiet : Shows o.stdout → ∃ record ∈ trace.records, Shows record

namespace Request

/-- All manifests that a request names are loaded, and its path is set. -/
structure Loads (files : Files) (r : Request) (i : Inputs) : Prop where
  config : ReadsConfig files r.config (.ok i.config)
  topologies : ReadsTopologies files r.topologies (.ok i.topologies)
  catalog : ReadsCatalog files r.templates (.ok i.catalog)
  flow : ReadsFlow files r.flow r.path (.ok i.flow)

/-- A request has a plan: its manifests are loaded, they make a planner, and this one plans the
flow. -/
structure Plans (files : Files) (r : Request) (i : Inputs) (p : Planner) (plan : Plan) : Prop where
  loads : r.Loads files i
  planner : i.setup.build = .ok p
  plan : (p.plan i.flow).1 = .ok plan

/-- The manifest of a stage is the first of a request that cannot be used. -/
inductive LoadFails (files : Files) (r : Request) : Stage → String → Prop
  | config {message : String} (h : ReadsConfig files r.config (.error message)) :
      LoadFails files r .config message
  | topologies {config : Properties} {message : String}
      (hconfig : ReadsConfig files r.config (.ok config))
      (h : ReadsTopologies files r.topologies (.error message)) :
      LoadFails files r .topologies message
  | templates {config : Properties} {topologies : List Topology} {message : String}
      (hconfig : ReadsConfig files r.config (.ok config))
      (htopologies : ReadsTopologies files r.topologies (.ok topologies))
      (h : ReadsCatalog files r.templates (.error message)) :
      LoadFails files r .templates message
  | flow {config : Properties} {topologies : List Topology} {catalog : Option Catalog}
      {message : String} (hconfig : ReadsConfig files r.config (.ok config))
      (htopologies : ReadsTopologies files r.topologies (.ok topologies))
      (hcatalog : ReadsCatalog files r.templates (.ok catalog))
      (h : ReadsFlow files r.flow r.path (.error message)) : LoadFails files r .flow message

/-- A stage is the first of a request to fail, with a message, and some lines were printed before it
besides those that were logged. -/
inductive Fails (files : Files) (r : Request) (trace : Trace) : Stage → String → List String → Prop
  | loading {stage : Stage} {message : String} (h : r.LoadFails files stage message) :
      Fails files r trace stage message trace.loading
  | setup {i : Inputs} {e : PolicyError} (hloads : r.Loads files i)
      (h : i.setup.build = .error e) :
      Fails files r trace .setup ("Invalid policy configuration: " ++ e.message)
        (trace.loading ++ ["", loadedLine i] ++ trace.setup)
  | planning {i : Inputs} {p : Planner} {e : PlanError} (hloads : r.Loads files i)
      (hplanner : i.setup.build = .ok p) (h : (p.plan i.flow).1 = .error e) :
      Fails files r trace .planning ("Compilation failed: " ++ e.message)
        (trace.loading ++ ["", loadedLine i] ++ trace.setup ++ [policyLine p] ++ trace.planning)

/-- **What is loaded is what the four files say.** -/
theorem load_eq_ok_iff : Inputs.load files r = .ok i ↔ r.Loads files i := by
  unfold Inputs.load
  simp only [bind_eq_ok_iff, mapError_eq_ok_iff]
  constructor
  · rintro ⟨config, hconfig, topologies, htopologies, catalog, hcatalog, flow, hflow, h⟩
    cases h
    exact ⟨readsConfig_ok_iff.2 hconfig, readsTopologies_ok_iff.2 htopologies,
      readsCatalog_ok_iff.2 hcatalog, readsFlow_ok_iff.2 ⟨flow, hflow, rfl⟩⟩
  · intro h
    obtain ⟨flow, hflow, hpath⟩ := readsFlow_ok_iff.1 h.flow
    refine ⟨_, readsConfig_ok_iff.1 h.config, _, readsTopologies_ok_iff.1 h.topologies, _,
      readsCatalog_ok_iff.1 h.catalog, flow, hflow, ?_⟩
    rw [hpath]
    rfl

/-- **What cannot be loaded fails for the first manifest that cannot be used.** -/
theorem exists_load_eq_error_iff :
    (∃ e, Inputs.load files r = .error e ∧ message = e.message) ↔
      ∃ stage, r.LoadFails files stage message := by
  unfold Inputs.load
  simp only [bind_eq_error_iff, mapError_eq_ok_iff, mapError_eq_error_iff]
  constructor
  · rintro ⟨e, ⟨fault, h, rfl⟩ | ⟨config, hconfig, hrest⟩, rfl⟩
    · exact ⟨_, .config (readsConfig_error_iff.2 ⟨fault, h, rfl⟩)⟩
    have hconfig := readsConfig_ok_iff.2 hconfig
    rcases hrest with ⟨fault, h, rfl⟩ | ⟨topologies, htopologies, hrest⟩
    · exact ⟨_, .topologies hconfig (readsTopologies_error_iff.2 ⟨fault, h, rfl⟩)⟩
    have htopologies := readsTopologies_ok_iff.2 htopologies
    rcases hrest with ⟨fault, h, rfl⟩ | ⟨catalog, hcatalog, h | ⟨flow, -, h⟩⟩
    · exact ⟨_, .templates hconfig htopologies (readsCatalog_error_iff.2 ⟨fault, h, rfl⟩)⟩
    · exact ⟨_, .flow hconfig htopologies (readsCatalog_ok_iff.2 hcatalog)
        (readsFlow_error_iff.2 ⟨e, h, rfl⟩)⟩
    · cases h
  · rintro ⟨stage, h⟩
    cases h with
    | config h =>
      obtain ⟨fault, he, hmessage⟩ := readsConfig_error_iff.1 h
      exact ⟨.manifest fault, .inl ⟨fault, he, rfl⟩, hmessage⟩
    | topologies hconfig h =>
      obtain ⟨fault, he, hmessage⟩ := readsTopologies_error_iff.1 h
      exact ⟨.manifest fault, .inr ⟨_, readsConfig_ok_iff.1 hconfig, .inl ⟨fault, he, rfl⟩⟩,
        hmessage⟩
    | templates hconfig htopologies h =>
      obtain ⟨fault, he, hmessage⟩ := readsCatalog_error_iff.1 h
      exact ⟨.manifest fault, .inr ⟨_, readsConfig_ok_iff.1 hconfig, .inr ⟨_,
        readsTopologies_ok_iff.1 htopologies, .inl ⟨fault, he, rfl⟩⟩⟩, hmessage⟩
    | flow hconfig htopologies hcatalog h =>
      obtain ⟨e, he, hmessage⟩ := readsFlow_error_iff.1 h
      exact ⟨e, .inr ⟨_, readsConfig_ok_iff.1 hconfig, .inr ⟨_,
        readsTopologies_ok_iff.1 htopologies, .inr ⟨_, readsCatalog_ok_iff.1 hcatalog, .inl he⟩⟩⟩,
        hmessage⟩

/-- **A request has a plan, or a stage is the first to fail.** -/
theorem plans_or_fails (files : Files) (r : Request) (trace : Trace) :
    (∃ i p plan, r.Plans files i p plan) ∨
      ∃ stage message before, r.Fails files trace stage message before := by
  rcases hload : Inputs.load files r with e | i
  · obtain ⟨stage, h⟩ := exists_load_eq_error_iff.1 ⟨e, hload, rfl⟩
    exact .inr ⟨stage, _, _, .loading h⟩
  have hloads := load_eq_ok_iff.1 hload
  rcases hplanner : i.setup.build with e | p
  · exact .inr ⟨_, _, _, .setup hloads hplanner⟩
  rcases hplan : (p.plan i.flow).1 with e | plan
  · exact .inr ⟨_, _, _, .planning hloads hplanner hplan⟩
  · exact .inl ⟨i, p, plan, hloads, hplanner, hplan⟩

/-! ## What is reported -/

/-- The URL of a flow that was loaded was read. -/
theorem Loads.exists_parse (h : r.Loads files i) : ∃ uri, Url.parse uri = .ok i.flow.uri := by
  obtain ⟨config, topologies, catalog, flow⟩ := h
  cases flow with
  | read h hfit => exact ⟨_, (FlowManifest.describes_of_toFlow hfit).uri⟩

/-- A planner has one of the built-in policies, under its own name. -/
theorem name_of_build (h : i.setup.build = .ok p) :
    p.policy.name = "static" ∨ p.policy.name = "open" := by
  obtain ⟨policy, hpolicy, hrest⟩ := bind_eq_ok_iff.1 h
  obtain ⟨timeout, -, hrest⟩ := bind_eq_ok_iff.1 hrest
  cases hrest
  obtain ⟨declarations, -, hcreated⟩ := bind_eq_ok_iff.1 hpolicy
  unfold PolicyRegistry.create at hcreated
  split at hcreated
  · next kind hkind =>
    cases hcreated
    have hregistered : i.setup.registry = .standard := rfl
    rw [hregistered, PolicyRegistry.standard, PolicyRegistry.register, KeyMap.get?_insert,
      PolicyRegistry.register, KeyMap.get?_insert] at hkind
    split at hkind
    · cases hkind
      exact .inr rfl
    · split at hkind
      · cases hkind
        exact .inl rfl
      · cases hkind
  · cases hcreated

/-- The line of a policy that was built shows nothing: the policy is named for its kind, which is
one of the two built-in kinds. -/
theorem not_shows_policyLine_of_build (h : i.setup.build = .ok p) : ¬ Shows (policyLine p) := by
  refine not_shows_policyLine ?_
  rcases name_of_build h with hname | hname
  all_goals
    rw [hname]
    decide

/-- What is printed before a failure shows nothing, unless it is logged. -/
theorem Fails.quiet {stage : Stage} {before : List String}
    (h : r.Fails files trace stage message before) (hprinted : Shows (printed before)) :
    ∃ record ∈ trace.records, Shows record := by
  obtain ⟨l, hl, hshows⟩ := shows_printed_iff.1 hprinted
  refine ⟨l, ?_, hshows⟩
  rw [Trace.records, List.append_assoc, List.mem_append, List.mem_append]
  have hblank : l ≠ "" := fun heq => not_shows_blank (heq ▸ hshows)
  have hloaded : ∀ {i}, r.Loads files i → l ≠ loadedLine i := fun hloads heq => by
    obtain ⟨uri, huri⟩ := hloads.exists_parse
    exact not_shows_loadedLine huri (heq ▸ hshows)
  cases h with
  | loading h => exact .inl hl
  | setup hloads h =>
    simp only [List.mem_append, List.mem_pair, hblank, hloaded hloads, or_false] at hl
    exact hl.imp_right .inl
  | planning hloads hplanner h =>
    have hpolicy : l ≠ policyLine _ := fun heq =>
      not_shows_policyLine_of_build hplanner (heq ▸ hshows)
    simp only [List.mem_append, List.mem_pair, List.mem_singleton, hblank, hloaded hloads, hpolicy,
      or_false, or_assoc] at hl
    exact hl

/-- **The first stage that fails is reported**, and nothing else is. -/
theorem refused_of_fails {stage : Stage} {before : List String}
    (h : r.Fails files trace stage message before) :
    (r.run files trace).Refused trace message before := by
  have hrun : r.run files trace = .failed (printed before) message := by
    unfold Request.run
    cases h with
    | loading h =>
      obtain ⟨e, he, rfl⟩ := exists_load_eq_error_iff.2 ⟨stage, h⟩
      rw [he]
      rfl
    | @setup i e hloads h =>
      have hplanner : i.planner = .error e := h
      rw [load_eq_ok_iff.2 hloads]
      dsimp only
      rw [hplanner, printed_append, printed_append, ← loadedText_eq]
      rfl
    | @planning i p e hloads hplanner h =>
      have hplanner : i.planner = .ok p := hplanner
      rw [load_eq_ok_iff.2 hloads]
      dsimp only
      rw [hplanner]
      dsimp only
      rcases hplan : p.plan i.flow with ⟨result, p'⟩
      obtain rfl : result = .error e := by rw [← h, hplan]
      rw [printed_append, printed_append, printed_append, printed_append, ← loadedText_eq,
        ← policyText_eq]
      rfl
  exact hrun ▸ ⟨rfl, by rw [String.append_assoc]; rfl, rfl, h.quiet⟩

/-- The lines that are printed where there is a plan. -/
def reported (r : Request) (trace : Trace) (i : Inputs) (p : Planner) (plan : Plan) (n : Network) :
    List String :=
  trace.loading ++ ["", loadedLine i] ++ trace.setup ++ [policyLine p] ++ trace.planning ++
    (if r.json then [Plan.codec.writePretty plan] else tableLines plan) ++ summaryLines n ++
    closingLines trace.times

/-- A plan is found over a network, which the planner keeps. -/
theorem exists_network_of_plan {flow : Flow} (h : (p.plan flow).1 = .ok plan) :
    ∃ n, p.network = .ok n ∧ p.plan flow = (.ok plan, p.keep flow n) := by
  unfold Planner.plan at h ⊢
  rcases hends : flow.ends with e | ⟨source, sink⟩
  · rw [hends] at h
    cases h
  rw [hends] at h
  rcases hnetwork : p.network with e | n
  · rw [hnetwork] at h
    cases h
  · rw [hnetwork] at h
    exact ⟨n, rfl, congrArg (·, p.keep flow n) h⟩

/-- A plan is printed as JSON if that is asked for and as a table otherwise. -/
theorem planText_eq (json : Bool) (plan : Plan) : planText json plan =
    printed (if json then [Plan.codec.writePretty plan] else tableLines plan) := by
  rcases json with _ | _
  · exact tableText_eq plan
  · rw [planText, if_pos rfl, if_pos rfl, printed_cons]
    exact String.append_empty.symm

/-- **A plan is reported with the network it was found over.** -/
theorem run_of_plans (h : r.Plans files i p plan) (trace : Trace) :
    ∃ n, p.network = .ok n ∧ (p.plan i.flow).2.lastNetwork = some n ∧
      r.run files trace = ⟨0, printed (r.reported trace i p plan n), ""⟩ := by
  obtain ⟨n, hnetwork, hplan⟩ := exists_network_of_plan h.plan
  have hplanner : i.planner = .ok p := h.planner
  refine ⟨n, hnetwork, by rw [hplan]; rfl, ?_⟩
  unfold Request.run
  rw [load_eq_ok_iff.2 h.loads]
  dsimp only
  rw [hplanner]
  dsimp only
  rw [hplan]
  simp only [reported, printed_append, ← loadedText_eq, ← policyText_eq, ← planText_eq,
    ← networkText_eq (Planner.of_network hnetwork).1, ← closingText_eq]
  rfl

/-- **To end well is to have a plan.** -/
theorem code_run_eq_zero_iff :
    (r.run files trace).code = 0 ↔ ∃ i p plan, r.Plans files i p plan := by
  constructor
  · intro hcode
    refine (plans_or_fails files r trace).resolve_right ?_
    rintro ⟨stage, message, before, h⟩
    rw [(refused_of_fails h).code] at hcode
    cases hcode
  · rintro ⟨i, p, plan, h⟩
    obtain ⟨n, -, -, hrun⟩ := run_of_plans h trace
    rw [hrun]

/-- **A plan or a network is shown just where the run ends well**, if nothing that is logged looks
like one. -/
theorem shows_run_iff (hquiet : ∀ record ∈ trace.records, ¬ Shows record) :
    Shows (r.run files trace).stdout ↔ (r.run files trace).code = 0 := by
  rcases plans_or_fails files r trace with ⟨i, p, plan, h⟩ | ⟨stage, message, before, h⟩
  · obtain ⟨n, -, -, hrun⟩ := run_of_plans h trace
    rw [hrun]
    refine iff_of_true (shows_of_mem_summaryLines (n := n) fun l hl => ?_) rfl
    simp [reported, hl]
  · have hrefused := refused_of_fails h
    refine iff_of_false (fun hshows => ?_) (by rw [hrefused.code]; decide)
    obtain ⟨record, hrecord, hshows⟩ := hrefused.quiet hshows
    exact hquiet record hrecord hshows

/-! ## Paths on the command line -/

/-- The manifest with a path of its own is in the place of the flow that a request sets the path
of; else the files are the same. -/
structure Redirects (files files' : Files) (r : Request) (path : String) : Prop where
  asked : r.path = some path
  flow : ∃ m, Manifest.ofFile FlowManifest.codec files r.flow = .ok m ∧
    Manifest.ofFile FlowManifest.codec files' r.flow = .ok (m.withPath path)
  kept : ∀ file ∈ r.config.toList ++ [r.topologies] ++ r.templates.toList,
    files' file = files file

/-- A manifest depends on its own file and on no other. -/
theorem ofFile_congr {α : Type} {c : Json.Codec α} {file : String}
    (h : files' file = files file) :
    Manifest.ofFile c files' file = Manifest.ofFile c files file := by
  rw [Manifest.ofFile, Manifest.ofFile, h]

/-- The settings do not come from the file that the path was moved to. -/
theorem Redirects.loadConfig {path : String} (h : r.Redirects files files' path) :
    Inputs.loadConfig files' r.config = Inputs.loadConfig files r.config := by
  rcases hconfig : r.config with _ | file
  · rfl
  · exact ofFile_congr (h.kept file (by simp [hconfig]))

theorem Redirects.loadTopologies {path : String} (h : r.Redirects files files' path) :
    Inputs.loadTopologies files' r.topologies = Inputs.loadTopologies files r.topologies := by
  rw [Inputs.loadTopologies, Inputs.loadTopologies, ofFile_congr (h.kept r.topologies (by simp))]

theorem Redirects.loadCatalog {path : String} (h : r.Redirects files files' path) :
    Inputs.loadCatalog files' r.templates = Inputs.loadCatalog files r.templates := by
  rcases htemplates : r.templates with _ | file
  · rfl
  · rw [Inputs.loadCatalog, Inputs.loadCatalog,
      ofFile_congr (h.kept file (by simp [htemplates]))]

/-- The flow does, and with the path in it. -/
theorem Redirects.loadFlow {path : String} (h : r.Redirects files files' path) :
    Inputs.loadFlow files' r.flow =
      (Inputs.loadFlow files r.flow).map (FlowManifest.addPath r.path) := by
  obtain ⟨m, hm, hm'⟩ := h.flow
  rw [Inputs.loadFlow, Inputs.loadFlow, hm, hm', h.asked]
  dsimp only
  rw [FlowManifest.toFlow_withPath]
  rcases m.toFlow with fault | flow <;> rfl

/-- **A path on the command line is a path in the manifest of the flow.** -/
theorem Redirects.load {path : String} (h : r.Redirects files files' path) :
    Inputs.load files r = Inputs.load files' { r with path := none } := by
  unfold Inputs.load
  rw [h.loadConfig, h.loadTopologies, h.loadCatalog, h.loadFlow]
  rcases Inputs.loadFlow files r.flow with e | flow <;> rfl

/-- So a path on the command line counts like one in the manifest of the flow. -/
theorem Redirects.run {path : String} (h : r.Redirects files files' path) (trace : Trace) :
    r.run files trace = { r with path := none }.run files' trace := by
  unfold Request.run
  rw [h.load]

end Request

/-! ## Command lines -/

/-- A run is that of the request which the arguments ask for. -/
theorem run_of_ofArguments {args : List String} (h : Request.ofArguments args = .ok r)
    (trace : Trace) : run files args trace = r.run files trace := by
  rw [run, h]

/-! ### How a request is spelled -/

section Words

variable {known : List Switch} {w : Words}

/-- A switch is read with the value that stands in its word, whatever the value is. -/
theorem readWords_long {s : Switch} {name : String} (hfind : known.find? (·.name == name) = some s)
    (htakes : s.takesValue = true) (hname : '=' ∉ name.toList) (hnew : w.has name = false)
    (value : String) (rest : List String) :
    readWords known w none (("--" ++ name ++ "=" ++ value) :: rest) =
      readWords known { w with given := w.given ++ [(name, value)] } none rest := by
  have hword : ("--" ++ name ++ "=" ++ value).toList =
      '-' :: '-' :: (name.toList ++ '=' :: value.toList) := by simp
  have hspan : (name.toList ++ '=' :: value.toList).span (· != '=') =
      (name.toList, '=' :: value.toList) := by
    have hpass : ∀ c ∈ name.toList, (c != '=') = true := fun c hc =>
      bne_iff_ne.2 fun heq => hname (heq ▸ hc)
    rw [List.span_eq_takeWhile_dropWhile, List.takeWhile_append_of_pos hpass,
      List.dropWhile_append_of_pos hpass]
    simp
  have hlong : readLong known w (String.ofList (name.toList ++ '=' :: value.toList)) =
      .ok ({ w with given := w.given ++ [(name, value)] }, none) := by
    simp only [readLong, String.toList_ofList, hspan, String.ofList_toList, hfind, htakes, if_true,
      Words.give, hnew]
    rfl
  rw [readWords, hword]
  -- the word is more than the two dashes that end the switches
  generalize hbody : name.toList ++ '=' :: value.toList = body at hlong
  rcases body with _ | ⟨c, body⟩
  · simp at hbody
  · show (readLong known w (String.ofList (c :: body)) >>= fun x =>
      readWords known x.1 x.2 rest) = _
    rw [hlong]
    rfl

/-- So is a value that may be missing. -/
theorem readWords_optional {s : Switch} (name : String)
    (hfind : known.find? (·.name == name) = some s) (htakes : s.takesValue = true)
    (hname : '=' ∉ name.toList) (hnew : w.has name = false) (value : Option String)
    (rest : List String) :
    readWords known w none ((value.map ("--" ++ name ++ "=" ++ ·)).toList ++ rest) =
      readWords known { w with given := w.given ++ (value.map (name, ·)).toList } none rest := by
  rcases value with _ | value
  · simp
  · exact readWords_long hfind htakes hname hnew value rest

end Words

namespace Request

/-- The words of a request. -/
def spelled (r : Request) : List String :=
  (r.config.map ("--config=" ++ ·)).toList ++ (r.templates.map ("--templates=" ++ ·)).toList ++
    (r.path.map ("--path=" ++ ·)).toList ++ (if r.json then ["--json"] else []) ++
    ["--", r.topologies, r.flow]

/-- **Every request can be spelled.** -/
theorem ofArguments_spelled (r : Request) : ofArguments r.spelled = .ok r := by
  obtain ⟨topologies, flow, config, templates, path, json⟩ := r
  have hwords : read switches (spelled ⟨topologies, flow, config, templates, path, json⟩) =
      .ok ⟨[topologies, flow], (config.map ("config", ·)).toList ++
        (templates.map ("templates", ·)).toList ++ (path.map ("path", ·)).toList ++
        if json then [("json", "")] else []⟩ := by
    simp only [spelled, List.append_assoc, read]
    refine (readWords_optional "config" rfl rfl (by decide) rfl config _).trans ?_
    refine (readWords_optional "templates" rfl rfl (by decide) ?_ templates _).trans ?_
    · rcases config with _ | config <;> rfl
    refine (readWords_optional "path" rfl rfl (by decide) ?_ path _).trans ?_
    · rcases config with _ | config <;> rcases templates with _ | templates <;> rfl
    -- what follows are words that are known
    rcases config with _ | config <;> rcases templates with _ | templates <;>
      rcases path with _ | path <;> rcases json with _ | _ <;> rfl
  rw [ofArguments, hwords]
  rcases config with _ | config <;> rcases templates with _ | templates <;>
    rcases path with _ | path <;> rcases json with _ | _ <;> rfl

end Request

/-- **A command line ends well just if its request has a plan.** Then the plan is shown, with the
network it was found over, and it is the plan of the flow in the manifest with the path of the
command line in place of its own. Otherwise a stage is the first to fail, and its message is all
that is told beside what was done before. Whatever is logged meanwhile, nothing else shows a plan or
a network. A path of the command line may as well stand in the manifest, and every request can be
spelled. -/
theorem run_exact (files : Files) (trace : Trace) {args : List String} {r : Request}
    (h : Request.ofArguments args = .ok r) :
    ((run files args trace).code = 0 ↔ ∃ i p plan, r.Plans files i p plan) ∧
    (∀ i p plan, r.Plans files i p plan →
      ∃ n, p.network = .ok n ∧ (p.plan i.flow).2.lastNetwork = some n ∧
        run files args trace = ⟨0, printed (r.reported trace i p plan n), ""⟩) ∧
    ((run files args trace).code ≠ 0 →
      ∃ stage message before, r.Fails files trace stage message before) ∧
    (∀ stage message before, r.Fails files trace stage message before →
      (run files args trace).Refused trace message before) ∧
    ((∀ record ∈ trace.records, ¬ Shows record) →
      (Shows (run files args trace).stdout ↔ (run files args trace).code = 0)) ∧
    (∀ files' args' path, r.Redirects files files' path →
      Request.ofArguments args' = .ok { r with path := none } →
        run files args trace = run files' args' trace) ∧
    ∀ r' : Request, Request.ofArguments r'.spelled = .ok r' := by
  rw [run_of_ofArguments h]
  refine ⟨Request.code_run_eq_zero_iff, fun i p plan hplans => Request.run_of_plans hplans trace,
    fun hcode => ?_, fun stage message before => Request.refused_of_fails, Request.shows_run_iff,
    fun files' args' path hredirects h' => ?_, Request.ofArguments_spelled⟩
  · exact (Request.plans_or_fails files r trace).resolve_left
      fun hplans => hcode (Request.code_run_eq_zero_iff.2 hplans)
  · rw [run_of_ofArguments h', hredirects.run]

/-! ## One hop -/

/-- An engine with one hop. -/
def oneHop : TopologyManifest := ⟨[⟨"t", "", "e://h", [⟨"a", "b", none, .empty⟩]⟩]⟩

/-- A flow over the hop. -/
def hopFlow : FlowManifest := ⟨"flow://f", "a", "b", none, [], .empty, "", none⟩

/-- The hop and a flow in files. -/
def hopFiles (m : FlowManifest) : Files := fun file =>
  if file = "t" then .ok (TopologyManifest.codec.write oneHop)
  else if file = "f" then .ok (FlowManifest.codec.write m)
  else .error .missing

/-- The topology of the hop. -/
def hopTopology (engine : Engine) : Topology :=
  ⟨"t", "", engine, .offered 0 [⟨"a", "b", .empty⟩]⟩

/-- Something is logged in every stage, and a clock is read. -/
def noisy : Trace :=
  ⟨["INFO reading"], ["INFO 1 topology"], ["INFO routed"], some ⟨"1ms", "2ms", "3ms"⟩⟩

theorem readsTopologies_hopFiles (m : FlowManifest) :
    ∃ engine, ReadsTopologies (hopFiles m) "t" (.ok [hopTopology engine]) := by
  have hrereads : oneHop.Rereads := by
    intro t ht o ho
    obtain rfl := List.mem_singleton.1 ht
    obtain rfl := List.mem_singleton.1 ho
    exact nofun
  have hread : Manifest.ofFile TopologyManifest.codec (hopFiles m) "t" = .ok oneHop :=
    (Manifest.readsBack_of_recovers (TopologyManifest.recovers hrereads)).write
  obtain ⟨engine, hengine⟩ : ∃ engine, Engine.parse "e://h" = .ok engine := ⟨_, rfl⟩
  have htopology : (⟨"t", "", "e://h", [⟨"a", "b", none, .empty⟩]⟩ : TopologyEntry).toTopology =
      .ok (hopTopology engine) := by
    rw [TopologyEntry.toTopology, hengine]
    rfl
  exact ⟨engine, .read hread (mapM_eq_ok_iff.2 (.cons htopology .nil))⟩

theorem ofFile_hopFiles (m : FlowManifest) :
    Manifest.ofFile FlowManifest.codec (hopFiles m) "f" = .ok m :=
  (Manifest.readsBack_of_recovers m.recovers).write

/-- Over one hop of any engine there is a plan, in a network of two nodes and an edge. -/
theorem exists_plan_hop (engine : Engine) {flow : Flow} (hends : flow.ends = .ok ("a", "b")) :
    ∃ p plan n, (Inputs.setup ⟨.empty, [hopTopology engine], none, flow⟩).build = .ok p ∧
      (p.plan flow).1 = .ok plan ∧ p.network = .ok n ∧ n.nodes.length = 2 ∧
      n.edges.length = 1 := by
  let p : Planner := { Planner.lone with topologies := .ofList [("t", hopTopology engine)] }
  have hopen : p.IsOpen := by
    refine ⟨fun t ht fault hfails => ?_, fun x hx => Policy.not_refuses_of_unweighed (.inl rfl) ?_,
      .declared rfl rfl rfl⟩
    · obtain rfl : t = hopTopology engine := List.mem_singleton.1 ht
      exact Answer.not_fails_at_once hfails
    · obtain rfl : x = (engine, ⟨"a", "b", .empty⟩) := List.mem_singleton.1 hx
      rfl
  obtain ⟨n, hnetwork, -, hnodes, hids, hoffered⟩ := Planner.exists_network_of_open hopen
  obtain ⟨e, he, hsource, htarget⟩ :=
    hoffered (engine, ⟨"a", "b", .empty⟩) (List.mem_singleton.2 rfl)
  have hwalk : n.IsWalk "a" [e] "b" := ⟨he, hsource, htarget⟩
  have hcatalog : p.catalog = none := rfl
  obtain ⟨plan, hplan⟩ :=
    Planner.exists_plan_of_isWalk rfl (hcatalog ▸ nofun) hends (by decide) hnetwork hwalk
  refine ⟨p, plan, n, rfl, hplan, hnetwork, by rw [hnodes]; rfl, ?_⟩
  rw [← List.length_map (·.id), hids]
  rfl

/-- Over the hop there is a plan, with a path on the command line or in the manifest; without a
flow there is none, and of what is printed nothing but what is logged. -/
theorem run_exact_hop :
    (∃ before after, run (hopFiles hopFlow) ["t", "f", "--json", "--path", "a,b"] noisy =
      ⟨0, printed (before ++ ["", "--- Graph Summary ---", "Nodes: 2", "Edges: 1"] ++ after), ""⟩) ∧
    run (hopFiles hopFlow) ["t", "f", "--json", "--path", "a,b"] noisy =
      run (hopFiles (hopFlow.withPath "a,b")) ["t", "f", "--json"] noisy ∧
    run (hopFiles hopFlow) ["t", "x"] noisy = ⟨1, "INFO reading\n",
      "\nError: Failed to read manifest 'x': No such file or directory (os error 2)\n"⟩ := by
  have hread : Request.ofArguments ["t", "f", "--json", "--path", "a,b"] =
      .ok ⟨"t", "f", none, none, some "a,b", true⟩ := rfl
  have hread' : Request.ofArguments ["t", "x"] = .ok ⟨"t", "x", none, none, none, false⟩ := rfl
  obtain ⟨-, hplanned, -, -, -, hpath, -⟩ := run_exact (hopFiles hopFlow) noisy hread
  obtain ⟨-, -, -, hrefused, -⟩ := run_exact (hopFiles hopFlow) noisy hread'
  obtain ⟨engine, htopologies⟩ := readsTopologies_hopFiles hopFlow
  refine ⟨?_, hpath _ _ "a,b" ?_ rfl, ?_⟩
  · obtain ⟨flow, hflow⟩ : ∃ flow, (hopFlow.withPath "a,b").toFlow = .ok flow := ⟨_, rfl⟩
    have hsays := FlowManifest.describes_of_toFlow hflow
    have hends : flow.ends = .ok ("a", "b") := by
      rw [Flow.ends, hsays.source, hsays.destination]
      rfl
    obtain ⟨p, plan, n, hplanner, hplan, hnetwork, hnodes, hedges⟩ := exists_plan_hop engine hends
    obtain ⟨n', hnetwork', -, hrun⟩ := hplanned ⟨.empty, _, none, flow⟩ p plan
      ⟨⟨.unnamed, htopologies, .unnamed, .read (ofFile_hopFiles _) hflow⟩, hplanner, hplan⟩
    rw [hnetwork] at hnetwork'
    cases hnetwork'
    have hsummary : summaryLines n = ["", "--- Graph Summary ---", "Nodes: 2", "Edges: 1"] := by
      rw [summaryLines, hnodes, hedges]
      rfl
    exact ⟨_, _, by rw [hrun, Request.reported, hsummary]⟩
  · refine ⟨rfl, ⟨hopFlow, ofFile_hopFiles _, ofFile_hopFiles _⟩, ?_⟩
    intro file hfile
    obtain rfl := List.mem_singleton.1 hfile
    -- both hold the hop in this file, whatever the flow
    rw [hopFiles, hopFiles, if_pos rfl, if_pos rfl]
  · have hfails : Request.LoadFails (hopFiles hopFlow) ⟨"t", "x", none, none, none, false⟩ .flow
        (ManifestError.unreadable "x" .missing).message :=
      .flow .unnamed htopologies .unnamed (.unread rfl)
    obtain ⟨hcode, hstderr, hstdout, -⟩ := hrefused .flow _ _ (.loading hfails)
    rcases hrun : run (hopFiles hopFlow) ["t", "x"] noisy with ⟨code, stdout, stderr⟩
    rw [hrun] at hcode hstderr hstdout
    cases hcode
    cases hstderr
    cases hstdout
    rfl

end Waybill.CommandLine
