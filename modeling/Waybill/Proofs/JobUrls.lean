import Waybill.Proofs.Authorities
import Waybill.Proofs.EncodedPaths
import Waybill.Proofs.JobNames
import Waybill.Proofs.Stages

/-!
# Names of jobs stay under the flow's authority

A job is named under the scheme and the authority of its flow, and how that name is come by makes no
difference. It may be put together from the parts of the flow's URL, or these parts may be written
and read anew (`readUriFor`): a URL that was read is settled, so the text of scheme and authority
is a URL again (`Settled.parse_base`), and of the flow's URL no more is used than that. Whatever
the nodes are called, they make a path and nothing else (`within_withPath`).
-/

namespace Waybill

/-! ## Another path -/

namespace Url

variable {u : Url}

/-- The URL `v` lies under the scheme and the authority of `u`, with a path and nothing behind it.
Where the authority ends is seen in its text. -/
structure Within (u v : Url) : Prop where
  scheme : v.scheme = u.scheme
  authority : v.authority = u.authority
  query : v.query = none
  fragment : v.fragment = none
  write : ∃ path, v.write = u.scheme ++ "://" ++ u.authority ++ "/" ++ path ∧
    ∀ c ∈ path.toList, c ≠ '?' ∧ c ≠ '#'
  ends : ∀ c ∈ u.authority.toList, c ≠ '/' ∧ c ≠ '\\' ∧ c ≠ '?' ∧ c ≠ '#'

theorem withPath_withPath (u : Url) (text text' : String) :
    (u.withPath text).withPath text' = u.withPath text' := rfl

/-- A path makes no difference to scheme and authority. -/
theorem Settled.withPath (h : u.Settled) (text : String) : (u.withPath text).Settled :=
  ⟨h.scheme, h.username, h.password, h.host, h.port, h.hosted, h.file⟩

/-- And leaves the authority alone. -/
theorem Settled.authority_withPath (h : u.Settled) (text : String) :
    (u.withPath text).authority = u.authority := by
  apply String.toList_injective
  rw [(h.withPath text).toList_authority, h.toList_authority]
  rfl

/-- **Any text becomes a path under the authority, and nothing else.** -/
theorem Settled.within_withPath (h : u.Settled) (text : String) : u.Within (u.withPath text) where
  scheme := rfl
  authority := h.authority_withPath text
  query := rfl
  fragment := rfl
  write := by
    obtain ⟨rest, hrest, hencoded⟩ :=
      (isEncoded_path_read (isSpecial u.scheme) (u.scheme == "file") text.toList).exists_write_eq
    refine ⟨rest, ?_, fun c hc => ?_⟩
    · have hbefore : (u.withPath text).beforePath = "//" ++ u.authority := by
        rw [← h.authority_withPath text]
        rfl
      have hpath : (u.withPath text).path.write = "/" ++ rest := hrest
      have hwrite : (u.withPath text).write =
          u.scheme ++ ":" ++ (u.withPath text).beforePath ++ (u.withPath text).path.write ++ "" ++
            "" := rfl
      apply String.toList_injective
      rw [hwrite, hbefore, hpath]
      simp
    · constructor <;> rintro rfl <;> exact absurd (hencoded _ hc) (by decide)
  ends := by
    intro c hc
    refine ⟨?_, ?_, ?_, ?_⟩ <;> rintro rfl <;> exact h.notMem_authority rfl hc

end Url

/-! ## Names read anew -/

namespace Job

variable {flow : Url}

/-- The name of the work between two nodes, under scheme and authority of the flow as they are
read anew from their text. -/
def readUriFor (flow : Url) (source target : String) : Except PlanError Url :=
  match Url.parse (flow.scheme ++ "://" ++ flow.authority) with
  | .ok base => .ok (base.withPath (source ++ "-" ++ target))
  | .error cause => .error (.invalidFlow flow.write cause)

/-- The job of a hop, if its name is read anew before there is a job. -/
def readHop (templates : EdgeTemplates) (n : Network) (catalog : Option Catalog) (flow : Flow)
    (edge : EdgeId) (source target : String) : Except PlanError Job := do
  let uri ← readUriFor flow.uri source target
  let job ← ofHop templates n catalog flow edge source target
  return { job with uri }

/-- **The name that is read anew is the name.** -/
theorem readUriFor_of_settled (h : flow.Settled) (source target : String) :
    readUriFor flow source target = .ok (uriFor flow source target) := by
  rw [readUriFor, h.parse_base]
  rfl

/-- Under a settled flow the name of a job is always a URL, so that reading it again makes
no difference. -/
theorem readHop_of_settled {f : Flow} (h : f.uri.Settled) (templates : EdgeTemplates) (n : Network)
    (catalog : Option Catalog) (edge : EdgeId) (source target : String) :
    readHop templates n catalog f edge source target =
      ofHop templates n catalog f edge source target := by
  rw [readHop, readUriFor_of_settled h]
  rcases hjob : ofHop templates n catalog f edge source target with e | job
  · rfl
  · have huri := (of_ofHop_eq_ok hjob).1.uri
    obtain ⟨uri, config, description, version, template⟩ := job
    cases huri
    rfl

end Job

/-! ## Plans with names read anew -/

/-- A flow that is given by a text has the URL that is read from it. -/
theorem Flow.parse_uri {text : String} {config : Properties} {flow : Flow}
    (h : Flow.parse text config = .ok flow) : Url.parse text = .ok flow.uri := by
  unfold Flow.parse at h
  split at h
  · next hparse =>
    cases h
    exact hparse
  · cases h

namespace Planner

/-- The step of a flow over an edge, if the name of its job is read anew. -/
def readStep (p : Planner) (n : Network) (flow : Flow) (e : Edge) : Except PlanError Step := do
  let job ← Job.readHop p.edgeTemplates n p.catalog flow e.id e.source e.target
  return .ofEdge job e

/-- The plan of a flow, if the names of its jobs are read anew. -/
def readPlan (p : Planner) (flow : Flow) : Except PlanError Plan := do
  let (source, sink) ← flow.ends
  let n ← p.network
  let route ← n.selectRoute source sink (p.path? flow)
  let steps ← route.mapM (p.readStep n flow)
  return { flow := flow.uri, steps }

/-- **It is the same plan.** -/
theorem readPlan_of_settled {flow : Flow} (h : flow.uri.Settled) (p : Planner) :
    p.readPlan flow = (p.plan flow).1 := by
  have hstep : ∀ n, p.readStep n flow = p.step n flow := by
    intro n
    funext e
    rw [readStep, Job.readHop_of_settled h, step]
  rw [fst_plan]
  unfold readPlan planOver
  simp only [hstep]

/-- No plan fails for the URL of its flow. -/
theorem plan_ne_invalidFlow (p : Planner) (flow : Flow) (uri : String) (cause : Url.Error) :
    (p.plan flow).1 ≠ .error (.invalidFlow uri cause) := by
  intro h
  rcases plan_eq_error_cases h with hearly | ⟨ends, n, -, -, h⟩
  · cases hearly
  rcases planOver_eq_error_cases h with h | ⟨template, hop, fault, heq⟩
  · cases Network.noPath_of_selectRoute h
  · cases heq

end Planner

namespace Job

/-- **A job can always be named, under the scheme and the authority of its flow.** The URL of the
flow may be read from any text, and the nodes may have any names: scheme and authority are read
anew without fail, and the name lies under them, with a path and nothing behind it. It is what any
other hop may be named after as well; and no plan that names its jobs so fails for their names. -/
theorem uriFor_within {text : String} {flow : Flow} (h : Url.parse text = .ok flow.uri) :
    (∀ source target,
      readUriFor flow.uri source target = .ok (uriFor flow.uri source target) ∧
      flow.uri.Within (uriFor flow.uri source target) ∧
      ∀ source' target', readUriFor (uriFor flow.uri source target) source' target' =
        readUriFor flow.uri source' target') ∧
    ∀ p : Planner, p.readPlan flow = (p.plan flow).1 ∧
      ∀ uri cause, p.readPlan flow ≠ .error (.invalidFlow uri cause) := by
  have hsettled := Url.settled_of_parse h
  refine ⟨fun source target => ⟨readUriFor_of_settled hsettled source target,
    hsettled.within_withPath _, fun source' target' => ?_⟩, fun p => ?_⟩
  · have hnamed : (uriFor flow.uri source target).Settled := hsettled.withPath _
    rw [readUriFor_of_settled hnamed, readUriFor_of_settled hsettled]
    exact congrArg Except.ok (Url.withPath_withPath _ _ _)
  · have hplan := Planner.readPlan_of_settled hsettled p
    refine ⟨hplan, fun uri cause => ?_⟩
    rw [hplan]
    exact p.plan_ne_invalidFlow flow uri cause

/-- A flow whose URL has credentials, an address of version 6 and a port. -/
def gate : Flow := .ofUrl {
  scheme := "flow+1", username := "us%20er", password := "p%40ss"
  host := some "[::ffff:102:304]", port := some 6000
  path := .rooted ["daily", "events"], query := some "x=1", fragment := some "f" } .empty

/-- A flow whose URL had to be brought into form, and hops with marks and dots in their
names. -/
theorem uriFor_within_gate :
    Flow.parse " Flow+1://us er:p@ss@[0:0::FFFF:1.2.3.4]:06000/daily/events?x=1#f " .empty =
      .ok gate ∧
    readUriFor gate.uri "a?" "../#b" = .ok (uriFor gate.uri "a?" "../#b") ∧
    (uriFor gate.uri "a?" "../#b").write =
      "flow+1://us%20er:p%40ss@[::ffff:102:304]:6000/a%3F-../%23b" ∧
    readUriFor (uriFor gate.uri "a?" "../#b") "b" "c" = .ok (uriFor gate.uri "b" "c") := by
  have hparse : Flow.parse
      " Flow+1://us er:p@ss@[0:0::FFFF:1.2.3.4]:06000/daily/events?x=1#f " .empty = .ok gate := by
    rfl
  have huri := Flow.parse_uri hparse
  obtain ⟨hread, -, hagain⟩ := (uriFor_within huri).1 "a?" "../#b"
  refine ⟨hparse, hread, by decide +kernel, ?_⟩
  rw [hagain]
  exact ((uriFor_within huri).1 "b" "c").1

/-- Under a URL without an authority a job has an empty one. -/
example : (Url.parse "urn:isbn:1").toOption.map (fun u => (uriFor u "a" "b").write) =
    some "urn:///a-b" := by
  decide +kernel

end Job

end Waybill
