import Waybill.CommandLine.Request
import Waybill.Document

/-!
# Planning from the command line

What was done so far is printed before the next step is tried, so a failure
shows how far the request came; a plan and its network are shown together or not
at all. A failure is told once, apart from what is printed.

The program also logs what it does, to where the report goes, and says how long
it took. What is logged and how long anything takes is no part of the request:
it is a `Trace`, and any may come with any request.
-/

namespace Waybill.CommandLine

/-! ## Parts of the report -/

/-- A line. -/
def line (s : String) : String := s ++ "\n"

/-- The times that a run takes, as they are printed. -/
structure Times where
  loading : String
  planning : String
  whole : String
  deriving DecidableEq, Repr

/-- What a run logs between the parts of its report, and the times it takes. -/
structure Trace where
  /-- The records logged while the manifests are loaded. -/
  loading : List String
  /-- The records logged while the planner is set up. -/
  setup : List String
  /-- The records logged while the flow is planned. -/
  planning : List String
  /-- Nothing is said of times if no clock is read. -/
  times : Option Times
  deriving DecidableEq, Repr

/-- Nothing is logged and no clock is read. -/
def Trace.silent : Trace := ⟨[], [], [], none⟩

/-- Records, each in a line. -/
def recordsText (records : List String) : String :=
  String.join (records.map line)

/-- What was loaded. -/
def loadedText (i : Inputs) : String :=
  line s!"\nLoaded {i.topologies.length} topologies for flow '{i.flow.uri}'"

/-- The policy in force. -/
def policyText (p : Planner) : String :=
  line s!"Routing policy: {p.policy.name}"

/-- A step of a plan, with its number. -/
def stepText (number : Nat) (s : Step) : String :=
  let template := s.job.template.getD "-"
  line (s!"  {number}. {s.source} -> {s.target} on {s.engine} " ++
    s!"(weight {Decimal.plain s.weight}, template {template})") ++
  line s!"     work unit: {s.job.uri}"

/-- A plan as a table. -/
def tableText (p : Plan) : String :=
  line s!"\nCompilation Successful! {p.steps.length} hops:" ++
  String.join (p.steps.zipIdx.map fun (s, i) => stepText (i + 1) s) ++
  line ("  -> Route: " ++ String.intercalate " -> " p.route) ++
  line s!"  -> Total weight: {Decimal.plain p.totalWeight}"

/-- A plan as the request wants it. -/
def planText (json : Bool) (p : Plan) : String :=
  if json then line (Plan.codec.writePretty p) else tableText p

/-- The size of a network. -/
def networkText (n : Network) : String :=
  line "\n--- Graph Summary ---" ++
  line s!"Nodes: {n.nodeCount}" ++
  line s!"Edges: {n.edgeCount}"

/-- A time under its heading, if it was taken. -/
def timeText (heading : String) : Option String → String
  | none => ""
  | some time => line (heading ++ time)

/-- The end of a report, with the times. -/
def closingText (times : Option Times) : String :=
  line "\n--- Performance Summary ---" ++
  timeText "Manifest Loading:     " (times.map (·.loading)) ++
  timeText "Compilation:          " (times.map (·.planning)) ++
  line "-----------------------------" ++
  timeText "Total Execution:      " (times.map (·.whole)) ++
  line ""

/-! ## Running a request -/

/-- A request that came as far as `stdout` and then failed. -/
def Outcome.failed (stdout message : String) : Outcome :=
  ⟨1, stdout, line s!"\nError: {message}"⟩

/-- What a request leads to. -/
def Request.run (files : Files) (r : Request) (trace : Trace := .silent) : Outcome :=
  let start := recordsText trace.loading
  match Inputs.load files r with
  | .error e => .failed start e.message
  | .ok inputs =>
    let loaded := start ++ loadedText inputs ++ recordsText trace.setup
    match inputs.planner with
    | .error e => .failed loaded s!"Invalid policy configuration: {e.message}"
    | .ok planner =>
      let ready := loaded ++ policyText planner ++ recordsText trace.planning
      match planner.plan inputs.flow with
      | (.error e, _) => .failed ready s!"Compilation failed: {e.message}"
      | (.ok plan, planner) =>
        let network := (planner.lastNetwork.map networkText).getD ""
        ⟨0, ready ++ planText r.json plan ++ network ++ closingText trace.times, ""⟩

/-- What a command line leads to. -/
def run (files : Files) (args : List String) (trace : Trace := .silent) : Outcome :=
  match Request.ofArguments args with
  | .error e => .misused Request.usage e
  | .ok r => r.run files trace

end Waybill.CommandLine
