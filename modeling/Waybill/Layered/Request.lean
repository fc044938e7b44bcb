import Waybill.CommandLine.Arguments
import Waybill.Decimal.Numeral
import Waybill.Layered.Rows

/-!
# Generating topologies from the command line

A request gives the shape of the topologies, the probability of an offer and a
seed. A shape without engines or with empty layers is refused, and then a
probability out of range.
-/

namespace Waybill.Layered

open CommandLine

/-- What to generate. -/
structure Request where
  shape : Shape
  /-- How likely it is that an engine offers a pair. -/
  density : Float
  seed : Nat
  /-- The file for the manifest. -/
  output : String
  deriving DecidableEq

/-- Why a request is refused. -/
inductive Refusal where
  | emptyShape
  | badDensity (density : Float)
  deriving DecidableEq

/-- The words for a refusal. -/
def Refusal.message : Refusal → String
  | emptyShape => "--engines and --width must be at least 1"
  | badDensity density => s!"--density ({Decimal.plain density}) must be within 0.0 and 1.0"

namespace Request

/-! ## Requests from words -/

/-- The request of a command line that says nothing. -/
def default : Request where
  shape := ⟨3, 4, 3⟩
  density := 0.5
  seed := 42
  output := "generated_topology.json"

/-- The switches of a request. -/
def switches : List Switch := [
  ⟨"output", some 'o', true⟩,
  ⟨"engines", none, true⟩,
  ⟨"layers", none, true⟩,
  ⟨"width", none, true⟩,
  ⟨"density", none, true⟩,
  ⟨"seed", none, true⟩]

/-- How a request is written. -/
def usage : String :=
  "[--output FILE] [--engines N] [--layers N] [--width N] [--density P] [--seed N]"

/-- The count that a switch is given, or the one taken otherwise. -/
def count (w : Words) (name : String) (otherwise : Nat) : Except UsageError Nat :=
  match w.value? name with
  | none => .ok otherwise
  | some value =>
    match Decimal.readCount value with
    | .ok n => .ok n
    | .error _ => .error (.badValue name value)

/-- The number that a switch is given, or the one taken otherwise. -/
def number (w : Words) (name : String) (otherwise : Float) : Except UsageError Float :=
  match w.value? name with
  | none => .ok otherwise
  | some value =>
    match Decimal.read? value with
    | some x => .ok x
    | none => .error (.badValue name value)

/-- The request that some words make. -/
def ofWords (w : Words) : Except UsageError Request := do
  if let word :: _ := w.plain then throw (.surplusWord word)
  let engines ← count w "engines" default.shape.engines
  let layers ← count w "layers" default.shape.layers
  let width ← count w "width" default.shape.width
  let density ← number w "density" default.density
  let seed ← count w "seed" default.seed
  return { shape := ⟨engines, layers, width⟩, density, seed
           output := (w.value? "output").getD default.output }

/-- The request of a command line. -/
def ofArguments (args : List String) : Except UsageError Request := do
  ofWords (← CommandLine.read switches args)

/-! ## Answers -/

/-- Fails if the request must be refused. -/
def check (r : Request) : Except Refusal Unit :=
  if r.shape.engines = 0 ∨ r.shape.width = 0 then .error .emptyShape
  else if 0 ≤ r.density ∧ r.density ≤ 1 then .ok ()
  else .error (.badDensity r.density)

/-- The manifest that a request asks for. -/
def manifest (r : Request) : Except Refusal TopologyManifest := do
  r.check
  return Layered.manifest r.shape (seeded r.seed (pairs r.shape.rows).length r.density)

/-- What is printed beside a manifest. -/
def report (r : Request) (m : TopologyManifest) : String :=
  let counts := m.topologies.map fun t => t.offers.length
  let total := counts.foldl (· + ·) 0
  let ⟨engines, layers, width⟩ := r.shape
  s!"Generating topology ({engines} engines, {layers} layers of {width} nodes, " ++
    s!"seed {r.seed})...\n" ++
  String.join (counts.zipIdx.map fun (n, i) => s!"-> Engine {i} advertises {n} capabilities.\n") ++
  s!"Successfully generated {total} capabilities and saved them to '{r.output}'\n" ++
  s!"-> Route requests from '{source}' to '{sink}'.\n"

/-- What a request leads to, with the manifest to be stored if there is one. -/
def run (r : Request) : Outcome × Option TopologyManifest :=
  match r.manifest with
  | .error refusal => (⟨1, "", s!"Error: {refusal.message}\n"⟩, none)
  | .ok m => (⟨0, r.report m, ""⟩, some m)

end Request

end Waybill.Layered
