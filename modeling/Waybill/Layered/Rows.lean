import Waybill.Manifest

/-!
# Layered topologies

Nodes in rows: a source, some layers of equally many nodes, and a sink. Engines
offer to move data from a row to the next one and nowhere else, so every route
from the source to the sink passes every layer once. Which pairs an engine
offers, and at which weights, is decided by draws.

Draws may come from a seed. The same seed always gives the same draws: every draw
has a number, and its outcome is computed from the seed and that number alone. A
pair is offered with the probability asked for; one is certain and zero never
happens.
-/

namespace Waybill.Layered

/-! ## Rows -/

/-- How many engines, layers, and nodes in a layer there are. -/
structure Shape where
  engines : Nat
  layers : Nat
  width : Nat
  deriving DecidableEq, Repr

/-- The first node. -/
def source : String := "source"

/-- The last node. -/
def sink : String := "sink"

/-- The name of a node within the layers. -/
def nodeName (layer place : Nat) : String := s!"L{layer}N{place}"

/-- The nodes of a layer. -/
def layer (width i : Nat) : List String :=
  (List.range width).map (nodeName i)

/-- All rows of nodes, from the source to the sink. -/
def Shape.rows (s : Shape) : List (List String) :=
  [source] :: (List.range s.layers).map (layer s.width) ++ [[sink]]

/-- The pairs of a node and a node of the next row, in order. -/
def pairs : List (List String) → List (String × String)
  | a :: b :: rest => a.flatMap (fun x => b.map (x, ·)) ++ pairs (b :: rest)
  | _ => []

/-! ## Draws -/

/-- A weight drawn for an offer: from one to ten in steps of a tenth. -/
structure Tenths where
  steps : Fin 91
  deriving DecidableEq, Repr

/-- The weight. -/
def Tenths.toFloat (t : Tenths) : Float :=
  Float.ofScientific (10 + t.steps.val) true 1

/-- What is drawn for each pair by its number: a weight if the pair is offered. -/
abbrev Draws := Nat → Option Tenths

/-- The draws by which every pair is offered, at a weight of its own. -/
def Draws.always (weight : Nat → Tenths) : Draws := fun i => some (weight i)

/-! ## Topologies -/

/-- The offers drawn for some pairs, of which the first has the number `i`. -/
def offersFrom (draws : Draws) (i : Nat) : List (String × String) → List OfferEntry
  | [] => []
  | (x, y) :: rest =>
    match draws i with
    | none => offersFrom draws (i + 1) rest
    | some weight => ⟨x, y, some weight.toFloat, .empty⟩ :: offersFrom draws (i + 1) rest

/-- The topology of an engine by its number. -/
def topology (s : Shape) (draws : Draws) (engine : Nat) : TopologyEntry where
  uri := s!"topology/engine-{engine}"
  description := s!"Generated engine {engine}"
  engine := s!"engine://cluster-{engine}:8443"
  offers := offersFrom draws 0 (pairs s.rows)

/-- The topologies of all engines, each by draws of its own. -/
def manifest (s : Shape) (draws : Nat → Draws) : TopologyManifest :=
  ⟨(List.range s.engines).map fun engine => topology s (draws engine) engine⟩

/-! ## Draws from a seed -/

/-- The bits of a word, stirred. -/
def stir (x : UInt64) : UInt64 :=
  let x := (x ^^^ (x >>> 30)) * 0xBF58476D1CE4E5B9
  let x := (x ^^^ (x >>> 27)) * 0x94D049BB133111EB
  x ^^^ (x >>> 31)

/-- The random word with some number. -/
def word (seed number : Nat) : UInt64 :=
  stir (seed.toUInt64 + (number + 1).toUInt64 * 0x9E3779B97F4A7C15)

/-- The number of equally likely outcomes of which a chance is made. -/
def outcomes : Nat := 0x20000000000000

/-- How many of the outcomes count as a success, for a probability. -/
def favourable (probability : Float) : Nat :=
  (probability * Float.ofNat outcomes).toUInt64.toNat

/-- Whether a word is a success. -/
def succeeds (probability : Float) (w : UInt64) : Bool :=
  w.toNat % outcomes < favourable probability

/-- The weight that a word stands for. -/
def Tenths.ofWord (w : UInt64) : Tenths := ⟨⟨w.toNat % 91, Nat.mod_lt _ (by decide)⟩⟩

/-- The draws of an engine, which offers one of so many pairs with some
probability. -/
def seeded (seed pairCount : Nat) (probability : Float) (engine : Nat) : Draws := fun i =>
  let number := 2 * (engine * pairCount + i)
  if succeeds probability (word seed number) then some (.ofWord (word seed (number + 1)))
  else none

end Waybill.Layered
