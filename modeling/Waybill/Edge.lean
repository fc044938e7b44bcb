import Waybill.Decimal.Numeral
import Waybill.Decimal.Style
import Waybill.Setting
import Waybill.Url.Parser

/-!
# Engines and edges

The systems that carry out work are known by a URL and nothing else: the
planner copies the URL of an engine into the plan and never looks inside.

An edge says that an engine can move data from one node to another, at some
weight. Source, target and engine identify it: reported twice it is one edge,
and engines that serve the same two nodes have an edge each.

A weight is finite and not negative. An edge is weighted by a property, or
weighs one if it has none; a property that is no number reads as a value that
is not a number, and is refused like any other that is no weight.
-/

namespace Waybill

/-! ## Engines -/

/-- An engine, known by its URL. -/
structure Engine where
  uri : Url
  deriving DecidableEq, Hashable, Inhabited, Repr

namespace Engine

/-- A text that names no engine, and why. -/
structure Refusal where
  uri : String
  cause : Url.Error
  deriving DecidableEq, Repr

/-- The words for a refusal. -/
def Refusal.message (r : Refusal) : String :=
  s!"Invalid execution engine URI '{r.uri}': {r.cause.message}"

/-- The engine that a text names. -/
def parse (s : String) : Except Refusal Engine :=
  match Url.parse s with
  | .ok uri => .ok ⟨uri⟩
  | .error cause => .error ⟨s, cause⟩

/-- The text of an engine. -/
def write (e : Engine) : String := e.uri.write

instance : ToString Engine := ⟨write⟩

end Engine

/-! ## Weights -/

/-- A number that may weigh an edge: finite and not negative. Both zeros are
such. -/
structure Weight where
  value : Float
  valid : value.isFinite ∧ ¬ value < 0
  deriving DecidableEq

namespace Weight

/-- The weight of that value, if it is one. -/
def ofFloat? (x : Float) : Option Weight :=
  if h : x.isFinite ∧ ¬ x < 0 then some ⟨x, h⟩ else none

theorem ofFloat?_eq_none_iff {x : Float} : ofFloat? x = none ↔ ¬ (x.isFinite ∧ ¬ x < 0) := by
  unfold ofFloat?
  split <;> simp_all

theorem value_of_ofFloat? {x : Float} {w : Weight} (h : ofFloat? x = some w) : w.value = x := by
  unfold ofFloat? at h
  split at h
  · exact (congrArg value (Option.some.inj h)).symm
  · cases h

/-- The weight of an edge that says nothing of its weight. -/
def one : Weight := ⟨1, by decide⟩

/-- The sum of some weights from the first on. The sum of nothing is the
negative zero, which changes no weight that is added to it. -/
def total (weights : List Float) : Float :=
  weights.foldl (· + ·) (-0.0)

end Weight

/-! ## Identity -/

/-- What identifies an edge. -/
structure EdgeId where
  source : String
  target : String
  engine : Engine
  deriving DecidableEq, Hashable, Inhabited, Repr

/-- Source, target and engine with colons between them. -/
def EdgeId.write (id : EdgeId) : String :=
  s!"{id.source}:{id.target}:{id.engine}"

instance : ToString EdgeId := ⟨EdgeId.write⟩

/-! ## Properties -/

/-- A value that was to weigh an edge and may not. -/
structure WeightRefusal where
  edge : EdgeId
  weight : Float
  deriving DecidableEq

namespace KeyMap

/-- Properties with a weight among them. -/
def withWeight (p : Properties) (weight : Float) : Properties :=
  p.insert Setting.weight (Decimal.plain weight)

/-- The weight among the properties, if they have one. -/
def weight? (p : Properties) : Option Float :=
  (p.get? Setting.weight).map fun s => Decimal.read (Text.trim s)

end KeyMap

/-! ## Edges -/

/-- An edge with its properties and its weight. -/
structure Edge where
  id : EdgeId
  properties : Properties
  weight : Weight
  deriving DecidableEq

namespace Edge

/-- The node an edge leaves. -/
abbrev source (e : Edge) : String := e.id.source

/-- The node an edge leads to. -/
abbrev target (e : Edge) : String := e.id.target

/-- The engine behind an edge. -/
abbrev engine (e : Edge) : Engine := e.id.engine

/-- The edge with a weight of that value. -/
def weighted (id : EdgeId) (properties : Properties) (weight : Float) :
    Except WeightRefusal Edge :=
  match Weight.ofFloat? weight with
  | some w => .ok ⟨id, properties, w⟩
  | none => .error ⟨id, weight⟩

/-- The edge weighted by its properties. -/
def ofProperties (id : EdgeId) (properties : Properties) : Except WeightRefusal Edge :=
  weighted id properties (properties.weight?.getD Weight.one.value)

/-- The edge with another weight. -/
def setWeight (e : Edge) (weight : Float) : Except WeightRefusal Edge :=
  weighted e.id e.properties weight

/-- How an edge is shown. -/
def write (e : Edge) : String :=
  s!"{e.source} -> {e.target} via {e.engine} (weight {Decimal.plain e.weight.value})"

instance : ToString Edge := ⟨write⟩

end Edge

end Waybill
