import Waybill.PlanError

/-!
# Topologies

A topology is an engine with a name and with what the engine says it can do. An
engine is asked for its offers and has a limited time to answer; it may offer
something or refuse, at once or after a while, or never answer.

All engines must answer in time. Where several fail one is blamed: among few
engines, which are watched side by side, the one whose failure is known first;
more engines are awaited in order.
-/

namespace Waybill

/-- An offer to move data from one node to another. -/
structure Offer where
  source : String
  target : String
  properties : Properties
  deriving DecidableEq

namespace Offer

/-- The offer with a weight. -/
def withWeight (o : Offer) (weight : Float) : Offer :=
  { o with properties := o.properties.withWeight weight }

/-- The edge that an engine offers. -/
def edgeId (o : Offer) (engine : Engine) : EdgeId := ⟨o.source, o.target, engine⟩

end Offer

/-! ## Answers -/

/-- What comes of asking an engine for its offers, and so many milliseconds
later. -/
inductive Answer where
  | offered (delay : Nat) (offers : List Offer)
  | unavailable (detail : String) (delay : Nat := 0)
  | failed (detail : String) (delay : Nat := 0)
  | never
  deriving DecidableEq

namespace Answer

/-- How long an answer takes, if it comes at all. -/
def delay? : Answer → Option Nat
  | offered delay _ => some delay
  | unavailable _ delay => some delay
  | failed _ delay => some delay
  | never => none

/-- What is known of an answer after so many milliseconds. -/
def within (limit : Nat) : Answer → Except QueryFault (List Offer)
  | offered delay offers => if delay ≤ limit then .ok offers else .error (.timedOut limit)
  | unavailable detail delay =>
    .error (if delay ≤ limit then .unavailable detail else .timedOut limit)
  | failed detail delay => .error (if delay ≤ limit then .failed detail else .timedOut limit)
  | never => .error (.timedOut limit)

/-- When it is known what comes of an answer that is awaited for so long. Where no
time is given at all, the end of it is still noticed after what comes at once. -/
def knownAfter (limit : Nat) (a : Answer) : Nat :=
  match a.delay? with
  | some delay => if delay ≤ limit then delay else max limit 1
  | none => max limit 1

end Answer

/-! ## Topologies -/

/-- An engine under a name. -/
structure Topology where
  uri : String
  description : String
  engine : Engine
  answer : Answer
  deriving DecidableEq

namespace Topology

/-- The error that blames a topology. -/
def blame (t : Topology) (fault : QueryFault) : PlanError :=
  .queryFailed t.uri t.engine fault

/-- The engine with its offers, if it answers in time. -/
def ask (limit : Nat) (t : Topology) : Except PlanError (Engine × List Offer) :=
  match t.answer.within limit with
  | .ok offers => .ok (t.engine, offers)
  | .error fault => .error (t.blame fault)

/-- The failure that is known first among those of some topologies, and when; of
two that are known at one time, that of the topology listed first. -/
def firstFailure? (limit : Nat) : List Topology → Option (Nat × PlanError)
  | [] => none
  | t :: ts =>
    match t.ask limit, firstFailure? limit ts with
    | .ok _, rest => rest
    | .error e, none => some (t.answer.knownAfter limit, e)
    | .error e, some (time, e') =>
      if time < t.answer.knownAfter limit then some (time, e')
      else some (t.answer.knownAfter limit, e)

/-- How many engines can be watched side by side. -/
def watchLimit : Nat := 30

/-- Fails as soon as it is known that some topology does. -/
def expectNoFailure (limit : Nat) (ts : List Topology) : Except PlanError Unit :=
  match firstFailure? limit ts with
  | some (_, e) => .error e
  | none => .ok ()

/-- Every engine with its offers, if all answer in time. -/
def askAll (limit : Nat) (ts : List Topology) : Except PlanError (List (Engine × List Offer)) := do
  if ts.length ≤ watchLimit then expectNoFailure limit ts
  ts.mapM (ask limit)

end Topology

end Waybill
