import Waybill.Decimal.Numeral
import Waybill.Edge

/-!
# What a policy declares

A policy is declared in settings: connections and nodes that are not to be
used, connections that are to weigh something else, and a path for flows that
name none. A connection is written `source:sink:engineUri`, where only the
first two colons separate, and an override `source:sink:engineUri=weight`,
where only the last equals sign does. The declarations of a kind are comma
lists; the first malformed entry is refused, connections before nodes before
overrides.
-/

namespace Waybill

open Text

/-! ## Connections -/

/-- Why a text is no connection. -/
inductive ConnectionFault where
  /-- It has fewer than two colons. -/
  | tooFewParts
  | emptyPart
  | badEngine (refusal : Engine.Refusal)
  deriving DecidableEq, Repr

/-- The words for a fault. -/
def ConnectionFault.message : ConnectionFault → String
  | tooFewParts => "expected 'source:sink:engineUri'"
  | emptyPart => "source, sink and engine URI must all be non-empty"
  | badEngine refusal => refusal.message

namespace EdgeId

/-- The three parts of a connection, trimmed. -/
def parts? (cs : List Char) : Option (List Char × List Char × List Char) := do
  let (source, rest) ← cutAtFirst? ':' (trimmed cs)
  let (target, engine) ← cutAtFirst? ':' rest
  return (trimmed source, trimmed target, trimmed engine)

/-- The edge that a connection names. -/
def parse (s : String) : Except ConnectionFault EdgeId :=
  match parts? s.toList with
  | none => .error .tooFewParts
  | some (source, target, engine) =>
    if source = [] ∨ target = [] ∨ engine = [] then .error .emptyPart
    else match Engine.parse (String.ofList engine) with
      | .error refusal => .error (.badEngine refusal)
      | .ok engine => .ok ⟨String.ofList source, String.ofList target, engine⟩

end EdgeId

/-! ## Overrides -/

/-- A weight that an edge is given in place of its own. -/
structure Override where
  edge : EdgeId
  weight : Weight
  deriving DecidableEq

/-- Why a text is no override. -/
inductive OverrideFault where
  | noWeight
  | notANumber (text : String)
  | notAWeight (value : Float)
  | badConnection (fault : ConnectionFault)
  deriving DecidableEq

/-- The words for a fault. -/
def OverrideFault.message : OverrideFault → String
  | noWeight => "expected 'source:sink:engineUri=weight'"
  | notANumber text => s!"'{text}' is not a number"
  | notAWeight value => s!"weight {Decimal.plain value} must be finite and non-negative"
  | badConnection fault => fault.message

/-- The override that a text writes. The weight is looked at first. -/
def Override.parse (s : String) : Except OverrideFault Override :=
  match cutAtLast? '=' s.toList with
  | none => .error .noWeight
  | some (connection, weight) =>
    let text := String.ofList (trimmed weight)
    match Decimal.read? text with
    | none => .error (.notANumber text)
    | some value =>
      match Weight.ofFloat? value with
      | none => .error (.notAWeight value)
      | some weight =>
        match EdgeId.parse (String.ofList connection) with
        | .error fault => .error (.badConnection fault)
        | .ok edge => .ok ⟨edge, weight⟩

/-! ## Errors -/

/-- Why settings give no policy or no planner. -/
inductive PolicyError where
  | unknownPolicy (name : String)
  | badConnection (entry : String) (fault : ConnectionFault)
  | badNode (entry : String)
  | badOverride (entry : String) (fault : OverrideFault)
  | badCount (key value : String) (fault : Decimal.CountFault)
  deriving DecidableEq

/-- The words for an error. -/
def PolicyError.message : PolicyError → String
  | unknownPolicy name => s!"No routing policy is registered under the name '{name}'"
  | badConnection entry fault => s!"Malformed blocked connection '{entry}': {fault.message}"
  | badNode entry => s!"Malformed blocked node list entry '{entry}'"
  | badOverride entry fault => s!"Malformed edge weight override '{entry}': {fault.message}"
  | badCount key value fault => s!"Invalid value '{value}' for key '{key}': {fault.message}"

/-! ## All declarations -/

/-- What the settings of a policy declare, in the order in which they do. -/
structure Declarations where
  blockedConnections : List EdgeId
  blockedNodes : List String
  overrides : List Override
  /-- The path for flows that name none. -/
  path? : Option String
  deriving DecidableEq

namespace Declarations

/-- No declarations. -/
def empty : Declarations := ⟨[], [], [], none⟩

/-- A blocked connection. -/
def readConnection (entry : String) : Except PolicyError EdgeId :=
  match EdgeId.parse entry with
  | .ok id => .ok id
  | .error fault => .error (.badConnection entry fault)

/-- A blocked node. A colon would make it look like a connection. -/
def readNode (entry : String) : Except PolicyError String :=
  if entry.toList.contains ':' then .error (.badNode entry) else .ok entry

/-- A weight override. -/
def readOverride (entry : String) : Except PolicyError Override :=
  match Override.parse entry with
  | .ok o => .ok o
  | .error fault => .error (.badOverride entry fault)

/-- The declarations in some settings. -/
def ofConfig (config : Properties) : Except PolicyError Declarations := do
  let blockedConnections ← (config.items Setting.blockedConnections).mapM readConnection
  let blockedNodes ← (config.items Setting.blockedNodes).mapM readNode
  let overrides ← (config.items Setting.edgeWeights).mapM readOverride
  return {
    blockedConnections, blockedNodes, overrides
    path? := config.nonBlank? Setting.policyPath }

end Declarations

end Waybill
