import Waybill.Network.Basic
import Waybill.PlanError

/-!
# Templates

A template is a job prepared in advance: settings to fall back on, and the
keys of settings that must be given in the end. A catalog holds templates by
their names. Which templates an edge may use is either left open, so that it
may use all of the catalog, or listed edge by edge.
-/

namespace Waybill

/-- A job prepared in advance. -/
structure Template where
  uri : String
  description : String
  config : Properties
  requiredKeys : List String
  deriving DecidableEq

namespace Template

/-- The keys that are asked for and given neither by some settings nor by the
template, in the order in which they are asked for. -/
def missingKeys (t : Template) (config : Properties) : List String :=
  t.requiredKeys.filter fun key => !(config.atop t.config).contains key

/-- Some settings laid over those of the template, if no required key is
missing. -/
def resolve (t : Template) (config : Properties) : Except MissingKeys Properties :=
  match t.missingKeys config with
  | [] => .ok (config.atop t.config)
  | keys => .error ⟨keys⟩

end Template

/-- Templates by name. -/
abbrev Catalog := KeyMap Template

namespace Catalog

/-- The catalog with a template, which replaces one of the same name. -/
def add (c : Catalog) (t : Template) : Catalog := c.insert t.uri t

/-- The catalog of some templates; of two with one name the later counts. -/
def ofTemplates (ts : List Template) : Catalog := ts.foldl add .empty

/-- The template of a name. -/
def find (c : Catalog) (uri : String) : Except TemplateMissing Template :=
  match c.get? uri with
  | some t => .ok t
  | none => .error ⟨uri⟩

end Catalog

/-- Which templates an edge may use. -/
inductive EdgeTemplates where
  /-- All templates of the catalog. -/
  | wholeCatalog
  /-- Those listed for the edge; the last list for an edge counts. -/
  | listed (lists : List (EdgeId × List String))

namespace EdgeTemplates

/-- The names of the templates that an edge of a network may use, in order and
each once. -/
def candidates (t : EdgeTemplates) (n : Network) (catalog : Option Catalog) (id : EdgeId) :
    List String :=
  if n.containsEdge id then
    match t with
    | wholeCatalog => (catalog.map fun c => c.values.map (·.uri)).getD []
    | listed lists => ((lists.reverse.find? (·.1 = id)).map (·.2.eraseDups)).getD []
  else []

end EdgeTemplates

end Waybill
