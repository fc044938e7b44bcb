import Waybill.Document
import Waybill.Proofs.Ascii
import Waybill.Proofs.Codecs

/-!
# Documents read back

Plans, jobs, flows, identities of edges and settings are written field by field, and each field
is recovered: a text by itself, a URL that reads back by its text, a record by its own fields. So
both texts of a document, in one line and over several, give it back whole (`Document.lossless`),
the steps of a plan in their order; and no two documents are written alike.
-/

namespace Waybill

open Json

/-! ## What a document relies on -/

/-- The URLs and the weight of the step read back. -/
structure Step.Rereads (s : Step) : Prop where
  job : s.job.uri.Rereads
  engine : s.engine.uri.Rereads
  edge : s.edge.engine.uri.Rereads
  weight : Codec.float.read (Codec.float.write s.weight) = .ok s.weight

/-- The URLs and the weights of the plan read back. -/
structure Plan.Rereads (p : Plan) : Prop where
  flow : p.flow.Rereads
  steps : ∀ s ∈ p.steps, s.Rereads

/-! ## Each document is recovered -/

open Codec (recovers_text recovers_map recovers_float recovers_list)

theorem Url.recovers {u : Url} (h : u.Rereads) : Url.codec.Recovers u :=
  Codec.recovers_byText (by rw [h]) _

theorem Engine.recovers {e : Engine} (h : e.uri.Rereads) : Engine.codec.Recovers e :=
  Schema.recovers (by decide) (.cons (Field.carries_of (Url.recovers h) _ _ _) (.nil _))

theorem EdgeId.recovers {id : EdgeId} (h : id.engine.uri.Rereads) : EdgeId.codec.Recovers id :=
  Schema.recovers (by decide) <|
    .cons (Field.carries_of (recovers_text _) _ _ _) <|
    .cons (Field.carries_of (recovers_text _) _ _ _) <|
    .cons (Field.carries_of (Engine.recovers h) _ _ _) (.nil _)

theorem Flow.recovers {f : Flow} (h : f.uri.Rereads) : Flow.codec.Recovers f :=
  Schema.recovers (by decide) <|
    .cons (Field.carries_of (Url.recovers h) _ _ _) <|
    .cons (Field.carries_of (recovers_map _) _ _ _) <|
    .cons (Field.carries_of (recovers_text _) _ _ _) <|
    .cons (Field.carries_of (recovers_text _) _ _ _) (.nil _)

/-- The name of a template is a text and never null, so it is told from no template. -/
theorem Job.recovers_template (template : Option String) :
    (Codec.nullable .text).Recovers template :=
  Codec.recovers_nullable (fun _ _ => recovers_text _) nofun

theorem Job.recovers {j : Job} (h : j.uri.Rereads) : Job.codec.Recovers j :=
  Schema.recovers (by decide) <|
    .cons (Field.carries_of (Url.recovers h) _ _ _) <|
    .cons (Field.carries_of (recovers_map _) _ _ _) <|
    .cons (Field.carries_of (recovers_text _) _ _ _) <|
    .cons (Field.carries_of (recovers_text _) _ _ _) <|
    .cons (Field.carries_of (Job.recovers_template _) _ _ _) (.nil _)

theorem Step.recovers {s : Step} (h : s.Rereads) : Step.codec.Recovers s :=
  Schema.recovers (by decide) <|
    .cons (Field.carries_of (Job.recovers h.job) _ _ _) <|
    .cons (Field.carries_of (Engine.recovers h.engine) _ _ _) <|
    .cons (Field.carries_of (recovers_text _) _ _ _) <|
    .cons (Field.carries_of (recovers_text _) _ _ _) <|
    .cons (Field.carries_of (EdgeId.recovers h.edge) _ _ _) <|
    .cons (Field.carries_of (recovers_float h.weight) _ _ _) (.nil _)

theorem Plan.recovers {p : Plan} (h : p.Rereads) : Plan.codec.Recovers p :=
  Schema.recovers (by decide) <|
    .cons (Field.carries_of (Url.recovers h.flow) _ _ _) <|
    .cons (Field.carries_of (recovers_list fun s hs => Step.recovers (h.steps s hs)) _ _ _) (.nil _)

/-! ## Documents -/

/-- Of the values with `P`, both texts read back, and no two have a text in common. -/
structure Json.Codec.LosslessOn {α : Type} (c : Codec α) (P : α → Prop) : Prop where
  read_write : ∀ a, P a → c.read (c.write a) = .ok a
  read_writePretty : ∀ a, P a → c.read (c.writePretty a) = .ok a
  write_inj : ∀ a b, P a → P b → c.write a = c.write b → a = b
  writePretty_inj : ∀ a b, P a → P b → c.writePretty a = c.writePretty b → a = b

/-- A codec that recovers everything of a kind is lossless on it. -/
theorem Json.Codec.losslessOn_of_recovers {α : Type} {c : Codec α} {P : α → Prop}
    (h : ∀ a, P a → c.Recovers a) : c.LosslessOn P where
  read_write a ha := (h a ha).read_write
  read_writePretty a ha := (h a ha).read_writePretty
  write_inj a b ha hb heq := by
    have hread := (h a ha).read_write
    rw [heq, (h b hb).read_write] at hread
    exact (Except.ok.inj hread).symm
  writePretty_inj a b ha hb heq := by
    have hread := (h a ha).read_writePretty
    rw [heq, (h b hb).read_writePretty] at hread
    exact (Except.ok.inj hread).symm

namespace Document

/-- **Whatever its texts hold, a document is read back from what is written of it, in one line or
over several, and no other document is written like it.** Of the URLs and weights in it only this
is asked, that each reads back from its own text. -/
theorem lossless :
    Plan.codec.LosslessOn Plan.Rereads ∧
    Job.codec.LosslessOn (fun j => j.uri.Rereads) ∧
    Flow.codec.LosslessOn (fun f => f.uri.Rereads) ∧
    EdgeId.codec.LosslessOn (fun id => id.engine.uri.Rereads) ∧
    (Codec.map : Codec Properties).LosslessOn (fun _ => True) :=
  ⟨Codec.losslessOn_of_recovers fun _ => Plan.recovers,
    Codec.losslessOn_of_recovers fun _ => Job.recovers,
    Codec.losslessOn_of_recovers fun _ => Flow.recovers,
    Codec.losslessOn_of_recovers fun _ => EdgeId.recovers,
    Codec.losslessOn_of_recovers fun m _ => recovers_map m⟩

/-- The URL of that authority and path. -/
def storedAt (host path : String) : Url :=
  ⟨"flow", "", "", some host, none, .rooted [path], none, none⟩

/-- Settings with all that must be escaped in them. -/
def storedConfig : Properties :=
  .ofList [("a \x22quoted\x22 key", "C:\\temp"), ("lines", "1\r\n\t2\x08\x0c\x00\x1f"), ("", "/")]

/-- A job with these settings. -/
def storedJob (template : Option String) : Job :=
  ⟨storedAt "etl" "hop", storedConfig, "Blätter, 木 and \x7f", "", template⟩

/-- The edge between two nodes. -/
def storedEdge (source target : String) : EdgeId := ⟨source, target, ⟨storedAt "engine" "a"⟩⟩

/-- Two steps, one bound to a template and one not. -/
def storedPlan : Plan where
  flow := storedAt "etl" "daily"
  steps := [
    ⟨storedJob (some "t\\1"), ⟨storedAt "engine" "a"⟩, "a", "b\x22", storedEdge "a" "b\x22", 2⟩,
    ⟨storedJob none, ⟨storedAt "engine" "a"⟩, "b\x22", "", storedEdge "b\x22" "", 1.5⟩]

/-- A stored plan with two steps, of which one is bound to a template, and its parts are
read back. -/
theorem lossless_stored :
    storedPlan.Rereads ∧
    Plan.codec.read (Plan.codec.write storedPlan) = .ok storedPlan ∧
    Plan.codec.read (Plan.codec.writePretty storedPlan) = .ok storedPlan ∧
    Job.codec.read (Job.codec.write (storedJob none)) = .ok (storedJob none) ∧
    Flow.codec.read (Flow.codec.write (.ofUrl (storedAt "etl" "daily") storedConfig)) =
      .ok (.ofUrl (storedAt "etl" "daily") storedConfig) ∧
    EdgeId.codec.read (EdgeId.codec.write (storedEdge "a\n" "é")) = .ok (storedEdge "a\n" "é") ∧
    Codec.map.read (Codec.map.write storedConfig) = .ok storedConfig := by
  have hflow : (storedAt "etl" "daily").Rereads := rfl
  have hjob : (storedAt "etl" "hop").Rereads := rfl
  have hengine : (storedAt "engine" "a").Rereads := rfl
  have hplan : storedPlan.Rereads := by
    refine ⟨hflow, List.forall_mem_cons.2 ⟨?_, List.forall_mem_singleton.2 ?_⟩⟩
    · exact ⟨hjob, hengine, hengine, rfl⟩
    · exact ⟨hjob, hengine, hengine, rfl⟩
  -- Nothing is computed here but the URLs and the weights: the texts need no check.
  obtain ⟨plans, jobs, flows, edges, settings⟩ := lossless
  exact ⟨hplan, plans.read_write _ hplan, plans.read_writePretty _ hplan,
    jobs.read_write (storedJob none) hjob,
    flows.read_write (.ofUrl (storedAt "etl" "daily") storedConfig) hflow,
    edges.read_write (storedEdge "a\n" "é") hengine, settings.read_write storedConfig trivial⟩

end Document

end Waybill
