import Waybill.CommandLine.Report
import Waybill.Proofs.Ascii
import Waybill.Proofs.Representation

/-!
# What a report says, line by line

A report is printed one line after another (`printed`): what was loaded and under which policy, a
plan as a table or in JSON, the size of its network and the times, and whatever is logged in between.
A step, a plan in either form and the size of a network each come with a line that begins as no
other line does (`marks`), so whether a text shows any of them can be told from how its lines begin
(`Shows`). What is printed shows something just if one of its lines does (`shows_printed_iff`), and
the lines before a plan do not: no line break is in a URL, nor in the name of a policy.
-/

namespace Waybill.CommandLine

variable {i : Inputs} {p : Planner} {n : Network} {s t : String} {ls : List String}

/-! ## Printed lines -/

/-- The text that is made by printing some lines. -/
def printed (ls : List String) : String := String.join (ls.map (· ++ "\n"))

theorem printed_cons (l : String) (ls : List String) :
    printed (l :: ls) = l ++ "\n" ++ printed ls := by
  rw [printed, List.map_cons, String.join_cons, printed]

theorem printed_singleton (l : String) : printed [l] = line l := by
  rw [printed_cons]
  exact String.append_empty

/-- A line break in front is a line of its own. -/
theorem line_break (s : String) : line ("\n" ++ s) = printed ["", s] := by
  rw [printed_cons, printed_singleton, String.empty_append, line, line, String.append_assoc]

theorem printed_append (ls ls' : List String) : printed (ls ++ ls') = printed ls ++ printed ls' := by
  rw [printed, List.map_append, String.join_append, printed, printed]

theorem printed_flatMap {α : Type} (f : α → List String) (l : List α) :
    printed (l.flatMap f) = String.join (l.map fun a => printed (f a)) := by
  induction l with
  | nil => rfl
  | cons a l ih => rw [List.flatMap_cons, printed_append, ih, List.map_cons, String.join_cons]

/-! ## The lines of a report -/

/-- The line for what was loaded. -/
def loadedLine (i : Inputs) : String :=
  s!"Loaded {i.topologies.length} topologies for flow '{i.flow.uri.write}'"

/-- The line for the policy. -/
def policyLine (p : Planner) : String := s!"Routing policy: {p.policy.name}"

/-- The lines of a step, with its number. -/
def stepLines (number : Nat) (s : Step) : List String :=
  let template := s.job.template.getD "-"
  [s!"  {number}. {s.source} -> {s.target} on {s.engine.uri.write} " ++
      s!"(weight {Decimal.plain s.weight}, template {template})",
    s!"     work unit: {s.job.uri.write}"]

/-- The lines of a plan in a table. -/
def tableLines (plan : Plan) : List String :=
  ["", s!"Compilation Successful! {plan.steps.length} hops:"] ++
  plan.steps.zipIdx.flatMap (fun (s, i) => stepLines (i + 1) s) ++
  ["  -> Route: " ++ String.intercalate " -> " plan.route,
    s!"  -> Total weight: {Decimal.plain plan.totalWeight}"]

/-- The lines for the size of a network. -/
def summaryLines (n : Network) : List String :=
  ["", "--- Graph Summary ---", s!"Nodes: {n.nodes.length}", s!"Edges: {n.edges.length}"]

/-- The last lines, with the times if any were taken. -/
def closingLines : Option Times → List String
  | some times => ["", "--- Performance Summary ---", "Manifest Loading:     " ++ times.loading,
      "Compilation:          " ++ times.planning, "-----------------------------",
      "Total Execution:      " ++ times.whole, ""]
  | none => ["", "--- Performance Summary ---", "-----------------------------", ""]

/-- What is printed of the inputs is a blank line and the line of their counts. -/
theorem loadedText_eq (i : Inputs) : loadedText i = printed ["", loadedLine i] := by
  have hopening : "\nLoaded " = "\n" ++ "Loaded " := rfl
  rw [← line_break, loadedText, loadedLine]
  simp only [hopening, toString, String.append_assoc]

theorem policyText_eq (p : Planner) : policyText p = printed [policyLine p] :=
  (printed_singleton _).symm

/-- What is printed of a step is the line of its hop and those of its particulars. -/
theorem stepText_eq (number : Nat) (s : Step) :
    stepText number s = printed (stepLines number s) := by
  rw [stepLines, printed_cons, printed_singleton]
  rfl

/-- What is printed of a plan is how many hops it has, the hops in order, numbered from one, and
the route with its weight. -/
theorem tableText_eq (plan : Plan) : tableText plan = printed (tableLines plan) := by
  have hopening : "\nCompilation Successful! " = "\n" ++ "Compilation Successful! " := rfl
  rw [tableLines, printed_append, printed_append, printed_flatMap, ← line_break, printed_cons,
    printed_singleton, tableText]
  simp only [stepText_eq, hopening, line, toString, String.append_assoc]

/-- **What is printed of a network counts its nodes and edges.** The counts that are kept
agree with what is stored, as the network is well formed. -/
theorem networkText_eq (h : n.WellFormed) : networkText n = printed (summaryLines n) := by
  have hopening : "\n--- Graph Summary ---" = "\n" ++ "--- Graph Summary ---" := rfl
  rw [networkText, h.represents.nodeCount_eq, h.represents.edgeCount_eq, hopening, line_break]
  simp only [← printed_singleton, ← printed_append]
  rfl

/-- What is printed last is the times, if any were taken. -/
theorem closingText_eq (times : Option Times) : closingText times = printed (closingLines times) := by
  have hopening : "\n--- Performance Summary ---" = "\n" ++ "--- Performance Summary ---" := rfl
  rw [closingText, hopening, line_break]
  rcases times with _ | times
  all_goals
    simp only [Option.map_none, Option.map_some, timeText, String.append_empty,
      ← printed_singleton, ← printed_append]
    rfl

/-! ## What a text shows -/

/-- The lines of a text; the last is what stands behind the last line break. -/
def lines (s : String) : List String := (s.toList.splitOn '\n').map String.ofList

/-- Everything on lines is read off this one equation: a break ends one line and starts
the next. -/
theorem lines_append_break (s t : String) : lines (s ++ "\n" ++ t) = lines s ++ lines t := by
  have hcut : (s ++ "\n" ++ t).toList = s.toList ++ '\n' :: t.toList := by simp
  rw [lines, hcut, List.splitOn_append_cons_self, List.map_append]
  rfl

theorem lines_of_notMem (h : '\n' ∉ s.toList) : lines s = [s] := by
  rw [lines, List.splitOn_eq_singleton h, List.map_singleton, String.ofList_toList]

/-- How the lines begin in which a plan, as a table or in JSON, and a network are shown. -/
def marks : List String :=
  ["Compilation Successful!", "  ", "\x7b", "--- Graph Summary ---", "Nodes: ", "Edges: "]

/-- A text shows a plan or a network, or part of one. -/
def Shows (s : String) : Prop := ∃ l ∈ lines s, ∃ mark ∈ marks, mark.toList <+: l.toList

/-- A heading shows on either side of a break. -/
theorem shows_append_break_iff : Shows (s ++ "\n" ++ t) ↔ Shows s ∨ Shows t := by
  simp only [Shows, lines_append_break, List.mem_append, or_and_right, exists_or]

/-- A line shows something if it begins with a mark, -/
theorem shows_iff_of_notMem (h : '\n' ∉ s.toList) :
    Shows s ↔ ∃ mark ∈ marks, mark.toList <+: s.toList := by
  simp only [Shows, lines_of_notMem h, List.mem_singleton, exists_eq_left]

theorem not_shows_blank : ¬ Shows "" := by
  rw [shows_iff_of_notMem (by decide)]
  decide

/-- **and what is printed shows something if one of its lines does.** -/
theorem shows_printed_iff : Shows (printed ls) ↔ ∃ l ∈ ls, Shows l := by
  induction ls with
  | nil => exact iff_of_false not_shows_blank nofun
  | cons l ls ih => rw [printed_cons, shows_append_break_iff, ih, List.exists_mem_cons_iff]

/-- A line shows nothing if no mark begins with its first letter. -/
theorem not_shows_of_head {c : Char} {cs : List Char} (hs : s.toList = c :: cs)
    (hbreak : '\n' ∉ s.toList)
    (hc : ∀ mark ∈ marks, mark.toList.head?.any (· != c) = true) : ¬ Shows s := by
  rw [shows_iff_of_notMem hbreak, hs]
  rintro ⟨mark, hmark, hbegins⟩
  have hother := hc mark hmark
  generalize mark.toList = letters at hbegins hother
  rcases letters with _ | ⟨c', cs'⟩
  · cases hother
  · obtain ⟨rfl, -⟩ := List.cons_prefix_cons.1 hbegins
    simp at hother

/-- The size of a network is shown. -/
theorem shows_of_mem_summaryLines (h : summaryLines n ⊆ ls) : Shows (printed ls) := by
  have hmem : "--- Graph Summary ---" ∈ summaryLines n := List.mem_cons_of_mem _ List.mem_cons_self
  refine shows_printed_iff.2 ⟨_, h hmem, ?_⟩
  rw [shows_iff_of_notMem (by decide)]
  decide

/-! ## The lines before a plan -/

theorem break_notMem_toString (n : Nat) : '\n' ∉ (toString n).toList := by
  rw [Url.toList_toString]
  exact Url.Address.notMem_toDigits (by decide) (by decide)

/-- No URL that was parsed has a line break in it. -/
theorem break_notMem_write {uri : String} {u : Url} (h : Url.parse uri = .ok u) :
    '\n' ∉ u.write.toList := by
  intro hmem
  exact absurd (Url.isPrinted_write_of_parse h '\n' hmem) (by decide)

/-- What was loaded is told in one line, which shows nothing. -/
theorem not_shows_loadedLine {uri : String} (h : Url.parse uri = .ok i.flow.uri) :
    ¬ Shows (loadedLine i) := by
  have hline : '\n' ∉ (loadedLine i).toList := by
    simp only [loadedLine, String.toList_append, List.mem_append, not_or]
    exact ⟨⟨⟨⟨by decide, break_notMem_toString _⟩, by decide⟩, break_notMem_write h⟩, by decide⟩
  obtain ⟨cs, hcs⟩ : ∃ cs, (loadedLine i).toList = 'L' :: cs := by
    simp only [loadedLine, String.toList_append]
    exact ⟨_, rfl⟩
  exact not_shows_of_head hcs hline (by decide)

/-- The line of a policy shows no heading unless the name of the policy brings one in. -/
theorem not_shows_policyLine (h : '\n' ∉ p.policy.name.toList) : ¬ Shows (policyLine p) := by
  have htext : (policyLine p).toList = "Routing policy: ".toList ++ p.policy.name.toList :=
    String.toList_append
  have hline : '\n' ∉ (policyLine p).toList := by
    rw [htext, List.mem_append, not_or]
    exact ⟨by decide, h⟩
  exact not_shows_of_head htext hline (by decide)

end Waybill.CommandLine
