import Std.Data.HashMap

/-!
# Search for the least cost

Entries wait in a binary heap with the least key at the top. Which of two
entries with equal keys comes first is decided by the shape of the heap: an
entry climbs only past strictly greater keys, and a vacated place is filled
from below by the second child unless the first is strictly less.

The search keeps the least cost known for every node it has reached, and the
node it was reached from. It takes the node of least cost from the queue and
tries every hop that leaves it; a hop counts only if it is strictly cheaper than
what is known. A node may wait more than once, and is passed over if it comes
out at more than its least cost. When the goal comes out of the queue, the nodes
are traced back from it to the start.

Nothing is asked of costs but that they are added and compared, and nothing
of nodes but the hops that leave them. Both loops are given a number of rounds;
an `Outcome` says whether it was enough.
-/

namespace Waybill.Route

variable {K V : Type} [LT K] [DecidableLT K]

/-! ## The queue -/

/-- Waiting entries, each with its key, as a heap. -/
structure Queue (K V : Type) where
  items : Array (K × V)

namespace Queue

/-- The place above a place. -/
def parent (i : Nat) : Nat := (i - 1) / 2

/-- The heap with the entry at `i` moved up past the greater keys above it. -/
def climb (items : Array (K × V)) (i : Nat) : Array (K × V) :=
  if h : 0 < i ∧ i < items.size then
    have hp : parent i < items.size := by unfold parent; omega
    if items[i].1 < items[parent i].1 then climb (items.swap i (parent i)) (parent i)
    else items
  else items
termination_by i
decreasing_by unfold parent; omega

/-- The heap with the entry at `i` moved down to the bottom, past the lesser
child at each place, and the place where it ends. -/
def sink (items : Array (K × V)) (i : Nat) : Array (K × V) × Nat :=
  if h : 2 * i + 2 < items.size then
    if items[2 * i + 1].1 < items[2 * i + 2].1 then
      sink (items.swap i (2 * i + 1)) (2 * i + 1)
    else sink (items.swap i (2 * i + 2)) (2 * i + 2)
  else if h : 2 * i + 1 < items.size then (items.swap i (2 * i + 1), 2 * i + 1)
  else (items, i)
termination_by items.size - i
decreasing_by all_goals simp only [Array.size_swap]; omega

/-- The queue in which nothing waits. -/
def empty : Queue K V := ⟨#[]⟩

/-- The number of waiting entries. -/
def size (q : Queue K V) : Nat := q.items.size

/-- The queue with one more entry. -/
def push (q : Queue K V) (key : K) (value : V) : Queue K V :=
  ⟨climb (q.items.push (key, value)) q.items.size⟩

/-- The entry with the least key, and the queue without it. The last entry
takes its place and finds its own from the bottom up. -/
def pop? (q : Queue K V) : Option ((K × V) × Queue K V) :=
  match q.items.back? with
  | none => none
  | some last =>
    match q.items.pop[0]? with
    | none => some (last, empty)
    | some top =>
      let (items, i) := sink (q.items.pop.setIfInBounds 0 last) 0
      some (top, ⟨climb items i⟩)

end Queue

/-! ## The search -/

variable [Add K] [BEq V] [Hashable V]

/-- What comes of a search. -/
inductive Outcome (V : Type) where
  /-- The nodes that lead to the goal. -/
  | found (nodes : List V)
  /-- Nothing is left in the queue. -/
  | exhausted
  /-- The rounds were not enough. -/
  | unfinished
  deriving DecidableEq, Repr

/-- The nodes of a search that found its goal. -/
def Outcome.nodes? : Outcome V → Option (List V)
  | found nodes => some nodes
  | exhausted => none
  | unfinished => none

/-- What the search knows of the nodes it has reached, and the nodes to go on
from. -/
structure Search (K V : Type) [BEq V] [Hashable V] where
  /-- The least cost known. -/
  scores : Std.HashMap V K
  /-- The node from which that cost was reached; the start has none. -/
  parents : Std.HashMap V V
  queue : Queue K V

namespace Search

/-- At the start, reached at no cost. -/
def start (zero : K) (node : V) : Search K V where
  scores := (∅ : Std.HashMap V K).insert node zero
  parents := ∅
  queue := Queue.empty.push zero node

/-- The search with a node reached from another at some cost, if that is
strictly less than what is known. -/
def improve (s : Search K V) (parent node : V) (score : K) : Search K V :=
  if (s.scores[node]?).all fun known => decide (score < known) then
    { scores := s.scores.insert node score
      parents := s.parents.insert node parent
      queue := s.queue.push score node }
  else s

/-- The search after some hops from a node are tried. -/
def expand (hops : List (V × K)) (node : V) (score : K) (s : Search K V) : Search K V :=
  hops.foldl (fun s hop => s.improve node hop.1 (score + hop.2)) s

/-- The search after a node came out of the queue at some cost. -/
def visit (hops : V → List (V × K)) (node : V) (score : K) (s : Search K V) : Search K V :=
  if (s.scores[node]?).any fun known => decide (known < score) then s
  else expand (hops node) node score { s with scores := s.scores.insert node score }

/-- The nodes from a node without parent to the given one, followed by some
nodes. At most `rounds` parents are looked up. -/
def trace (parents : Std.HashMap V V) : Nat → V → List V → Outcome V
  | 0, _, _ => .unfinished
  | rounds + 1, node, rest =>
    match parents[node]? with
    | none => .found (node :: rest)
    | some parent => trace parents rounds parent (node :: rest)

/-- The nodes that lead to the goal, if it comes out of the queue. At most
`rounds` times is a node looked for in the queue. -/
def run (hops : V → List (V × K)) (goal : V) : Nat → Search K V → Outcome V
  | 0, _ => .unfinished
  | rounds + 1, s =>
    match s.queue.pop? with
    | none => .exhausted
    | some ((score, node), queue) =>
      if node == goal then trace s.parents (s.parents.size + 1) goal []
      else run hops goal rounds ({ s with queue }.visit hops node score)

end Search

end Waybill.Route
