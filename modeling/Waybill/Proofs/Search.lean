import Waybill.Proofs.Queue
import Waybill.Proofs.Walk

/-!
# What the search finds

The search finds a walk that no walk is cheaper than, or there is none
(`answers_run`). The nodes whose hops are tried are `settled`: what is known of
them is final and at most the `floor`, the cost of the node that came out last,
which is at most what waits. A walk that leaves the settled nodes passes a
waiting one (`frontier`), so what comes out is as cheap as can be, and when
nothing waits no walk leaves them.

A settled node hangs from a node settled before it. So the way back from the
goal ends, and at the start. And since each node is settled once, no more can
come out than one node for each hop, and the start.
-/

namespace Waybill.Route.Search

variable {K V : Type}

/-- How many hops leave some nodes. -/
def hopCount (hops : V → List (V × K)) (nodes : List V) : Nat :=
  (nodes.flatMap hops).length

theorem hopCount_cons (hops : V → List (V × K)) (v : V) (nodes : List V) :
    hopCount hops (v :: nodes) = (hops v).length + hopCount hops nodes := by
  rw [hopCount, List.flatMap_cons, List.length_append, hopCount]

/-! ## One node and one hop -/

variable [BEq V] [Hashable V]
variable {hops : V → List (V × K)} {start goal : V} {zero : K}
variable {s s' : Search K V} {settled older older' : List V} {floor key c d : K} {u v x : V}

/-- A hop is not counted, or it is cheaper than what is known. -/
theorem improve_cases [LT K] [DecidableLT K] (s : Search K V) (u v : V) (score : K) :
    (∃ c, s.scores[v]? = some c ∧ ¬ score < c ∧ s.improve u v score = s) ∨
    (∀ c, s.scores[v]? = some c → score < c) ∧ s.improve u v score =
      { scores := s.scores.insert v score, parents := s.parents.insert v u,
        queue := s.queue.push score v } := by
  unfold improve
  rcases hv : s.scores[v]? with _ | c
  · exact .inr ⟨nofun, by simp⟩
  · by_cases hlt : score < c
    · exact .inr ⟨fun d hd => by cases hd; exact hlt, by simp [hlt]⟩
    · exact .inl ⟨c, rfl, hlt, by simp [hlt]⟩

/-- The search after a node came out of the queue, its cost written anew. -/
def reset (s : Search K V) (v : V) (key : K) (q : Queue K V) : Search K V :=
  { s with scores := s.scores.insert v key, queue := q }

/-- A reset writes the cost that came out of the queue to its node and touches no other.
-/
theorem getElem?_scores_reset [LawfulBEq V] (s : Search K V) (v : V) (key : K) (q : Queue K V)
    (y : V) : (s.reset v key q).scores[y]? = if v == y then some key else s.scores[y]? :=
  Std.HashMap.getElem?_insert

/-- A node that comes out at more than its cost is passed over. -/
theorem visit_of_lt [LT K] [DecidableLT K] [Add K] (hc : s.scores[v]? = some c) (hlt : c < key)
    (q : Queue K V) : ({ s with queue := q }.visit hops v key) = { s with queue := q } := by
  simp [visit, hc, hlt]

/-- A node that comes out at its cost is expanded from there. -/
theorem visit_of_not_lt [LT K] [DecidableLT K] [Add K] (hc : s.scores[v]? = some c)
    (hnot : ¬ c < key) (q : Queue K V) :
    ({ s with queue := q }.visit hops v key) = (s.reset v key q).expand (hops v) v key := by
  simp [visit, hc, hnot, reset]

variable [LE K]

/-! ## The invariant -/

/-- What is known of a node stays known, at no greater cost. -/
def Keeps (s s' : Search K V) (v : V) : Prop :=
  ∀ c, s.scores[v]? = some c → ∃ c', s'.scores[v]? = some c' ∧ c' ≤ c

theorem Keeps.trans [Std.IsLinearPreorder K] {t : Search K V} (h : Keeps s s' v)
    (h' : Keeps s' t v) : Keeps s t v := by
  intro c hc
  obtain ⟨d, hd, hdc⟩ := h c hc
  obtain ⟨e, he, hed⟩ := h' d hd
  exact ⟨e, he, Std.le_trans hed hdc⟩

theorem keeps_of_eq [Std.IsLinearPreorder K] (h : s'.scores[v]? = s.scores[v]?) : Keeps s s' v :=
  fun c hc => ⟨c, h.trans hc, Std.le_refl c⟩

/-- A reset raises no cost, as what came out of the queue is not above what is known. -/
theorem keeps_reset [Std.IsLinearPreorder K] [LawfulBEq V] (hc : s.scores[v]? = some c)
    (hle : key ≤ c) (q : Queue K V) (y : V) : Keeps s (s.reset v key q) y := by
  intro d hd
  rw [getElem?_scores_reset]
  split
  · next hvy =>
    rw [← beq_iff_eq.1 hvy, hc] at hd
    cases hd
    exact ⟨key, rfl, hle⟩
  · exact ⟨d, hd, Std.le_refl d⟩

/-- Nor does it lower one, as what is known is not above what came out. -/
theorem reset_keeps [Std.IsLinearPreorder K] [LawfulBEq V] (hc : s.scores[v]? = some c)
    (hle : c ≤ key) (q : Queue K V) (y : V) : Keeps (s.reset v key q) s y := by
  intro d hd
  rw [getElem?_scores_reset] at hd
  split at hd
  · next hvy =>
    cases hd
    exact ⟨c, beq_iff_eq.1 hvy ▸ hc, hle⟩
  · exact ⟨d, hd, Std.le_refl d⟩

variable [Add K]

/-- A node hangs from nothing if it is the start, or from one of the older nodes,
at the cost of a hop from it. -/
inductive Hangs (hops : V → List (V × K)) (start : V) (zero : K) (s : Search K V)
    (older : List V) (v : V) : Prop
  | root (hv : v = start) (hparent : s.parents[v]? = none)
      (hcost : ∀ c, s.scores[v]? = some c → zero ≤ c)
  | child {u : V} {w d : K} (hu : u ∈ older) (hparent : s.parents[v]? = some u)
      (hop : (v, w) ∈ hops u) (hd : s.scores[u]? = some d)
      (hcost : ∀ c, s.scores[v]? = some c → d + w ≤ c)

/-- Every one of the nodes hangs from one after it. -/
def Rooted (hops : V → List (V × K)) (start : V) (zero : K) (s : Search K V) : List V → Prop
  | [] => True
  | v :: older => Hangs hops start zero s older v ∧ Rooted hops start zero s older

/-- The state of a search whose settled nodes are listed, the last one first. -/
structure Invariant (hops : V → List (V × K)) (start : V) (zero : K) (settled : List V)
    (floor : K) (s : Search K V) : Prop where
  isHeap : s.queue.IsHeap
  /-- What waits is no cheaper than what is known of it. -/
  known_le : ∀ e ∈ s.queue.entries, ∃ c, s.scores[e.2]? = some c ∧ c ≤ e.1
  /-- What waits is no cheaper than the floor. -/
  floor_le : ∀ e ∈ s.queue.entries, floor ≤ e.1
  /-- What is settled is no dearer than the floor. -/
  le_floor : ∀ v ∈ settled, ∃ c, s.scores[v]? = some c ∧ c ≤ floor
  start_le : ∃ c, s.scores[start]? = some c ∧ c ≤ zero
  nodup : settled.Nodup
  rooted : Rooted hops start zero s settled
  hangs : ∀ v c, s.scores[v]? = some c → v ∉ settled → Hangs hops start zero s settled v

/-- A node that is known and not settled waits, at no more than is known of it. -/
def Waits (settled : List V) (s : Search K V) : Prop :=
  ∀ v c, s.scores[v]? = some c → v ∉ settled → ∃ e ∈ s.queue.entries, e.2 = v ∧ e.1 ≤ c

/-- Some hops from a node are tried: nothing that they lead to is known to be
dearer. -/
def Relaxed (s : Search K V) (u : V) (tried : List (V × K)) : Prop :=
  ∀ c, s.scores[u]? = some c → ∀ hop ∈ tried, ∃ d, s.scores[hop.1]? = some d ∧ d ≤ c + hop.2

variable [LT K] [LawfulCost K]

/-! ## What a node hangs from stays -/

/-- A node hangs on its parent still if it keeps the parent and its cost and if no cost of
an older node rises. -/
theorem Hangs.mono (h : Hangs hops start zero s older v) (hsub : ∀ u ∈ older, u ∈ older')
    (hparent : s'.parents[v]? = s.parents[v]?) (hcost : Keeps s' s v)
    (hkept : ∀ u ∈ older, Keeps s s' u) : Hangs hops start zero s' older' v := by
  rcases h with ⟨hv, hp, hc⟩ | ⟨hu, hp, hop, hd, hc⟩
  · refine .root hv (hparent.trans hp) fun c hvc => ?_
    obtain ⟨c', hc', hle⟩ := hcost c hvc
    exact Std.le_trans (hc c' hc') hle
  · obtain ⟨d', hd', hle⟩ := hkept _ hu _ hd
    refine .child (hsub _ hu) (hparent.trans hp) hop hd' fun c hvc => ?_
    obtain ⟨c', hc', hlec⟩ := hcost c hvc
    exact Std.le_trans (Std.le_trans (LawfulCost.add_le_add_right hle _) (hc c' hc')) hlec

/-- Settled nodes stay rooted under a change that leaves their parents alone and their
costs in place. -/
theorem Rooted.mono {l : List V} (h : Rooted hops start zero s l)
    (hparent : ∀ v ∈ l, s'.parents[v]? = s.parents[v]?) (hcost : ∀ v ∈ l, Keeps s' s v)
    (hkept : ∀ u ∈ l, Keeps s s' u) : Rooted hops start zero s' l := by
  induction l with
  | nil => trivial
  | cons v older ih =>
    simp only [List.forall_mem_cons] at hparent hcost hkept
    exact ⟨h.1.mono (fun _ hu => hu) hparent.1 hcost.1 hkept.2, ih h.2 hparent.2 hcost.2 hkept.2⟩

theorem Relaxed.mono {tried : List (V × K)} (h : Relaxed s u tried) (hcost : Keeps s' s u)
    (hkept : ∀ v, Keeps s s' v) : Relaxed s' u tried := by
  intro c hc hop hhop
  obtain ⟨c', hc', hle⟩ := hcost c hc
  obtain ⟨d, hd, hdc⟩ := h c' hc' hop hhop
  obtain ⟨d', hd', hdd⟩ := hkept _ d hd
  exact ⟨d', hd',
    Std.le_trans hdd (Std.le_trans hdc (LawfulCost.add_le_add_right hle hop.2))⟩

/-- A walk ends among the settled nodes, or it passes a node that waits at no more
than the walk costs. -/
theorem frontier (hwaits : Waits settled s) (hrelaxed : ∀ u ∈ settled, Relaxed s u (hops u))
    {steps : List (V × K)} {a : K} (hu : s.scores[u]? = some c) (hle : c ≤ a)
    (hsteps : Leads hops u steps v) :
    v ∈ settled ∨ ∃ e ∈ s.queue.entries, e.1 ≤ costAlong a steps := by
  induction steps generalizing u c a with
  | nil =>
    obtain rfl : u = v := hsteps
    by_cases hset : u ∈ settled
    · exact .inl hset
    · -- the walk ends outside
      obtain ⟨e, he, -, hec⟩ := hwaits u c hu hset
      exact .inr ⟨e, he, Std.le_trans hec hle⟩
  | cons step steps ih =>
    obtain ⟨hstep, hsteps⟩ := hsteps
    by_cases hset : u ∈ settled
    · obtain ⟨d, hd, hdc⟩ := hrelaxed u hset c hu step hstep
      exact ih hd (Std.le_trans hdc (LawfulCost.add_le_add_right hle step.2)) hsteps
    · -- here the walk leaves what is settled, and going on makes it no cheaper
      obtain ⟨e, he, -, hec⟩ := hwaits u c hu hset
      exact .inr ⟨e, he, Std.le_trans (Std.le_trans hec hle) (le_costAlong a (step :: steps))⟩

/-- A node that is no dearer than the floor may be settled. -/
theorem Invariant.settle (h : Invariant hops start zero settled floor s) (hv : v ∉ settled)
    (hc : s.scores[v]? = some c) (hle : c ≤ floor) :
    Invariant hops start zero (v :: settled) floor s where
  isHeap := h.isHeap
  known_le := h.known_le
  floor_le := h.floor_le
  le_floor := by
    rw [List.forall_mem_cons]
    exact ⟨⟨c, hc, hle⟩, h.le_floor⟩
  start_le := h.start_le
  nodup := List.nodup_cons.2 ⟨hv, h.nodup⟩
  rooted := ⟨h.hangs v c hc hv, h.rooted⟩
  hangs x d hd hx := by
    have hself : ∀ y, Keeps s s y := fun y => keeps_of_eq rfl
    exact (h.hangs x d hd fun hmem => hx (List.mem_cons_of_mem _ hmem)).mono
      (fun _ hu => List.mem_cons_of_mem _ hu) rfl (hself x) fun u _ => hself u

variable [DecidableLT K]

/-- What comes out is the new floor. What is known may be written anew, as long as
it costs the same. -/
theorem Invariant.pop (h : Invariant hops start zero settled floor s) {q : Queue K V}
    (hpop : s.queue.pop? = some ((key, v), q)) {scores : Std.HashMap V K}
    (hkept : ∀ x, Keeps s { s with scores, queue := q } x)
    (hback : ∀ x, Keeps { s with scores, queue := q } s x) :
    Invariant hops start zero settled key { s with scores, queue := q } where
  isHeap := Queue.isHeap_pop? h.isHeap hpop
  known_le e he := by
    obtain ⟨c, hc, hle⟩ := h.known_le e ((Queue.mem_entries_pop? hpop).2 (.inr he))
    obtain ⟨c', hc', hle'⟩ := hkept e.2 c hc
    exact ⟨c', hc', Std.le_trans hle' hle⟩
  floor_le e he := Queue.le_of_pop? h.isHeap hpop e ((Queue.mem_entries_pop? hpop).2 (.inr he))
  le_floor u hu := by
    obtain ⟨c, hc, hle⟩ := h.le_floor u hu
    obtain ⟨c', hc', hle'⟩ := hkept u c hc
    have := h.floor_le (key, v) ((Queue.mem_entries_pop? hpop).2 (.inl rfl))
    exact ⟨c', hc', Std.le_trans hle' (Std.le_trans hle this)⟩
  start_le := by
    obtain ⟨c, hc, hle⟩ := h.start_le
    obtain ⟨c', hc', hle'⟩ := hkept start c hc
    exact ⟨c', hc', Std.le_trans hle' hle⟩
  nodup := h.nodup
  rooted := h.rooted.mono (fun _ _ => rfl) (fun v _ => hback v) fun v _ => hkept v
  hangs x c hc hx := by
    obtain ⟨c', hc', -⟩ := hback x c hc
    exact (h.hangs x c' hc' hx).mono (fun _ hu => hu) rfl (hback x) fun u _ => hkept u

variable [LawfulBEq V]

/-- At the start the one entry of the queue is the start itself, at no cost, and nothing
is settled. -/
theorem invariant_start : Invariant hops start zero [] zero (.start zero start) where
  isHeap := Queue.isHeap_push Queue.isHeap_empty zero start
  known_le e he := by
    obtain rfl : e = (zero, start) := by simpa [Search.start, Queue.mem_entries_push] using he
    exact ⟨zero, by simp [Search.start], Std.le_refl zero⟩
  floor_le e he := by
    obtain rfl : e = (zero, start) := by simpa [Search.start, Queue.mem_entries_push] using he
    exact Std.le_refl zero
  le_floor := by simp
  start_le := ⟨zero, by simp [Search.start], Std.le_refl zero⟩
  nodup := .nil
  rooted := trivial
  hangs v c hc _ := by
    simp only [Search.start, Std.HashMap.getElem?_insert] at hc
    split at hc
    · next heq =>
      refine .root (beq_iff_eq.1 heq).symm (by simp [Search.start]) fun d hd => ?_
      simp only [Search.start, Std.HashMap.getElem?_insert, heq, if_true] at hd
      cases hd
      exact Std.le_refl zero
    · simp at hc

theorem waits_start : Waits [] (.start zero start) := by
  intro v c hc _
  simp only [Search.start, Std.HashMap.getElem?_insert] at hc
  split at hc
  · next heq =>
    cases hc
    exact ⟨(zero, start), Queue.mem_entries_push.2 (.inl rfl), beq_iff_eq.1 heq, Std.le_refl zero⟩
  · simp at hc

/-! ## A hop is tried -/

/-- What trying a hop makes of the state, when the hop counts. -/
structure Improved (u x : V) (score : K) (s s' : Search K V) : Prop where
  scores : ∀ y, s'.scores[y]? = if x == y then some score else s.scores[y]?
  parents : ∀ y, s'.parents[y]? = if x == y then some u else s.parents[y]?
  queue : s'.queue = s.queue.push score x

/-- An improvement raises no cost. -/
theorem Improved.keeps {score : K} (h : Improved u x score s s')
    (hless : ∀ c, s.scores[x]? = some c → score < c) (y : V) : Keeps s s' y := by
  intro c hc
  rw [h.scores]
  split
  · next heq =>
    obtain rfl := beq_iff_eq.1 heq
    exact ⟨score, rfl, Std.le_of_lt (hless c hc)⟩
  · exact ⟨c, hc, Std.le_refl c⟩

/-- And it leaves the costs of other nodes as they are. -/
theorem Improved.keeps_back {score : K} (h : Improved u x score s s') {y : V} (hne : x ≠ y) :
    Keeps s' s y :=
  keeps_of_eq (by rw [h.scores, if_neg (by simpa using hne)])

/-- **What an improvement keeps.** The invariant survives a strictly cheaper hop, and the
node it leads to was not settled: settled nodes cost at most the floor already. -/
theorem Invariant.improved (h : Invariant hops start zero settled floor s) {w : K}
    (hu : u ∈ settled) (hc : s.scores[u]? = some floor) (hop : (x, w) ∈ hops u)
    (himp : Improved u x (floor + w) s s')
    (hless : ∀ c, s.scores[x]? = some c → floor + w < c) :
    Invariant hops start zero settled floor s' ∧ x ∉ settled := by
  -- a settled node is known at no more than the floor already
  have hx : x ∉ settled := by
    intro hmem
    obtain ⟨c, hc, hle⟩ := h.le_floor x hmem
    exact Std.not_lt.2 (Std.le_trans hle (LawfulCost.le_add_right floor w)) (hless c hc)
  have hne : ∀ y ∈ settled, x ≠ y := fun y hy heq => hx (heq ▸ hy)
  have hkept := himp.keeps hless
  have hscores : ∀ y ∈ settled, s'.scores[y]? = s.scores[y]? := fun y hy => by
    rw [himp.scores, if_neg (by simpa using hne y hy)]
  have hparents : ∀ y, x ≠ y → s'.parents[y]? = s.parents[y]? := fun y hy => by
    rw [himp.parents, if_neg (by simpa using hy)]
  refine ⟨?_, hx⟩
  constructor
  case isHeap =>
    rw [himp.queue]
    exact Queue.isHeap_push h.isHeap _ _
  case known_le =>
    intro e he
    rw [himp.queue, Queue.mem_entries_push] at he
    rcases he with rfl | he
    · exact ⟨floor + w, by simp [himp.scores], Std.le_refl _⟩
    · obtain ⟨c, hc, hle⟩ := h.known_le e he
      obtain ⟨c', hc', hle'⟩ := hkept e.2 c hc
      exact ⟨c', hc', Std.le_trans hle' hle⟩
  case floor_le =>
    intro e he
    rw [himp.queue, Queue.mem_entries_push] at he
    rcases he with rfl | he
    · -- a hop from the node at the floor costs no less than the floor
      exact LawfulCost.le_add_right floor w
    · exact h.floor_le e he
  case le_floor =>
    intro y hy
    rw [hscores y hy]
    exact h.le_floor y hy
  case start_le =>
    obtain ⟨c, hc, hle⟩ := h.start_le
    obtain ⟨c', hc', hle'⟩ := hkept start c hc
    exact ⟨c', hc', Std.le_trans hle' hle⟩
  case nodup => exact h.nodup
  case rooted =>
    exact h.rooted.mono (fun y hy => hparents y (hne y hy))
      (fun y hy => himp.keeps_back (hne y hy)) fun y _ => hkept y
  case hangs =>
    intro y d hd hy
    by_cases hxy : x = y
    · subst hxy
      refine .child hu (by simp [himp.parents]) hop (by rw [hscores u hu, hc]) fun c' hc' => ?_
      simp only [himp.scores, beq_self_eq_true, if_true] at hc'
      cases hc'
      exact Std.le_refl _
    · obtain ⟨d', hd', -⟩ := himp.keeps_back hxy d hd
      exact (h.hangs y d' hd' hy).mono (fun _ hu => hu) (hparents y hxy) (himp.keeps_back hxy)
        fun y _ => hkept y

/-- A node that was improved waits in the queue with its new cost, and whoever waited
still does. -/
theorem Waits.improved (h : Waits settled s) {score : K} (himp : Improved u x score s s') :
    Waits settled s' := by
  intro y c hc hy
  rw [himp.scores] at hc
  rw [himp.queue]
  split at hc
  · next heq =>
    cases hc
    exact ⟨(score, x), Queue.mem_entries_push.2 (.inl rfl), beq_iff_eq.1 heq, Std.le_refl _⟩
  · obtain ⟨e, he, hey, hle⟩ := h y c hc hy
    exact ⟨e, Queue.mem_entries_push.2 (.inr he), hey, hle⟩

/-- **What trying some hops of the node that came out last makes of the state.** -/
structure Expanded (hops : V → List (V × K)) (start : V) (zero : K) (settled : List V) (floor : K)
    (u : V) (tried : List (V × K)) (s s' : Search K V) : Prop where
  invariant : Invariant hops start zero settled floor s'
  waits : Waits settled s'
  keeps : ∀ y, Keeps s s' y
  settled_eq : ∀ y ∈ settled, s'.scores[y]? = s.scores[y]?
  relaxed : Relaxed s' u tried
  length_le : s'.queue.entries.length ≤ s.queue.entries.length + tried.length

/-- Trying one hop extends the list of those tried by it, whether it was cheaper or not.
-/
theorem expanded_improve (h : Invariant hops start zero settled floor s) (hwaits : Waits settled s)
    (hu : u ∈ settled) (hc : s.scores[u]? = some floor) {hop : V × K} (hhop : hop ∈ hops u) :
    Expanded hops start zero settled floor u [hop] s
      (s.improve u hop.1 (floor + hop.2)) := by
  rcases improve_cases s u hop.1 (floor + hop.2) with ⟨c, hknown, hnot, heq⟩ | ⟨hless, heq⟩
  · rw [heq]
    refine ⟨h, hwaits, fun y => keeps_of_eq rfl, fun _ _ => rfl, ?_, by simp⟩
    intro d hd hop' hmem
    obtain rfl : floor = d := by simpa [hc] using hd
    obtain rfl := List.mem_singleton.1 hmem
    exact ⟨c, hknown, Std.not_lt.1 hnot⟩
  · have himp : Improved u hop.1 (floor + hop.2) s (s.improve u hop.1 (floor + hop.2)) := by
      rw [heq]
      exact ⟨fun y => Std.HashMap.getElem?_insert, fun y => Std.HashMap.getElem?_insert, rfl⟩
    obtain ⟨hinv, hnew⟩ := h.improved hu hc hhop himp hless
    have hsettled : ∀ y ∈ settled,
        (s.improve u hop.1 (floor + hop.2)).scores[y]? = s.scores[y]? := fun y hy => by
      rw [himp.scores, if_neg]
      exact fun h => hnew (beq_iff_eq.1 h ▸ hy)
    refine ⟨hinv, hwaits.improved himp, himp.keeps hless, hsettled, ?_, ?_⟩
    · intro d hd hop' hmem
      obtain rfl : floor = d := by simpa [hsettled u hu, hc] using hd
      obtain rfl := List.mem_singleton.1 hmem
      exact ⟨floor + hop'.2, by simp [himp.scores], Std.le_refl _⟩
    · rw [himp.queue, (Queue.entries_push _ _ _).length_eq]
      simp

/-- **Trying hops keeps the invariant**, one hop after another. -/
theorem expanded_expand (h : Invariant hops start zero settled floor s) (hwaits : Waits settled s)
    (hu : u ∈ settled) (hc : s.scores[u]? = some floor) {todo : List (V × K)}
    (hsub : ∀ hop ∈ todo, hop ∈ hops u) :
    Expanded hops start zero settled floor u todo s (s.expand todo u floor) := by
  induction todo generalizing s with
  | nil =>
    exact ⟨h, hwaits, fun y => keeps_of_eq rfl, fun _ _ => rfl, fun _ _ _ => by simp,
      by simp [expand]⟩
  | cons hop todo ih =>
    rw [List.forall_mem_cons] at hsub
    have h1 := expanded_improve h hwaits hu hc hsub.1
    have h2 := ih h1.invariant h1.waits ((h1.settled_eq u hu).trans hc) hsub.2
    refine ⟨h2.invariant, h2.waits, fun y => (h1.keeps y).trans (h2.keeps y),
      fun y hy => (h2.settled_eq y hy).trans (h1.settled_eq y hy), ?_, ?_⟩
    · have hfirst := h1.relaxed.mono (keeps_of_eq (h2.settled_eq u hu).symm) h2.keeps
      intro c hc hop' hmem
      rcases List.mem_cons.1 hmem with rfl | hmem
      · exact hfirst c hc _ (List.mem_singleton.2 rfl)
      · exact h2.relaxed c hc hop' hmem
    · have := h1.length_le
      have := h2.length_le
      simp only [List.length_cons, List.length_nil, expand, List.foldl_cons] at *
      omega

omit [LawfulBEq V] in
/-- A node that comes out again has nothing left to try. -/
theorem expand_eq_self (hc : s.scores[u]? = some floor) {todo : List (V × K)}
    (hrelaxed : Relaxed s u todo) : s.expand todo u floor = s := by
  induction todo with
  | nil => rfl
  | cons hop todo ih =>
    obtain ⟨d, hd, hle⟩ := hrelaxed floor hc hop List.mem_cons_self
    have hstep : s.improve u hop.1 (floor + hop.2) = s := by
      rcases improve_cases s u hop.1 (floor + hop.2) with ⟨c, -, -, heq⟩ | ⟨hless, -⟩
      · exact heq
      · exact absurd (hless d hd) (Std.not_lt.2 hle)
    show expand todo u floor (s.improve u hop.1 (floor + hop.2)) = s
    rw [hstep]
    exact ih fun c hc hop' hmem => hrelaxed c hc hop' (List.mem_cons_of_mem _ hmem)

/-! ## A node is visited -/

/-- The state of a search between two nodes: all hops of the settled nodes are
tried, and the goal is not among them. -/
structure Ready (hops : V → List (V × K)) (start goal : V) (zero : K) (settled : List V)
    (floor : K) (s : Search K V) : Prop where
  invariant : Invariant hops start zero settled floor s
  waits : Waits settled s
  relaxed : ∀ u ∈ settled, Relaxed s u (hops u)
  goal_notMem : goal ∉ settled

theorem ready_start : Ready hops start goal zero [] zero (.start zero start) :=
  ⟨invariant_start, waits_start, by simp, by simp⟩

omit [LawfulBEq V] in
/-- What waited still waits, but for what came out. -/
theorem waits_pop (h : Waits settled s) {q : Queue K V} (hpop : s.queue.pop? = some ((key, v), q))
    {y : V} (hc : s.scores[y]? = some c) (hy : y ∉ settled) (hne : y = v → c < key) :
    ∃ e ∈ q.entries, e.2 = y ∧ e.1 ≤ c := by
  obtain ⟨e, he, hey, hle⟩ := h y c hc hy
  rcases (Queue.mem_entries_pop? hpop).1 he with rfl | he
  · exact absurd (hne hey.symm) (Std.not_lt.2 hle)
  · exact ⟨e, he, hey, hle⟩

/-- Whoever waits goes on waiting when an entry of another node leaves the queue. -/
theorem waits_reset (h : Waits settled s) {q : Queue K V} (hpop : s.queue.pop? = some ((key, v), q))
    {settled' : List V} (hsub : ∀ y ∈ settled, y ∈ settled') (hv : v ∈ settled') :
    Waits settled' (s.reset v key q) := by
  intro y d hd hy
  have hne : v ≠ y := fun heq => hy (heq ▸ hv)
  rw [getElem?_scores_reset, if_neg (by simpa using hne)] at hd
  exact waits_pop h hpop hd (fun hmem => hy (hsub y hmem)) fun heq => absurd heq.symm hne

omit [LawfulBEq V] in
/-- A node that comes out at more than is known of it is passed over. -/
theorem Ready.pass (h : Ready hops start goal zero settled floor s) {q : Queue K V}
    (hpop : s.queue.pop? = some ((key, v), q)) (hc : s.scores[v]? = some c) (hlt : c < key) :
    Ready hops start goal zero settled key { s with queue := q } := by
  refine ⟨h.invariant.pop hpop (fun _ => keeps_of_eq rfl) fun _ => keeps_of_eq rfl, ?_,
    h.relaxed, h.goal_notMem⟩
  intro y d hd hy
  refine waits_pop h.waits hpop hd hy fun hyv => ?_
  rw [hyv, hc] at hd
  cases hd
  exact hlt

/-- A node that comes out again at what is known of it leaves all as it is. -/
theorem Ready.again (h : Ready hops start goal zero settled floor s) {q : Queue K V}
    (hpop : s.queue.pop? = some ((key, v), q)) (hc : s.scores[v]? = some c) (hle : c ≤ key)
    (hnot : ¬ c < key) (hv : v ∈ settled) :
    (s.reset v key q).expand (hops v) v key = s.reset v key q ∧
      Ready hops start goal zero settled key (s.reset v key q) := by
  have hkept := keeps_reset hc (Std.not_lt.1 hnot) q
  have hback := reset_keeps hc hle q
  have hrelaxed : ∀ u ∈ settled, Relaxed (s.reset v key q) u (hops u) := fun u hu =>
    (h.relaxed u hu).mono (hback u) hkept
  have hself : (s.reset v key q).scores[v]? = some key := by simp [getElem?_scores_reset]
  exact ⟨expand_eq_self hself (hrelaxed v hv), h.invariant.pop hpop hkept hback,
    waits_reset h.waits hpop (fun _ hy => hy) hv, hrelaxed, h.goal_notMem⟩

/-- A node that comes out for the first time is settled, and its hops are tried. -/
theorem Ready.settle (h : Ready hops start goal zero settled floor s) {q : Queue K V}
    (hpop : s.queue.pop? = some ((key, v), q)) (hne : v ≠ goal) (hc : s.scores[v]? = some c)
    (hle : c ≤ key) (hnot : ¬ c < key) (hv : v ∉ settled) :
    Ready hops start goal zero (v :: settled) key ((s.reset v key q).expand (hops v) v key) ∧
      ((s.reset v key q).expand (hops v) v key).queue.entries.length ≤
        q.entries.length + (hops v).length := by
  have hkept := keeps_reset hc (Std.not_lt.1 hnot) q
  have hback := reset_keeps hc hle q
  have hself : (s.reset v key q).scores[v]? = some key := by simp [getElem?_scores_reset]
  have hinv : Invariant hops start zero settled key (s.reset v key q) :=
    h.invariant.pop hpop hkept hback
  have hwaits : Waits (v :: settled) (s.reset v key q) :=
    waits_reset h.waits hpop (fun _ hy => List.mem_cons_of_mem v hy) List.mem_cons_self
  have hexp := expanded_expand (hinv.settle hv hself (Std.le_refl key)) hwaits
    List.mem_cons_self hself fun hop hhop => hhop
  refine ⟨⟨hexp.invariant, hexp.waits, ?_, ?_⟩, hexp.length_le⟩
  · rw [List.forall_mem_cons]
    refine ⟨hexp.relaxed, fun u hu => ?_⟩
    -- what is known of a settled node is as it was when its hops were tried
    have heq := hexp.settled_eq u (List.mem_cons_of_mem v hu)
    exact ((h.relaxed u hu).mono (hback u) hkept).mono (keeps_of_eq heq.symm) hexp.keeps
  · simp [h.goal_notMem, Ne.symm hne]

/-- **Visiting what comes out keeps the invariant**, and whatever it makes wait is
paid for by the hops of a node settled for the first time. -/
theorem Ready.visit (h : Ready hops start goal zero settled floor s) {q : Queue K V}
    (hpop : s.queue.pop? = some ((key, v), q)) (hne : v ≠ goal) :
    ∃ settled', Ready hops start goal zero settled' key ({ s with queue := q }.visit hops v key) ∧
      ({ s with queue := q }.visit hops v key).queue.entries.length + 1 + hopCount hops settled ≤
        s.queue.entries.length + hopCount hops settled' := by
  have hlen : s.queue.entries.length = q.entries.length + 1 :=
    (Queue.entries_pop? hpop).length_eq
  obtain ⟨c, hc, hle⟩ : ∃ c, s.scores[v]? = some c ∧ c ≤ key :=
    h.invariant.known_le (key, v) ((Queue.mem_entries_pop? hpop).2 (.inl rfl))
  by_cases hlt : c < key
  · rw [visit_of_lt hc hlt]
    refine ⟨settled, h.pass hpop hc hlt, ?_⟩
    show q.entries.length + 1 + hopCount hops settled ≤ _
    omega
  rw [visit_of_not_lt hc hlt]
  by_cases hv : v ∈ settled
  · obtain ⟨hself, hready⟩ := h.again hpop hc hle hlt hv
    rw [hself]
    refine ⟨settled, hready, ?_⟩
    show q.entries.length + 1 + hopCount hops settled ≤ _
    omega
  · obtain ⟨hready, hlength⟩ := h.settle hpop hne hc hle hlt hv
    refine ⟨v :: settled, hready, ?_⟩
    rw [hopCount_cons]
    omega

/-! ## The way back -/

omit [LT K] [LawfulCost K] [DecidableLT K] [LawfulBEq V] in
/-- The older part of a rooted list is rooted by itself. -/
theorem Rooted.of_append {l : List V} (h : Rooted hops start zero s (l ++ older)) :
    Rooted hops start zero s older := by
  induction l with
  | nil => exact h
  | cons v l ih => exact ih h.2

omit [DecidableLT K] [LawfulBEq V] in
/-- **The way back ends at the start**, and is a walk at no more than is known of
the node. -/
theorem trace_rooted {l : List V} (h : Rooted hops start zero s (v :: l)) {rounds : Nat}
    (hrounds : l.length < rounds) (rest : List V) :
    ∃ steps, Leads hops start steps v ∧
      trace s.parents rounds v rest = .found (start :: steps.map (·.1) ++ rest) ∧
      ∀ c, s.scores[v]? = some c → costAlong zero steps ≤ c := by
  induction rounds generalizing v l rest with
  | zero => omega
  | succ rounds ih =>
    rcases h.1 with ⟨rfl, hparent, hcost⟩ | @⟨u, w, d, hu, hparent, hop, hd, hcost⟩
    · exact ⟨[], rfl, by simp [trace, hparent], hcost⟩
    · -- the parent was settled before, so fewer are left to trace
      obtain ⟨newer, l', rfl⟩ := List.append_of_mem hu
      have hfewer : l'.length < rounds := by
        simp only [List.length_append, List.length_cons] at hrounds
        omega
      obtain ⟨steps, hsteps, htrace, hle⟩ := ih h.2.of_append hfewer (v :: rest)
      refine ⟨steps ++ [(v, w)], leads_append hsteps ⟨hop, rfl⟩, ?_, fun c hc => ?_⟩
      · simp [trace, hparent, htrace]
      · rw [costAlong_append]
        exact Std.le_trans (LawfulCost.add_le_add_right (hle d hd) w) (hcost c hc)

omit [LT K] [LawfulCost K] [DecidableLT K] in
/-- All but the start have a parent. -/
theorem Rooted.length_le {l : List V} (h : Rooted hops start zero s l) (hnodup : l.Nodup) :
    l.length ≤ s.parents.size + 1 := by
  have hmem : ∀ v ∈ l, v ≠ start → v ∈ s.parents.keys := by
    intro v hv hne
    obtain ⟨newer, l', rfl⟩ := List.append_of_mem hv
    rcases h.of_append.1 with ⟨hroot, -, -⟩ | ⟨-, hparent, -, -, -⟩
    · exact absurd hroot hne
    · rw [Std.HashMap.mem_keys, Std.HashMap.mem_iff_isSome_getElem?, hparent]
      rfl
  have hsub : l.erase start ⊆ s.parents.keys := fun v hv => by
    rw [hnodup.mem_erase_iff] at hv
    exact hmem v hv.2 hv.1
  have := (hnodup.erase start).length_le_of_subset hsub
  rw [Std.HashMap.length_keys] at this
  rw [List.length_erase] at this
  split at this <;> omega

/-! ## What a run answers -/

/-- A search answers with a walk that no walk is cheaper than, or that there is no
walk. -/
inductive Answers (hops : V → List (V × K)) (start goal : V) (zero : K) : Outcome V → Prop
  | found {steps : List (V × K)} (hsteps : Leads hops start steps goal)
      (hleast : ∀ steps', Leads hops start steps' goal →
        costAlong zero steps ≤ costAlong zero steps') :
      Answers hops start goal zero (.found (start :: steps.map (·.1)))
  | exhausted (hnone : ∀ steps, ¬ Leads hops start steps goal) :
      Answers hops start goal zero .exhausted

omit [LawfulCost K] [LawfulBEq V] in
/-- The goal hangs from a settled node when it comes out. -/
theorem Ready.rooted_goal (h : Ready hops start goal zero settled floor s) {q : Queue K V}
    (hpop : s.queue.pop? = some ((key, goal), q)) :
    Rooted hops start zero s (goal :: settled) := by
  obtain ⟨c, hc, -⟩ := h.invariant.known_le _ ((Queue.mem_entries_pop? hpop).2 (.inl rfl))
  exact ⟨h.invariant.hangs goal c hc h.goal_notMem, h.invariant.rooted⟩

/-- **What the search knows of the goal when it comes out is the least cost.** -/
theorem Ready.answers_trace (h : Ready hops start goal zero settled floor s) {q : Queue K V}
    (hpop : s.queue.pop? = some ((key, goal), q)) :
    Answers hops start goal zero (trace s.parents (s.parents.size + 1) goal []) := by
  have htop : (key, goal) ∈ s.queue.entries := (Queue.mem_entries_pop? hpop).2 (.inl rfl)
  obtain ⟨c, hc, hle⟩ := h.invariant.known_le _ htop
  have hrooted := h.rooted_goal hpop
  have hlen : settled.length < s.parents.size + 1 :=
    hrooted.length_le (List.nodup_cons.2 ⟨h.goal_notMem, h.invariant.nodup⟩)
  obtain ⟨steps, hsteps, htrace, hcost⟩ := trace_rooted hrooted hlen []
  rw [htrace, List.append_nil]
  refine .found hsteps fun steps' hsteps' => ?_
  obtain ⟨d, hd, hdz⟩ := h.invariant.start_le
  rcases frontier h.waits h.relaxed hd hdz hsteps' with hgoal | ⟨e, he, hle'⟩
  · exact absurd hgoal h.goal_notMem
  · have hkey : key ≤ e.1 := Queue.le_of_pop? h.invariant.isHeap hpop e he
    exact Std.le_trans (hcost c hc) (Std.le_trans hle (Std.le_trans hkey hle'))

omit [DecidableLT K] [LawfulBEq V] in
/-- When the queue runs empty everything that can be reached is settled, and the goal is
not. -/
theorem Ready.answers_exhausted (h : Ready hops start goal zero settled floor s)
    (hempty : s.queue.entries = []) : Answers hops start goal zero .exhausted := by
  refine .exhausted fun steps hsteps => ?_
  obtain ⟨d, hd, hdz⟩ := h.invariant.start_le
  rcases frontier h.waits h.relaxed hd hdz hsteps with hgoal | ⟨e, he, -⟩
  · exact h.goal_notMem hgoal
  · simp [hempty] at he

/-- **From any state the search answers**, if it is left a round for what waits,
for every hop of a node not settled yet, and to find nothing left. -/
theorem Ready.answers_run (h : Ready hops start goal zero settled floor s) {bound rounds : Nat}
    (hbound : ∀ l : List V, l.Nodup → hopCount hops l ≤ bound)
    (hrounds : s.queue.entries.length + bound + 1 ≤ rounds + hopCount hops settled) :
    Answers hops start goal zero (run hops goal rounds s) := by
  -- the settled nodes change with the rounds, and what is left to pay with them
  induction rounds generalizing settled floor s with
  | zero =>
    have := hbound settled h.invariant.nodup
    omega
  | succ rounds ih =>
    unfold run
    rcases hpop : s.queue.pop? with _ | ⟨⟨key, v⟩, q⟩
    · exact h.answers_exhausted (Queue.pop?_eq_none_iff.1 hpop)
    · simp only
      split
      · next hgoal =>
        obtain rfl := beq_iff_eq.1 hgoal
        exact h.answers_trace hpop
      · next hgoal =>
        obtain ⟨settled', hready, hpaid⟩ := h.visit hpop (by simpa using hgoal)
        exact ih hready (by omega)

/-- **The search answers**, if it is given a round for every hop, one for the start
and one to find nothing left. -/
theorem answers_run {bound : Nat} (hbound : ∀ l : List V, l.Nodup → hopCount hops l ≤ bound) :
    Answers hops start goal zero (run hops goal (bound + 2) (.start zero start)) := by
  have hlen : (Search.start zero start).queue.entries.length = 1 :=
    (Queue.entries_push Queue.empty zero start).length_eq
  exact ready_start.answers_run hbound (by rw [hlen]; omega)

end Waybill.Route.Search
