import Mathlib.Data.Set.Function
import Waybill.Proofs.Queue
import Waybill.Route.Search

/-!
# Searching under other names

A search asks of its nodes only whether two are the same. So it goes the same way if
the nodes are called by other names, as long as no two nodes that it meets share one
(`run_map`): what it finds is what it would have found, renamed. That holds of ties
as well, since which entry comes out of the queue is decided by the keys and by where
the entries stand (`Queue.pop?_map`).
-/

namespace Waybill.Route

variable {K V W : Type}

/-! ## The queue -/

namespace Queue

/-- The queue with its values renamed. -/
def map (f : V → W) (q : Queue K V) : Queue K W := ⟨q.items.map (Prod.map id f)⟩

theorem map_swap {α β : Type} (f : α → β) (items : Array α) {i j : Nat} (hi : i < items.size)
    (hj : j < items.size) :
    (items.swap i j).map f =
      (items.map f).swap i j (by rwa [Array.size_map]) (by rwa [Array.size_map]) := by
  refine Array.ext (by simp) fun k hk _ => ?_
  simp only [Array.getElem_map, Array.getElem_swap]
  split
  · rfl
  · split <;> rfl

variable [LT K] [DecidableLT K]

/-- Climbing looks at keys only. -/
theorem climb_map (f : V → W) (items : Array (K × V)) (i : Nat) :
    climb (items.map (Prod.map id f)) i = (climb items i).map (Prod.map id f) := by
  fun_induction climb items i with
  | case1 items i hi hp hless ih =>
    rw [map_swap] at ih
    rw [climb, dif_pos (by simpa using hi)]
    simp only [Array.getElem_map, Prod.map_fst, id_eq, if_pos hless]
    exact ih
  | case2 items i hi hp hnot =>
    rw [climb, dif_pos (by simpa using hi)]
    simp only [Array.getElem_map, Prod.map_fst, id_eq, if_neg hnot]
  | case3 items i hi =>
    rw [climb, dif_neg (by simpa using hi)]

theorem sink_map (f : V → W) (items : Array (K × V)) (i : Nat) :
    sink (items.map (Prod.map id f)) i =
      ((sink items i).1.map (Prod.map id f), (sink items i).2) := by
  fun_induction sink items i with
  | case1 items i hsize hless ih =>
    rw [map_swap] at ih
    rw [sink, dif_pos (by simpa using hsize)]
    simp only [Array.getElem_map, Prod.map_fst, id_eq, if_pos hless]
    exact ih
  | case2 items i hsize hnot ih =>
    rw [map_swap] at ih
    rw [sink, dif_pos (by simpa using hsize)]
    simp only [Array.getElem_map, Prod.map_fst, id_eq, if_neg hnot]
    exact ih
  | case3 items i hsize hchild =>
    rw [sink, dif_neg (by simpa using hsize), dif_pos (by simpa using hchild), map_swap]
  | case4 items i hsize hchild =>
    rw [sink, dif_neg (by simpa using hsize), dif_neg (by simpa using hchild)]

theorem push_map (f : V → W) (q : Queue K V) (key : K) (value : V) :
    (q.map f).push key (f value) = (q.push key value).map f := by
  have hitems : (q.items.map (Prod.map id f)).push (key, f value) =
      (q.items.push (key, value)).map (Prod.map id f) := by
    rw [Array.map_push]
    rfl
  simp only [push, map, hitems, climb_map, Array.size_map]

/-- **The same place comes out.** -/
theorem pop?_map (f : V → W) (q : Queue K V) :
    (q.map f).pop? = q.pop?.map fun p => ((p.1.1, f p.1.2), p.2.map f) := by
  have hback : (q.items.map (Prod.map id f)).back? = q.items.back?.map (Prod.map id f) :=
    Array.back?_map
  simp only [pop?, map, hback]
  rcases q.items.back? with _ | last
  · rfl
  simp only [Option.map_some, ← Array.map_pop, Array.getElem?_map, ← Array.map_setIfInBounds]
  rcases q.items.pop[0]? with _ | top
  · simp [empty, Prod.map]
  · simp only [Option.map_some, sink_map, climb_map]
    rfl

end Queue

/-! ## The search -/

/-- What comes of a search, its nodes renamed. -/
def Outcome.map (f : V → W) : Outcome V → Outcome W
  | found nodes => .found (nodes.map f)
  | exhausted => .exhausted
  | unfinished => .unfinished

namespace Search

variable [BEq V] [Hashable V] [BEq W] [Hashable W]
variable {live : Set V} {f : V → W} {s : Search K V} {t : Search K W} {u v : V}
variable {hops : V → List (V × K)} {hops' : W → List (W × K)}

/-- A search that meets live nodes only, and the same search with its nodes renamed. -/
structure Renames (live : Set V) (f : V → W) (s : Search K V) (t : Search K W) : Prop where
  scores : ∀ v ∈ live, t.scores[f v]? = s.scores[v]?
  parents : ∀ v ∈ live, t.parents[f v]? = s.parents[v]?.map f
  size_parents : t.parents.size = s.parents.size
  queue : t.queue = s.queue.map f
  live_queue : ∀ e ∈ s.queue.entries, e.2 ∈ live
  live_parent : ∀ (v u : V), s.parents[v]? = some u → u ∈ live

/-- The hops that leave a live node under its other name are those that leave it, and
they lead to live nodes. -/
def RenamesHops (live : Set V) (f : V → W) (hops : V → List (V × K))
    (hops' : W → List (W × K)) : Prop :=
  ∀ v ∈ live, hops' (f v) = (hops v).map (Prod.map f id) ∧ ∀ hop ∈ hops v, hop.1 ∈ live

/-- Nodes are traced back through the same parents. -/
theorem Renames.trace (h : Renames live f s t) (rounds : Nat) (hv : v ∈ live) (rest : List V) :
    Search.trace t.parents rounds (f v) (rest.map f) =
      (Search.trace s.parents rounds v rest).map f := by
  induction rounds generalizing v rest with
  | zero => rfl
  | succ rounds ih =>
    unfold Search.trace
    rw [h.parents v hv]
    rcases hparent : s.parents[v]? with _ | u
    · rfl
    · exact ih (h.live_parent v u hparent) (v :: rest)

variable [LawfulBEq V] [LawfulBEq W]

omit [Hashable V] [Hashable W] in
theorem beq_map_iff (hinj : live.InjOn f) (hu : u ∈ live) (hv : v ∈ live) :
    (f u == f v) = (u == v) := by
  rw [Bool.eq_iff_iff, beq_iff_eq, beq_iff_eq]
  exact hinj.eq_iff hu hv

/-- What is known of live nodes is the same after a live node is told of. -/
theorem getElem?_insert_map {α β : Type} {m : Std.HashMap V α} {m' : Std.HashMap W β} {g : α → β}
    (hinj : live.InjOn f) (hm : ∀ v ∈ live, m'[f v]? = m[v]?.map g) (hu : u ∈ live) (a : α)
    (hv : v ∈ live) : (m'.insert (f u) (g a))[f v]? = (m.insert u a)[v]?.map g := by
  rw [Std.HashMap.getElem?_insert, Std.HashMap.getElem?_insert, beq_map_iff hinj hu hv]
  split
  · rfl
  · exact hm v hv

theorem Renames.getElem?_scores_insert (h : Renames live f s t) (hinj : live.InjOn f)
    (hv : v ∈ live) (score : K) :
    ∀ x ∈ live, (t.scores.insert (f v) score)[f x]? = (s.scores.insert v score)[x]? := by
  intro x hx
  have hknown : ∀ y ∈ live, t.scores[f y]? = s.scores[y]?.map id := by simpa using h.scores
  simpa using getElem?_insert_map hinj hknown hv score hx

/-! ### One step -/

variable [LT K] [DecidableLT K]

/-- Both searches start alike. -/
theorem renames_start (hinj : live.InjOn f) (hv : v ∈ live) (zero : K) :
    Renames live f (.start zero v) (.start zero (f v)) where
  scores u hu := by
    simp only [start, Std.HashMap.getElem?_insert, beq_map_iff hinj hv hu,
      Std.HashMap.getElem?_empty]
  parents u hu := by simp [start]
  size_parents := by simp [start]
  queue := by
    have := Queue.push_map f (Queue.empty : Queue K V) zero v
    simpa [start, Queue.map, Queue.empty] using this
  live_queue e he := by
    obtain rfl : e = (zero, v) := by simpa [start, Queue.mem_entries_push] using he
    exact hv
  live_parent v u hu := by simp [start] at hu

/-- One hop improves both or neither. -/
theorem Renames.improve (h : Renames live f s t) (hinj : live.InjOn f) (hu : u ∈ live)
    (hv : v ∈ live) (score : K) :
    Renames live f (s.improve u v score) (t.improve (f u) (f v) score) := by
  unfold Search.improve
  rw [h.scores v hv]
  split
  · constructor
    case scores => exact h.getElem?_scores_insert hinj hv score
    case parents => exact fun x hx => getElem?_insert_map hinj h.parents hv u hx
    case size_parents =>
      have hmem : f v ∈ t.parents ↔ v ∈ s.parents := by
        rw [Std.HashMap.mem_iff_isSome_getElem?, Std.HashMap.mem_iff_isSome_getElem?,
          h.parents v hv, Option.isSome_map]
      simp only [Std.HashMap.size_insert, hmem, h.size_parents]
    case queue => rw [h.queue, Queue.push_map]
    case live_queue =>
      intro e he
      rcases Queue.mem_entries_push.1 he with rfl | he
      · exact hv
      · exact h.live_queue e he
    case live_parent =>
      intro x y hxy
      rw [Std.HashMap.getElem?_insert] at hxy
      split at hxy
      · cases hxy
        exact hu
      · exact h.live_parent x y hxy
  · exact h

variable [Add K]

theorem Renames.expand (h : Renames live f s t) (hinj : live.InjOn f) (hu : u ∈ live) (score : K)
    {todo : List (V × K)} (htodo : ∀ hop ∈ todo, hop.1 ∈ live) :
    Renames live f (s.expand todo u score) (t.expand (todo.map (Prod.map f id)) (f u) score) := by
  induction todo generalizing s t with
  | nil => exact h
  | cons hop todo ih =>
    rw [List.forall_mem_cons] at htodo
    exact ih (h.improve hinj hu htodo.1 (score + hop.2)) htodo.2

/-- A node that comes out of the queue is passed over by both or by neither. -/
theorem Renames.visit (h : Renames live f s t) (hinj : live.InjOn f)
    (hhops : RenamesHops live f hops hops') (hv : v ∈ live) (score : K) :
    Renames live f (s.visit hops v score) (t.visit hops' (f v) score) := by
  unfold Search.visit
  rw [h.scores v hv]
  split
  · exact h
  · have hknown : Renames live f { s with scores := s.scores.insert v score }
        { t with scores := t.scores.insert (f v) score } :=
      ⟨h.getElem?_scores_insert hinj hv score, h.parents, h.size_parents, h.queue, h.live_queue,
        h.live_parent⟩
    rw [(hhops v hv).1]
    exact hknown.expand hinj hv score (hhops v hv).2

/-! ### The whole search -/

/-- **Two searches over hops of the same form give the same answer under other names.** -/
theorem Renames.run (h : Renames live f s t) (hinj : live.InjOn f)
    (hhops : RenamesHops live f hops hops') {goal : V} (hgoal : goal ∈ live) (rounds : Nat) :
    Search.run hops' (f goal) rounds t = (Search.run hops goal rounds s).map f := by
  induction rounds generalizing s t with
  | zero => rfl
  | succ rounds ih =>
    unfold Search.run
    rw [h.queue, Queue.pop?_map]
    rcases hpop : s.queue.pop? with _ | ⟨⟨score, v⟩, queue⟩
    · rfl
    · have hv : v ∈ live := h.live_queue _ ((Queue.mem_entries_pop? hpop).2 (.inl rfl))
      have hrest : Renames live f { s with queue } { t with queue := queue.map f } :=
        ⟨h.scores, h.parents, h.size_parents, rfl,
          fun e he => h.live_queue e ((Queue.mem_entries_pop? hpop).2 (.inr he)), h.live_parent⟩
      simp only [Option.map_some, beq_map_iff hinj hv hgoal]
      split
      · rw [h.size_parents]
        exact h.trace _ hgoal []
      · exact ih (hrest.visit hinj hhops hv score)

/-- **A search under other names finds what the search finds**, renamed. -/
theorem run_map (hinj : live.InjOn f) (hhops : RenamesHops live f hops hops') {start goal : V}
    (hstart : start ∈ live) (hgoal : goal ∈ live) (zero : K) (rounds : Nat) :
    run hops' (f goal) rounds (.start zero (f start)) =
      (run hops goal rounds (.start zero start)).map f :=
  (renames_start hinj hstart zero).run hinj hhops hgoal rounds

end Search

end Waybill.Route
