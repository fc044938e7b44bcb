import Waybill.Network.Basic
import Waybill.Proofs.Slots

/-!
# Nodes and their edges

A node lists the edges that leave it and those that reach it; an edge holds the
slots of its ends. `Lists` says that the two agree, for either end. It is stated of
one end, so that what an operation does to both is proved once: `Lists.join` for a
new edge, `Lists.drop` for one that is taken out. `Stored` is kept while edges are
dropped one after another (`Stored.isolate`), which leaves just those that do not
touch the node.
-/

namespace Waybill

/-! ## One end -/

section Lists

variable {vertices vertices' : Slots Vertex} {links links' : Slots Link}
variable {listed : Vertex → List Nat} {ending : Link → Nat} {name : Edge → String}

/-- The end of every edge is in a slot of that name, and the node there lists just
the edges that end there, each once. -/
structure Lists (vertices : Slots Vertex) (links : Slots Link) (listed : Vertex → List Nat)
    (ending : Link → Nat) (name : Edge → String) : Prop where
  live : ∀ k l, links.get? k = some l →
    ∃ v, vertices.get? (ending l) = some v ∧ v.node = name l.edge
  mem_iff : ∀ i v, vertices.get? i = some v →
    ∀ k, k ∈ listed v ↔ ∃ l, links.get? k = some l ∧ ending l = i
  nodup : ∀ i v, vertices.get? i = some v → (listed v).Nodup

/-- A link stands in the list of a node just if it ends there. -/
theorem Lists.mem_iff_of_get? (h : Lists vertices links listed ending name) {i k : Nat} {v : Vertex}
    (hv : vertices.get? i = some v) {l : Link} (hl : links.get? k = some l) :
    k ∈ listed v ↔ ending l = i := by
  rw [h.mem_iff i v hv]
  constructor
  · rintro ⟨l', hl', hend⟩
    rw [hl] at hl'
    cases hl'
    exact hend
  · intro hend
    exact ⟨l, hl, hend⟩

/-- The edges that a node lists are those that end there. -/
theorem Lists.mem_filterMap_iff (h : Lists vertices links listed ending name) {i : Nat} {v : Vertex}
    (hv : vertices.get? i = some v) {l : Link} :
    l ∈ (listed v).filterMap links.get? ↔ ∃ k, links.get? k = some l ∧ ending l = i := by
  rw [List.mem_filterMap]
  constructor
  · rintro ⟨k, hk, hl⟩
    obtain ⟨l', hl', hend⟩ := (h.mem_iff i v hv k).1 hk
    rw [hl] at hl'
    cases hl'
    exact ⟨k, hl, hend⟩
  · rintro ⟨k, hl, hend⟩
    exact ⟨k, (h.mem_iff i v hv k).2 ⟨l, hl, hend⟩, hl⟩

/-- An edge is put into a free slot and listed at its end. -/
theorem Lists.join (h : Lists vertices links listed ending name) {slot : Nat} {new : Link}
    (hfree : links.get? slot = none)
    (hnew : ∃ v, vertices.get? (ending new) = some v ∧ v.node = name new.edge)
    (hlinks : ∀ k, links'.get? k = if k = slot then some new else links.get? k)
    (hvertices : ∀ i, ∃ f, vertices'.get? i = (vertices.get? i).map f ∧ ∀ v, (f v).node = v.node ∧
      listed (f v) = if i = ending new then slot :: listed v else listed v) :
    Lists vertices' links' listed ending name := by
  constructor
  · intro k l hl
    have hlive : ∃ v, vertices.get? (ending l) = some v ∧ v.node = name l.edge := by
      rw [hlinks] at hl
      split at hl
      · cases hl
        exact hnew
      · exact h.live k l hl
    obtain ⟨v, hv, hname⟩ := hlive
    obtain ⟨f, hf, hfv⟩ := hvertices (ending l)
    exact ⟨f v, by rw [hf, hv, Option.map_some], (hfv v).1.trans hname⟩
  · intro i v' hv' k
    obtain ⟨f, hf, hfv⟩ := hvertices i
    rw [hf, Option.map_eq_some_iff] at hv'
    obtain ⟨v, hv, rfl⟩ := hv'
    rw [(hfv v).2, hlinks]
    by_cases hk : k = slot
    · subst hk
      -- nothing lists a free slot
      have hnot : k ∉ listed v := by
        rw [h.mem_iff i v hv]
        rintro ⟨l, hl, -⟩
        rw [hfree] at hl
        cases hl
      by_cases hi : i = ending new
      · simp [hi]
      · simp [hi, hnot, Ne.symm hi]
    · by_cases hi : i = ending new
      · rw [if_pos hi, List.mem_cons, or_iff_right hk, if_neg hk]
        exact h.mem_iff i v hv k
      · rw [if_neg hi, if_neg hk]
        exact h.mem_iff i v hv k
  · intro i v' hv'
    obtain ⟨f, hf, hfv⟩ := hvertices i
    rw [hf, Option.map_eq_some_iff] at hv'
    obtain ⟨v, hv, rfl⟩ := hv'
    rw [(hfv v).2]
    split
    · refine List.nodup_cons.2 ⟨fun hmem => ?_, h.nodup i v hv⟩
      obtain ⟨l, hl, -⟩ := (h.mem_iff i v hv slot).1 hmem
      rw [hfree] at hl
      cases hl
    · exact h.nodup i v hv

/-- An edge is taken out of its slot and of the list at its end. -/
theorem Lists.drop (h : Lists vertices links listed ending name) {slot : Nat} {old : Link}
    (hold : links.get? slot = some old)
    (hlinks : ∀ k, links'.get? k = if k = slot then none else links.get? k)
    (hvertices : ∀ i, ∃ f, vertices'.get? i = (vertices.get? i).map f ∧ ∀ v, (f v).node = v.node ∧
      listed (f v) = if i = ending old then (listed v).erase slot else listed v) :
    Lists vertices' links' listed ending name := by
  constructor
  · intro k l hl
    rw [hlinks] at hl
    split at hl
    · cases hl
    · obtain ⟨v, hv, hname⟩ := h.live k l hl
      obtain ⟨f, hf, hfv⟩ := hvertices (ending l)
      exact ⟨f v, by rw [hf, hv, Option.map_some], (hfv v).1.trans hname⟩
  · intro i v' hv' k
    obtain ⟨f, hf, hfv⟩ := hvertices i
    rw [hf, Option.map_eq_some_iff] at hv'
    obtain ⟨v, hv, rfl⟩ := hv'
    have hmem : k ∈ listed (f v) ↔ k ∈ listed v ∧ k ≠ slot := by
      rw [(hfv v).2]
      split
      · rw [(h.nodup i v hv).mem_erase_iff, and_comm]
      · next hi =>
        -- a node that lists the slot is the one at which the link ended
        refine ⟨fun hk => ⟨hk, fun heq => ?_⟩, fun hk => hk.1⟩
        obtain ⟨l, hl, hli⟩ := (h.mem_iff i v hv k).1 hk
        rw [heq, hold] at hl
        cases hl
        exact hi hli.symm
    rw [hmem, h.mem_iff i v hv, hlinks]
    by_cases hk : k = slot <;> simp [hk]
  · intro i v' hv'
    obtain ⟨f, hf, hfv⟩ := hvertices i
    rw [hf, Option.map_eq_some_iff] at hv'
    obtain ⟨v, hv, rfl⟩ := hv'
    rw [(hfv v).2]
    split
    · exact (h.nodup i v hv).erase _
    · exact h.nodup i v hv

/-- A node without edges is put into a free slot. -/
theorem Lists.put (h : Lists vertices links listed ending name) {new : Vertex}
    (hnew : listed new = []) : Lists (vertices.put new).2 links listed ending name := by
  have hfree : vertices.get? (vertices.put new).1 = none := Slots.get?_next vertices
  constructor
  · intro k l hl
    obtain ⟨v, hv, hname⟩ := h.live k l hl
    exact ⟨v, Slots.get?_put_of_some hv new, hname⟩
  · intro i v hv k
    rw [Slots.get?_put] at hv
    split at hv
    · next hi =>
      cases hv
      -- no edge ends in a slot that was free
      refine ⟨fun hk => by simp [hnew] at hk, ?_⟩
      rintro ⟨l, hl, rfl⟩
      obtain ⟨v, hv, -⟩ := h.live k l hl
      rw [hi, hfree] at hv
      cases hv
    · exact h.mem_iff i v hv k
  · intro i v hv
    rw [Slots.get?_put] at hv
    split at hv
    · cases hv
      simp [hnew]
    · exact h.nodup i v hv

/-- A node at which no edge ends is taken out of its slot. -/
theorem Lists.vacate (h : Lists vertices links listed ending name) {slot : Nat}
    (hnone : ∀ k l, links.get? k = some l → ending l ≠ slot) :
    Lists (vertices.vacate slot) links listed ending name := by
  constructor
  · intro k l hl
    obtain ⟨v, hv, hname⟩ := h.live k l hl
    exact ⟨v, by rw [Slots.get?_vacate, if_neg (hnone k l hl), hv], hname⟩
  · intro i v hv k
    rw [Slots.get?_vacate] at hv
    split at hv
    · cases hv
    · exact h.mem_iff i v hv k
  · intro i v hv
    rw [Slots.get?_vacate] at hv
    split at hv
    · cases hv
    · exact h.nodup i v hv

/-- An edge is changed in its slot, but not where it ends. -/
theorem Lists.update (h : Lists vertices links listed ending name) {slot : Nat} {f : Link → Link}
    (hf : ∀ l, links.get? slot = some l → ending (f l) = ending l ∧ name (f l).edge = name l.edge) :
    Lists vertices (links.update slot f) listed ending name := by
  have hkept : ∀ k l', (links.update slot f).get? k = some l' →
      ∃ l, links.get? k = some l ∧ ending l' = ending l ∧ name l'.edge = name l.edge := by
    intro k l' hl'
    rw [Slots.get?_update] at hl'
    split at hl'
    · next hk =>
      obtain ⟨l, hl, rfl⟩ := Option.map_eq_some_iff.1 hl'
      exact ⟨l, hl, hf l (hk ▸ hl)⟩
    · exact ⟨l', hl', rfl, rfl⟩
  constructor
  · intro k l' hl'
    obtain ⟨l, hl, hend, hname⟩ := hkept k l' hl'
    rw [hend, hname]
    exact h.live k l hl
  · intro i v hv k
    rw [h.mem_iff i v hv]
    constructor
    · rintro ⟨l, hl, rfl⟩
      rw [Slots.get?_update]
      split
      · next hk => exact ⟨f l, by rw [hl, Option.map_some], (hf l (hk ▸ hl)).1⟩
      · exact ⟨l, hl, rfl⟩
    · rintro ⟨l', hl', rfl⟩
      obtain ⟨l, hl, hend, -⟩ := hkept k l' hl'
      exact ⟨l, hl, hend.symm⟩
  · exact h.nodup

end Lists

/-! ## Both ends -/

namespace Network

variable {n : Network} {slot : Nat} {e : Edge} {l : Link}

/-- The nodes and the edges of a network agree on the ends of the edges, and both
are counted. -/
structure Stored (n : Network) : Prop where
  leaving : Lists n.vertices n.links (·.leaving) (·.tail) (·.source)
  reaching : Lists n.vertices n.links (·.reaching) (·.head) (·.target)
  vertices_counted : n.vertices.Counted
  links_counted : n.links.Counted

theorem stored_empty : empty.Stored :=
  ⟨⟨nofun, nofun, nofun⟩, ⟨nofun, nofun, nofun⟩, Slots.counted_empty, Slots.counted_empty⟩

/-- What is stored does not depend on the indexes. -/
theorem Stored.reindex (h : n.Stored) (nodeIndex : Std.HashMap String Nat)
    (edgeIndex : Std.HashMap EdgeId Nat) : ({ n with nodeIndex, edgeIndex } : Network).Stored :=
  ⟨h.leaving, h.reaching, h.vertices_counted, h.links_counted⟩

/-! ## Dropping edges -/

/-- A link that is dropped leaves the lists of its two ends and no other. -/
theorem get?_vertices_dropLink (hold : n.links.get? slot = some l) (i : Nat) :
    (n.dropLink slot).vertices.get? i = (n.vertices.get? i).map fun v =>
      { v with
        leaving := if i = l.tail then v.leaving.erase slot else v.leaving
        reaching := if i = l.head then v.reaching.erase slot else v.reaching } := by
  simp only [dropLink, hold, Slots.get?_update]
  rcases n.vertices.get? i with _ | v
  · split <;> split <;> rfl
  · split <;> split <;> rfl

theorem get?_links_dropLink (n : Network) (slot k : Nat) :
    (n.dropLink slot).links.get? k = if k = slot then none else n.links.get? k := by
  unfold dropLink
  split
  · next hnone =>
    split
    · next hk => rw [hk, hnone]
    · rfl
  · exact Slots.get?_vacate n.links slot k

/-- Dropping an edge leaves the nodes where they are. -/
theorem node_dropLink (n : Network) (slot i : Nat) :
    ((n.dropLink slot).vertices.get? i).map (·.node) = (n.vertices.get? i).map (·.node) := by
  rcases hold : n.links.get? slot with _ | l
  · simp only [dropLink, hold]
  · rw [get?_vertices_dropLink hold, Option.map_map]
    rfl

/-- Dropping an edge leaves the indexes as they are. -/
theorem index_dropLink (n : Network) (slot : Nat) :
    (n.dropLink slot).nodeIndex = n.nodeIndex ∧ (n.dropLink slot).edgeIndex = n.edgeIndex := by
  unfold dropLink
  split <;> exact ⟨rfl, rfl⟩

/-- Dropping links touches no index. -/
theorem index_foldl_dropLink (n : Network) (slots : List Nat) :
    (slots.foldl dropLink n).nodeIndex = n.nodeIndex ∧
      (slots.foldl dropLink n).edgeIndex = n.edgeIndex := by
  induction slots generalizing n with
  | nil => exact ⟨rfl, rfl⟩
  | cons slot slots ih =>
    obtain ⟨hnode, hedge⟩ := index_dropLink n slot
    exact ⟨(ih _).1.trans hnode, (ih _).2.trans hedge⟩

theorem index_isolate (n : Network) (slot : Nat) :
    (n.isolate slot).nodeIndex = n.nodeIndex ∧ (n.isolate slot).edgeIndex = n.edgeIndex := by
  unfold isolate
  refine ⟨?_, ?_⟩
  · exact (index_foldl_dropLink _ _).1.trans (index_foldl_dropLink _ _).1
  · exact (index_foldl_dropLink _ _).2.trans (index_foldl_dropLink _ _).2

/-- Dropping a link keeps a network stored well, whether there is one or not. -/
theorem Stored.dropLink (h : n.Stored) (slot : Nat) : (n.dropLink slot).Stored := by
  rcases hold : n.links.get? slot with _ | l
  · have hsame : n.dropLink slot = n := by simp only [Network.dropLink, hold]
    rwa [hsame]
  · constructor
    case leaving =>
      exact h.leaving.drop hold (get?_links_dropLink n slot)
        fun i => ⟨_, get?_vertices_dropLink hold i, fun v => ⟨rfl, rfl⟩⟩
    case reaching =>
      exact h.reaching.drop hold (get?_links_dropLink n slot)
        fun i => ⟨_, get?_vertices_dropLink hold i, fun v => ⟨rfl, rfl⟩⟩
    case vertices_counted =>
      simp only [Network.dropLink, hold]
      exact (h.vertices_counted.update _ _).update _ _
    case links_counted =>
      simp only [Network.dropLink, hold]
      exact h.links_counted.vacate _

/-- **Dropping edges one after another** takes out just those, and leaves the nodes
where they are. -/
structure Dropped (slots : List Nat) (n n' : Network) : Prop where
  stored : n'.Stored
  links : ∀ k, n'.links.get? k = if k ∈ slots then none else n.links.get? k
  nodes : ∀ i, (n'.vertices.get? i).map (·.node) = (n.vertices.get? i).map (·.node)

/-- What is left are the links that were not dropped. -/
theorem Dropped.get?_links_iff {slots : List Nat} {n' : Network} (h : Dropped slots n n')
    {k : Nat} : n'.links.get? k = some l ↔ n.links.get? k = some l ∧ k ∉ slots := by
  rw [h.links]
  by_cases hk : k ∈ slots <;> simp [hk]

/-- Dropping links one by one drops them all. -/
theorem Stored.dropped (h : n.Stored) (slots : List Nat) :
    Dropped slots n (slots.foldl Network.dropLink n) := by
  induction slots generalizing n with
  | nil => exact ⟨h, fun k => by simp, fun _ => rfl⟩
  | cons slot slots ih =>
    obtain ⟨hstored, hlinks, hnodes⟩ := ih (h.dropLink slot)
    refine ⟨hstored, fun k => ?_, fun i => (hnodes i).trans (node_dropLink n slot i)⟩
    rw [List.foldl_cons, hlinks, get?_links_dropLink]
    by_cases hk : k = slot <;> simp [hk]

/-- **An isolated node has no edges**, and no other edge is gone. -/
theorem Stored.isolate (h : n.Stored) {v : Vertex} (hv : n.vertices.get? slot = some v) :
    (n.isolate slot).Stored ∧
      (∀ k l, (n.isolate slot).links.get? k = some l ↔
        n.links.get? k = some l ∧ l.tail ≠ slot ∧ l.head ≠ slot) ∧
      ∀ i, ((n.isolate slot).vertices.get? i).map (·.node) =
        (n.vertices.get? i).map (·.node) := by
  have h1 := h.dropped v.leaving
  -- a loop is dropped with the edges that leave, so the rest is read off the node anew
  obtain ⟨v', hv', -⟩ : ∃ v', (v.leaving.foldl Network.dropLink n).vertices.get? slot = some v' ∧
      v'.node = v.node := by
    have := h1.nodes slot
    rw [hv, Option.map_some, Option.map_eq_some_iff] at this
    exact this
  have h2 := h1.stored.dropped v'.reaching
  have heq : n.isolate slot = v'.reaching.foldl Network.dropLink
      (v.leaving.foldl Network.dropLink n) := by
    simp only [Network.isolate, hv, hv', Option.map_some, Option.getD_some]
  rw [heq]
  refine ⟨h2.stored, fun k l => ?_, fun i => (h2.nodes i).trans (h1.nodes i)⟩
  rw [h2.get?_links_iff, h1.get?_links_iff]
  constructor
  · rintro ⟨⟨hl, hleaving⟩, hreaching⟩
    have hl' := h1.get?_links_iff.2 ⟨hl, hleaving⟩
    refine ⟨hl, fun htail => hleaving ?_, fun hhead => hreaching ?_⟩
    · exact (h.leaving.mem_iff_of_get? hv hl).2 htail
    · exact (h1.stored.reaching.mem_iff_of_get? hv' hl').2 hhead
  · rintro ⟨hl, htail, hhead⟩
    have hleaving : k ∉ v.leaving := mt (h.leaving.mem_iff_of_get? hv hl).1 htail
    have hl' := h1.get?_links_iff.2 ⟨hl, hleaving⟩
    exact ⟨⟨hl, hleaving⟩, mt (h1.stored.reaching.mem_iff_of_get? hv' hl').1 hhead⟩

end Network

end Waybill
