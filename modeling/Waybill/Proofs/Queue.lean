import Waybill.Route.Search

/-!
# The heap of the queue

The queue keeps its entries as a heap and loses none of them: `push` adds an
entry (`entries_push`, `isHeap_push`), and `pop?` takes out one with the least
key (`le_of_pop?`). While an entry climbs it may be out of order with those above
it, and while a vacated place sinks, with those below it too: `OrderedBelow` and
`OrderedAround` say what is in order meanwhile.
-/

namespace Waybill.Route.Queue

variable {K V : Type} {items : Array (K × V)} {i j : Nat} {a b : K × V}

/-- Parents stand before their children, so that climbing ends. -/
theorem parent_lt (h : 0 < i) : parent i < i := by
  unfold parent
  omega

theorem pos_of_parent_pos (h : 0 < parent i) : 0 < i := by
  unfold parent at h
  omega

theorem parent_left : parent (2 * i + 1) = i := by
  unfold parent
  omega

theorem parent_right : parent (2 * i + 2) = i := by
  unfold parent
  omega

/-- A place has two children and no more. -/
theorem eq_or_eq_of_parent_eq (hj : 0 < j) (h : parent j = i) : j = 2 * i + 1 ∨ j = 2 * i + 2 := by
  unfold parent at h
  omega

/-! ## Entries -/

/-- The waiting entries. -/
def entries (q : Queue K V) : List (K × V) := q.items.toList

@[simp] theorem entries_empty : (empty : Queue K V).entries = [] := rfl

theorem getElem?_items (q : Queue K V) (i : Nat) : q.items[i]? = q.entries[i]? :=
  Array.getElem?_toList.symm

section Entries

variable [LT K] [DecidableLT K]

/-- Climbing moves entries and loses none. -/
theorem perm_climb (items : Array (K × V)) (i : Nat) : (climb items i).Perm items := by
  fun_induction climb items i with
  | case1 items i hi hp hless ih => exact ih.trans (Array.swap_perm _ _)
  | case2 => exact .refl _
  | case3 => exact .refl _

theorem perm_sink (items : Array (K × V)) (i : Nat) : (sink items i).1.Perm items := by
  fun_induction sink items i with
  | case1 items i hsize hless ih => exact ih.trans (Array.swap_perm _ _)
  | case2 items i hsize hnot ih => exact ih.trans (Array.swap_perm _ _)
  | case3 => exact Array.swap_perm _ _
  | case4 => exact .refl _

/-- Nothing is lost when an entry is added. -/
theorem entries_push (q : Queue K V) (key : K) (value : V) :
    (q.push key value).entries.Perm ((key, value) :: q.entries) := by
  have := (perm_climb (q.items.push (key, value)) q.items.size).toList
  simp only [Array.toList_push] at this
  exact this.trans List.perm_append_comm

/-- What waits after a push is what waited and the new entry. -/
theorem mem_entries_push {q : Queue K V} {key : K} {value : V} {e : K × V} :
    e ∈ (q.push key value).entries ↔ e = (key, value) ∨ e ∈ q.entries := by
  rw [(entries_push q key value).mem_iff, List.mem_cons]

/-- What comes out of a queue: nothing, the only entry, or the top, whose place
the last entry takes. -/
theorem pop?_cases (q : Queue K V) :
    (q.entries = [] ∧ q.pop? = none) ∨
    (∃ e, q.entries = [e] ∧ q.pop? = some (e, empty)) ∨
    ∃ top rest last, q.entries = top :: (rest ++ [last]) ∧
      q.pop? = some (top, ⟨climb (sink (last :: rest).toArray 0).1
        (sink (last :: rest).toArray 0).2⟩) := by
  rcases q with ⟨⟨l⟩⟩
  rcases List.eq_nil_or_concat l with rfl | ⟨front, last, rfl⟩
  · exact .inl ⟨rfl, rfl⟩
  · rcases front with _ | ⟨top, rest⟩
    · exact .inr (.inl ⟨last, rfl, rfl⟩)
    · refine .inr (.inr ⟨top, rest, last, List.concat_eq_append, ?_⟩)
      rw [List.concat_eq_append]
      simp only [pop?, List.back?_toArray, List.getLast?_concat, List.pop_toArray,
        List.dropLast_concat, List.getElem?_toArray, List.getElem?_cons_zero]
      simp

/-- **What comes out is what is lost.** -/
theorem entries_pop? {q q' : Queue K V} {top : K × V} (h : q.pop? = some (top, q')) :
    q.entries.Perm (top :: q'.entries) := by
  rcases q.pop?_cases with ⟨-, hpop⟩ | ⟨e, hq, hpop⟩ | ⟨top', rest, last, hq, hpop⟩
  · simp [hpop] at h
  · rw [hpop] at h
    cases h
    rw [hq, entries_empty]
  · rw [hpop] at h
    cases h
    rw [hq, List.perm_cons]
    have := (perm_climb (sink (last :: rest).toArray 0).1 (sink (last :: rest).toArray 0).2).trans
      (perm_sink (last :: rest).toArray 0)
    exact List.perm_append_comm.trans this.toList.symm

/-- What waited is the entry that comes out and what waits then. -/
theorem mem_entries_pop? {q q' : Queue K V} {top e : K × V} (h : q.pop? = some (top, q')) :
    e ∈ q.entries ↔ e = top ∨ e ∈ q'.entries := by
  rw [(entries_pop? h).mem_iff, List.mem_cons]

theorem pop?_eq_none_iff {q : Queue K V} : q.pop? = none ↔ q.entries = [] := by
  rcases q.pop?_cases with ⟨hq, hpop⟩ | ⟨e, hq, hpop⟩ | ⟨top', rest, last, hq, hpop⟩ <;>
    simp [hq, hpop]

end Entries

/-! ## Order -/

section Order

variable [LE K]

/-- The entries at some places are in order with those above them. -/
def Ordered (items : Array (K × V)) (places : Nat → Prop) : Prop :=
  ∀ j a b, 0 < j → places j → items[parent j]? = some a → items[j]? = some b → a.1 ≤ b.1

/-- The entries below a place are in order with the one above it. -/
def Bridged (items : Array (K × V)) (i : Nat) : Prop :=
  ∀ j a b, 0 < i → parent j = i → items[parent i]? = some a → items[j]? = some b → a.1 ≤ b.1

/-- Only the entry at a place may be out of order with those above it. -/
structure OrderedBelow (items : Array (K × V)) (i : Nat) : Prop where
  ordered : Ordered items (· ≠ i)
  bridged : Bridged items i

/-- Only the entry at a place may be out of order with those above it and those
below it. -/
structure OrderedAround (items : Array (K × V)) (i : Nat) : Prop where
  ordered : Ordered items fun j => j ≠ i ∧ parent j ≠ i
  bridged : Bridged items i

/-- No waiting entry has a lesser key than the one above it. -/
def IsHeap (q : Queue K V) : Prop := Ordered q.items fun _ => True

/-- An array that is ordered but above one place is ordered if that place is. -/
theorem OrderedBelow.ordered_all (h : OrderedBelow items i)
    (hstop : ∀ a b, 0 < i → items[parent i]? = some a → items[i]? = some b → a.1 ≤ b.1) :
    Ordered items fun _ => True := by
  intro j a b hj _ ha hb
  by_cases hji : j = i
  · subst hji
    exact hstop a b hj ha hb
  · exact h.ordered j a b hj hji ha hb

/-- At the bottom a vacated place has nothing below it. -/
theorem OrderedAround.orderedBelow (h : OrderedAround items i) (hsize : items.size ≤ 2 * i + 1) :
    OrderedBelow items i where
  ordered j a b hj hne ha hb := by
    have hjs := (Array.getElem?_eq_some_iff.1 hb).1
    refine h.ordered j a b hj ⟨hne, fun hp => ?_⟩ ha hb
    have := eq_or_eq_of_parent_eq hj hp
    omega
  bridged := h.bridged

/-- The least of the entries below a vacated place moves up. -/
theorem OrderedAround.swap_child {c : Nat} (h : OrderedAround items i) (hlt : i < items.size)
    (hc : c < items.size) (hpos : 0 < c) (hparent : parent c = i)
    (hleast : ∀ j b, 0 < j → parent j = i → items[j]? = some b → items[c].1 ≤ b.1) :
    OrderedAround (items.swap i c) c := by
  have hic : i < c := hparent ▸ parent_lt hpos
  have hgc : items[c]? = some items[c] := Array.getElem?_eq_getElem hc
  constructor
  · rintro j a b hj ⟨hjc, hpjc⟩ ha hb
    have hpj := parent_lt hj
    rw [Array.getElem?_swap, if_neg (Ne.symm hpjc)] at ha
    rw [Array.getElem?_swap, if_neg (Ne.symm hjc)] at hb
    by_cases hji : j = i
    · subst hji
      rw [if_neg (by omega)] at ha
      rw [if_pos rfl] at hb
      cases hb
      exact h.bridged c _ _ hj hparent ha hgc
    · rw [if_neg (Ne.symm hji)] at hb
      split at ha
      · next hpji =>
        cases ha
        exact hleast j b hj hpji.symm hb
      · next hpji => exact h.ordered j _ _ hj ⟨hji, Ne.symm hpji⟩ ha hb
  · -- what moved up was above these before
    intro j a b _ hj ha hb
    have hj0 : 0 < j := pos_of_parent_pos (hj ▸ hpos)
    have hpj := parent_lt hj0
    rw [hparent, Array.getElem?_swap, if_neg (by omega), if_pos rfl] at ha
    rw [Array.getElem?_swap, if_neg (by omega), if_neg (by omega)] at hb
    cases ha
    exact h.ordered j _ _ hj0 ⟨by omega, by omega⟩ (hj ▸ hgc) hb

/-- What is at most both entries below a place is at most any entry below it. -/
theorem le_of_parent_eq {key : K}
    (hleft : ∀ h : 2 * i + 1 < items.size, key ≤ items[2 * i + 1].1)
    (hright : ∀ h : 2 * i + 2 < items.size, key ≤ items[2 * i + 2].1) :
    ∀ j b, 0 < j → parent j = i → items[j]? = some b → key ≤ b.1 := by
  intro j b hj hp hb
  obtain ⟨hjs, rfl⟩ := Array.getElem?_eq_some_iff.1 hb
  rcases eq_or_eq_of_parent_eq hj hp with rfl | rfl
  · exact hleft hjs
  · exact hright hjs

end Order

variable [LE K] [Std.IsLinearPreorder K]

/-- **The top of a heap has the least key.** -/
theorem IsHeap.top_le {q : Queue K V} (h : IsHeap q) (ha : q.items[0]? = some a)
    (hb : q.items[j]? = some b) : a.1 ≤ b.1 := by
  -- every place but the top has one nearer to the top above it
  induction j using Nat.strongRecOn generalizing b with
  | ind j ih =>
    rcases Nat.eq_zero_or_pos j with rfl | hj
    · rw [ha] at hb
      cases hb
      exact Std.le_refl _
    · have hlt := parent_lt hj
      have hjs : j < q.items.size := (Array.getElem?_eq_some_iff.1 hb).1
      have hp : q.items[parent j]? = some q.items[parent j] := Array.getElem?_eq_getElem (by omega)
      exact Std.le_trans (ih _ hlt hp) (h j _ _ hj trivial hp hb)

section Least

variable [LT K] [DecidableLT K]

/-- **What comes out has the least key.** -/
theorem le_of_pop? {q q' : Queue K V} {top : K × V} (hq : q.IsHeap)
    (h : q.pop? = some (top, q')) : ∀ e ∈ q.entries, top.1 ≤ e.1 := by
  intro e he
  obtain ⟨j, hj⟩ := List.mem_iff_getElem?.1 he
  have hfirst : q.items[0]? = some top := by
    rcases q.pop?_cases with ⟨-, hpop⟩ | ⟨e, hentries, hpop⟩ | ⟨top', rest, last, hentries, hpop⟩
    · simp [hpop] at h
    all_goals
      rw [hpop] at h
      cases h
      rw [getElem?_items, hentries]
      rfl
  exact hq.top_le hfirst (by rwa [getElem?_items])

end Least

variable [LT K] [Std.LawfulOrderLT K]

/-- An entry that is less than the one above it changes places with it. -/
theorem OrderedBelow.swap_parent (h : OrderedBelow items i) (hi : 0 < i) (hlt : i < items.size)
    (hp : parent i < items.size) (hless : items[i].1 < items[parent i].1) :
    OrderedBelow (items.swap i (parent i)) (parent i) := by
  have hpi := parent_lt hi
  have hle : items[i].1 ≤ items[parent i].1 := Std.le_of_lt hless
  have hgp : items[parent i]? = some items[parent i] := Array.getElem?_eq_getElem hp
  constructor
  · intro j a b hj hne ha hb
    have hpj := parent_lt hj
    rw [Array.getElem?_swap] at ha hb
    rw [if_neg (Ne.symm hne)] at hb
    by_cases hji : j = i
    · subst hji
      rw [if_pos rfl] at ha hb
      cases ha
      cases hb
      exact hle
    · rw [if_neg (Ne.symm hji)] at hb
      by_cases hpji : parent j = i
      · rw [if_neg (by omega), if_pos hpji.symm] at ha
        cases ha
        exact h.bridged j _ _ hi hpji hgp hb
      · rw [if_neg (Ne.symm hpji)] at ha
        split at ha
        · next hpp =>
          -- the entry that came up is less than the one it took the place of
          cases ha
          exact Std.le_trans hle (h.ordered j _ _ hj hji (hpp ▸ hgp) hb)
        · exact h.ordered j _ _ hj hji ha hb
  · intro j a b hpos hj ha hb
    have hpp := parent_lt hpos
    rw [Array.getElem?_swap, if_neg (by omega), if_neg (by omega)] at ha
    rw [Array.getElem?_swap] at hb
    have habove : a.1 ≤ items[parent i].1 := h.ordered (parent i) _ _ hpos (by omega) ha hgp
    split at hb
    · next heq =>
      rw [← heq] at hj
      omega
    · split at hb
      · cases hb
        exact habove
      · next hji =>
        have hj0 : 0 < j := pos_of_parent_pos (by omega)
        exact Std.le_trans habove (h.ordered j _ _ hj0 (Ne.symm hji) (by rwa [hj]) hb)

variable [DecidableLT K]

/-- **Climbing makes a heap.** -/
theorem ordered_climb (h : OrderedBelow items i) : Ordered (climb items i) fun _ => True := by
  fun_induction climb items i with
  | case1 items i hi hp hless ih => exact ih (h.swap_parent hi.1 hi.2 hp hless)
  | case2 items i hi hp hnot =>
    refine h.ordered_all fun a b _ ha hb => ?_
    rw [Array.getElem?_eq_getElem hp] at ha
    rw [Array.getElem?_eq_getElem hi.2] at hb
    cases ha
    cases hb
    exact Std.not_lt.1 hnot
  | case3 items i hi =>
    refine h.ordered_all fun a b hpos _ hb => absurd ⟨hpos, ?_⟩ hi
    exact (Array.getElem?_eq_some_iff.1 hb).1

/-- **Sinking leaves the vacated place at the bottom.** -/
theorem orderedBelow_sink (h : OrderedAround items i) :
    OrderedBelow (sink items i).1 (sink items i).2 := by
  fun_induction sink items i with
  | case1 items i hsize hless ih =>
    refine ih (h.swap_child (by omega) (by omega) (by omega) parent_left ?_)
    exact le_of_parent_eq (fun _ => Std.le_refl _) fun _ => Std.le_of_lt hless
  | case2 items i hsize hnot ih =>
    refine ih (h.swap_child (by omega) (by omega) (by omega) parent_right ?_)
    exact le_of_parent_eq (fun _ => Std.not_lt.1 hnot) fun _ => Std.le_refl _
  | case3 items i hright hsize =>
    have := h.swap_child (by omega) hsize (by omega) parent_left
      (le_of_parent_eq (fun _ => Std.le_refl _) fun hlt => absurd hlt hright)
    exact this.orderedBelow (by simp only [Array.size_swap]; omega)
  | case4 items i hright hleft => exact h.orderedBelow (by omega)

/-! ## The queue stays a heap -/

omit [Std.IsLinearPreorder K] [LT K] [Std.LawfulOrderLT K] [DecidableLT K] in
theorem isHeap_empty : (empty : Queue K V).IsHeap := by
  intro j a b _ _ ha
  simp [empty] at ha

/-- A push keeps the order, as the new entry climbs to where it belongs. -/
theorem isHeap_push {q : Queue K V} (h : q.IsHeap) (key : K) (value : V) :
    (q.push key value).IsHeap := by
  refine ordered_climb ⟨?_, ?_⟩
  · intro j a b hj hne ha hb
    rw [Array.getElem?_push, if_neg hne] at hb
    have hjs := (Array.getElem?_eq_some_iff.1 hb).1
    have hpj := parent_lt hj
    rw [Array.getElem?_push, if_neg (by omega)] at ha
    exact h j a b hj trivial ha hb
  · -- nothing is below the last place
    intro j a b hpos hj ha hb
    have hj0 : 0 < j := pos_of_parent_pos (by omega)
    have hpj := parent_lt hj0
    rw [Array.getElem?_push, if_neg (by omega)] at hb
    have hjs := (Array.getElem?_eq_some_iff.1 hb).1
    omega

/-- A pop keeps the order, as the last entry sinks from the top to where it belongs. -/
theorem isHeap_pop? {q q' : Queue K V} {top : K × V} (hq : q.IsHeap)
    (h : q.pop? = some (top, q')) : q'.IsHeap := by
  rcases q.pop?_cases with ⟨-, hpop⟩ | ⟨e, -, hpop⟩ | ⟨top', rest, last, hentries, hpop⟩
  · simp [hpop] at h
  · rw [hpop] at h
    cases h
    exact isHeap_empty
  · rw [hpop] at h
    cases h
    refine ordered_climb (orderedBelow_sink ⟨?_, fun _ _ _ hpos => absurd hpos (Nat.lt_irrefl 0)⟩)
    rintro j a b hj ⟨-, hp⟩ ha hb
    -- below the top the places hold what they held
    have hkept : ∀ {k c}, 0 < k → (last :: rest).toArray[k]? = some c → q.items[k]? = some c := by
      intro k c hk hc
      obtain ⟨k, rfl⟩ := Nat.exists_eq_add_of_lt hk
      rw [getElem?_items, hentries]
      simp only [Nat.zero_add, List.getElem?_toArray, List.getElem?_cons_succ] at hc ⊢
      rw [List.getElem?_append_left (List.getElem?_eq_some_iff.1 hc).1, hc]
    exact hq j a b hj trivial (hkept (by omega) ha) (hkept hj hb)

end Waybill.Route.Queue
