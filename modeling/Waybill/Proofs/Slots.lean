import Mathlib.Data.List.Basic
import Waybill.Network.Slots

/-!
# The values in slots

Listed in slot order, the values are those that some slot holds
(`mem_values_iff`), and an operation changes the list as it changes the slots, up
to order: `perm_values_put`, `perm_values_vacate`, `perm_values_update`. So the
count that is kept stays the number of values (`Counted`).

The order is kept where the slots are: slots that lose values without changing the
others lose them from the list (`map_values_eq_filter`), and a value put where no
slot is vacant comes last (`values_put_of_vacant_eq_nil`).
-/

namespace Waybill.Slots

variable {α β : Type} {s t : Slots α} {i j : Nat} {a : α}

/-! ## Entries -/

/-- The entries are the slots in use, each with what it holds. -/
theorem mem_entries_iff : (i, a) ∈ s.entries ↔ s.get? i = some a := by
  simp only [entries, List.mem_filterMap, Option.map_eq_some_iff, Prod.mk.injEq, Prod.exists]
  constructor
  · rintro ⟨cell, j, hmem, b, rfl, rfl, rfl⟩
    rw [List.mem_zipIdx_iff_getElem?, Array.getElem?_toList] at hmem
    simp [get?, hmem]
  · intro h
    refine ⟨some a, i, ?_, a, rfl, rfl, rfl⟩
    rw [List.mem_zipIdx_iff_getElem?, Array.getElem?_toList]
    simpa [get?, Option.join_eq_some_iff] using h

theorem map_snd_entries (s : Slots α) : s.entries.map (·.2) = s.values := by
  have hcells : s.cells.toList.zipIdx.map Prod.fst = s.cells.toList := List.zipIdx_map_fst _ _
  simp only [entries, values, List.map_filterMap]
  rw [← hcells, List.filterMap_map, hcells]
  congr 1
  funext ⟨cell, i⟩
  cases cell <;> rfl

/-- The entries are listed in slot order. -/
theorem pairwise_lt_entries (s : Slots α) : s.entries.Pairwise fun p q => p.1 < q.1 := by
  have hindices : s.cells.toList.zipIdx.Pairwise fun c d => c.2 < d.2 := by
    have := List.pairwise_lt_range' (s := 0) (n := s.cells.toList.length)
    rw [← List.zipIdx_map_snd 0 s.cells.toList] at this
    exact List.pairwise_map.1 this
  refine List.Pairwise.filterMap _ ?_ hindices
  rintro ⟨c, i⟩ ⟨d, j⟩ hij x hx y hy
  simp only [Option.map_eq_some_iff] at hx hy
  obtain ⟨a, -, rfl⟩ := hx
  obtain ⟨b, -, rfl⟩ := hy
  exact hij

theorem nodup_entries (s : Slots α) : s.entries.Nodup :=
  (pairwise_lt_entries s).imp fun hlt heq => Nat.ne_of_lt hlt (congrArg Prod.fst heq)

theorem mem_values_iff : a ∈ s.values ↔ ∃ i, s.get? i = some a := by
  rw [← map_snd_entries, List.mem_map]
  constructor
  · rintro ⟨⟨i, b⟩, hmem, rfl⟩
    exact ⟨i, mem_entries_iff.1 hmem⟩
  · rintro ⟨i, h⟩
    exact ⟨(i, a), mem_entries_iff.2 h, rfl⟩

/-- The values are known by what the slots hold. -/
theorem perm_values {l : List (Nat × α)} (hnodup : l.Nodup)
    (h : ∀ i a, (i, a) ∈ l ↔ s.get? i = some a) : s.values.Perm (l.map (·.2)) := by
  have hentries : s.entries.Perm l :=
    (List.perm_ext_iff_of_nodup (nodup_entries s) hnodup).2 fun ⟨i, a⟩ => by
      rw [mem_entries_iff, h]
  rw [← map_snd_entries]
  exact hentries.map _

/-- What is in a slot stays there when a value is put into another. -/
theorem get?_put_of_some {b : α} (h : s.get? i = some b) (a : α) :
    (s.put a).2.get? i = some b := by
  have hfree : s.get? (s.put a).1 = none := get?_next s
  rw [get?_put, if_neg, h]
  rintro rfl
  rw [hfree] at h
  cases h

/-- Storing a value adds it once to the values. -/
theorem perm_values_put (s : Slots α) (a : α) : (s.put a).2.values.Perm (a :: s.values) := by
  have hfree : s.get? (s.put a).1 = none := get?_next s
  rw [← map_snd_entries s]
  refine perm_values (l := ((s.put a).1, a) :: s.entries) ?_ fun i b => ?_
  · refine List.nodup_cons.2 ⟨fun hmem => ?_, nodup_entries s⟩
    rw [mem_entries_iff, hfree] at hmem
    cases hmem
  · rw [List.mem_cons, mem_entries_iff, get?_put]
    by_cases hi : i = (s.put a).1
    · subst hi
      simp [hfree, eq_comm]
    · simp [hi]

/-- Vacating a slot takes its value once from the values. -/
theorem perm_values_vacate (h : s.get? i = some a) :
    s.values.Perm (a :: (s.vacate i).values) := by
  rw [← map_snd_entries (s.vacate i)]
  refine perm_values (l := (i, a) :: (s.vacate i).entries) ?_ fun j b => ?_
  · refine List.nodup_cons.2 ⟨fun hmem => ?_, nodup_entries _⟩
    rw [mem_entries_iff, get?_vacate, if_pos rfl] at hmem
    cases hmem
  · rw [List.mem_cons, mem_entries_iff, get?_vacate]
    by_cases hj : j = i
    · subst hj
      simp [h, eq_comm]
    · simp [hj]

/-- Stores whose slots hold the same have the same values as often, however many cells
they have. -/
theorem perm_values_of_get?_eq (h : ∀ i, t.get? i = s.get? i) :
    t.values.Perm s.values := by
  rw [← map_snd_entries s]
  exact perm_values (nodup_entries s) fun i a => by rw [mem_entries_iff, h]

/-- Changing a value in place changes no other. -/
theorem perm_values_update (h : s.get? i = some a) (f : α → α) :
    (s.update i f).values.Perm (f a :: (s.vacate i).values) := by
  have hi : (s.update i f).get? i = some (f a) := by simp [get?_update, h]
  refine (perm_values_vacate hi).trans (.cons _ (perm_values_of_get?_eq fun j => ?_))
  rw [get?_vacate, get?_vacate, get?_update]
  by_cases hj : j = i <;> simp [hj]

/-- Changing a value in its place changes no count. -/
theorem length_values_update (s : Slots α) (i : Nat) (f : α → α) :
    (s.update i f).values.length = s.values.length := by
  rcases hi : s.get? i with _ | a
  · refine (perm_values_of_get?_eq fun j => ?_).length_eq
    rw [get?_update]
    split
    · next hj => simp [hj, hi]
    · rfl
  · rw [(perm_values_update hi f).length_eq, (perm_values_vacate hi).length_eq]
    rfl

/-! ## In slot order -/

theorem get?_of_size_le (h : s.cells.size ≤ i) : s.get? i = none := by
  simp [get?, Array.getElem?_eq_none h]

/-- The values are listed by asking one slot after another. -/
theorem values_eq_filterMap_range {bound : Nat} (h : s.cells.size ≤ bound) :
    s.values = (List.range bound).filterMap s.get? := by
  obtain ⟨more, rfl⟩ := Nat.exists_eq_add_of_le h
  have hcells : s.cells.toList.map some = (List.range s.cells.size).map (s.cells[·]?) := by
    refine List.ext_getElem (by simp) fun i hi _ => ?_
    rw [List.length_map, Array.length_toList] at hi
    simp [hi]
  have hwithin : s.values = (List.range s.cells.size).filterMap s.get? := by
    have := congrArg (List.filterMap Option.join) hcells
    rw [List.filterMap_map, List.filterMap_map] at this
    exact this
  have hbeyond : ((List.range more).map (s.cells.size + ·)).filterMap s.get? = [] := by
    rw [List.filterMap_eq_nil_iff]
    intro i hi
    obtain ⟨j, -, rfl⟩ := List.mem_map.1 hi
    exact get?_of_size_le (Nat.le_add_right _ _)
  rw [List.range_add, List.filterMap_append, hbeyond, List.append_nil, hwithin]

/-- **Where every slot loses what does not pass, the list of values does**, and keeps
its order. -/
theorem map_values_eq_filter {f : α → β} {pass : β → Bool}
    (h : ∀ i, (t.get? i).map f = ((s.get? i).map f).filter pass) :
    t.values.map f = (s.values.map f).filter pass := by
  rw [values_eq_filterMap_range (Nat.le_max_left t.cells.size s.cells.size),
    values_eq_filterMap_range (Nat.le_max_right t.cells.size s.cells.size),
    List.map_filterMap, List.map_filterMap, List.filter_filterMap]
  simp only [h]

/-- What is seen of the values is told by what is seen in every slot, in its order too. -/
theorem map_values_eq {f : α → β} (h : ∀ i, (t.get? i).map f = (s.get? i).map f) :
    t.values.map f = s.values.map f := by
  rw [values_eq_filterMap_range (Nat.le_max_left t.cells.size s.cells.size),
    values_eq_filterMap_range (Nat.le_max_right t.cells.size s.cells.size),
    List.map_filterMap, List.map_filterMap]
  simp only [h]

/-- Where no slot is vacant, a value is put behind the others. -/
theorem values_put_of_vacant_eq_nil (h : s.vacant = []) (a : α) :
    (s.put a).2.values = s.values ++ [a] := by
  simp [put, fillNext, h, values]

/-! ## The count -/

/-- The count that is kept is the number of values. -/
def Counted (s : Slots α) : Prop := s.count = s.values.length

theorem counted_empty : (empty : Slots α).Counted := rfl

theorem Counted.put (h : s.Counted) (a : α) : (s.put a).2.Counted := by
  have := (perm_values_put s a).length_eq
  unfold Counted at *
  rw [this, List.length_cons, ← h]
  rfl

theorem Counted.vacate (h : s.Counted) (i : Nat) : (s.vacate i).Counted := by
  rcases hi : s.get? i with _ | a
  · have heq : s.vacate i = s := by simp [Slots.vacate, hi]
    rwa [heq]
  · have := (perm_values_vacate hi).length_eq
    have hcount : (s.vacate i).count = s.count - 1 := by simp [Slots.vacate, hi]
    unfold Counted at *
    rw [hcount, h, this, List.length_cons, Nat.add_sub_cancel]

/-- And it stays when a value is changed in its place. -/
theorem Counted.update (h : s.Counted) (i : Nat) (f : α → α) : (s.update i f).Counted := by
  unfold Counted
  rw [length_values_update]
  exact h

end Waybill.Slots
