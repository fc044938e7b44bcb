/-!
# Numbered slots

A store that gives every value a number and keeps the number for as long as
the value is in the store. Vacated numbers are handed out again, the one
vacated last first, before any new one. `get?_put`, `get?_vacate` and
`get?_update` say what each operation does to the contents.
-/

namespace Waybill

variable {α : Type}

/-- Values in numbered slots. -/
structure Slots (α : Type) where
  /-- What each slot holds; a vacated slot holds nothing. -/
  cells : Array (Option α)
  /-- The vacated slots, the one vacated last first. -/
  vacant : List Nat
  /-- The number of values. -/
  count : Nat
  /-- The vacated slots are those that hold nothing. -/
  mem_vacant_iff : ∀ i, i ∈ vacant ↔ cells[i]? = some none
  /-- No slot is vacated twice. -/
  nodup_vacant : vacant.Nodup

namespace Slots

/-- The store without slots. -/
def empty : Slots α := ⟨#[], [], 0, by simp, .nil⟩

instance : Inhabited (Slots α) := ⟨empty⟩

/-- What a slot holds. -/
def get? (s : Slots α) (i : Nat) : Option α := s.cells[i]?.join

/-- The slot that the next value is given. -/
def next (s : Slots α) : Nat := s.vacant.headD s.cells.size

theorem lt_size_of_mem_vacant {s : Slots α} {i : Nat} (h : i ∈ s.vacant) : i < s.cells.size := by
  have := (s.mem_vacant_iff i).1 h
  exact (Array.getElem?_eq_some_iff.1 this).1

/-- The cells with a value in the next slot. -/
def fillNext (s : Slots α) (a : α) : Array (Option α) :=
  if s.vacant = [] then s.cells.push (some a) else s.cells.setIfInBounds s.next (some a)

theorem getElem?_fillNext (s : Slots α) (a : α) (i : Nat) :
    (s.fillNext a)[i]? = if i = s.next then some (some a) else s.cells[i]? := by
  unfold fillNext next
  rcases hv : s.vacant with _ | ⟨v, rest⟩
  · simp [Array.getElem?_push]
  · have hlt : v < s.cells.size := lt_size_of_mem_vacant (s := s) (by simp [hv])
    simp only [reduceCtorEq, if_false, List.headD_cons, Array.getElem?_setIfInBounds, hlt, if_true]
    by_cases h : v = i
    · simp [h]
    · simp [h, Ne.symm h]

/-- The store with one more value, and the slot that the value is given. -/
def put (s : Slots α) (a : α) : Nat × Slots α :=
  (s.next, {
    cells := s.fillNext a
    vacant := s.vacant.tail
    count := s.count + 1
    mem_vacant_iff := fun i => by
      rw [getElem?_fillNext]
      rcases hv : s.vacant with _ | ⟨v, rest⟩
      · have hn : s.next = s.cells.size := by simp [next, hv]
        have := s.mem_vacant_iff i
        rw [hv] at this
        by_cases hi : i = s.next <;> simp_all
      · have hn : s.next = v := by simp [next, hv]
        have hm := s.mem_vacant_iff i
        have hd := s.nodup_vacant
        rw [hv] at hm hd
        have hvr : v ∉ rest := (List.nodup_cons.1 hd).1
        by_cases hi : i = v
        · subst hi; simp [hn, hvr]
        · simp only [List.mem_cons, hi, false_or] at hm
          simp [hn, hi, hm]
    nodup_vacant := s.nodup_vacant.sublist (List.tail_sublist _) })

/-- The store with a slot vacated. -/
def vacate (s : Slots α) (i : Nat) : Slots α :=
  if h : (s.get? i).isSome then {
    cells := s.cells.setIfInBounds i none
    vacant := i :: s.vacant
    count := s.count - 1
    mem_vacant_iff := fun j => by
      have hlt : i < s.cells.size := by
        rcases Nat.lt_or_ge i s.cells.size with hlt | hge
        · exact hlt
        · simp [get?, Array.getElem?_eq_none hge] at h
      rw [Array.getElem?_setIfInBounds, List.mem_cons, s.mem_vacant_iff]
      by_cases hj : j = i
      · simp [hj, hlt]
      · simp [hj, Ne.symm hj]
    nodup_vacant := List.nodup_cons.2 ⟨fun hm => by
      simp [get?, (s.mem_vacant_iff i).1 hm] at h, s.nodup_vacant⟩ }
  else s

/-- The store with the value of a slot changed. -/
def update (s : Slots α) (i : Nat) (f : α → α) : Slots α where
  cells := s.cells.modify i (Option.map f)
  vacant := s.vacant
  count := s.count
  mem_vacant_iff j := by
    rw [s.mem_vacant_iff, Array.getElem?_modify]
    by_cases hj : i = j
    · subst hj
      rcases s.cells[i]? with _ | ⟨_ | a⟩ <;> simp
    · simp [hj]
  nodup_vacant := s.nodup_vacant

/-! ## What the operations do to the contents -/

@[simp] theorem get?_empty (i : Nat) : (empty : Slots α).get? i = none := rfl

theorem get?_put (s : Slots α) (a : α) (i : Nat) :
    (s.put a).2.get? i = if i = (s.put a).1 then some a else s.get? i := by
  show (s.fillNext a)[i]?.join = _
  rw [getElem?_fillNext]
  show _ = if i = s.next then some a else s.get? i
  by_cases h : i = s.next <;> simp [h, get?]

/-- The slot that a value is given held nothing. -/
theorem get?_next (s : Slots α) : s.get? s.next = none := by
  unfold get? next
  rcases hv : s.vacant with _ | ⟨v, rest⟩
  · simp
  · have := (s.mem_vacant_iff v).1 (by simp [hv])
    simp [this]

theorem get?_vacate (s : Slots α) (i j : Nat) :
    (s.vacate i).get? j = if j = i then none else s.get? j := by
  unfold vacate
  split
  · show (s.cells.setIfInBounds i none)[j]?.join = _
    rw [Array.getElem?_setIfInBounds]
    by_cases hj : j = i
    · subst hj
      by_cases hlt : j < s.cells.size <;> simp [hlt]
    · simp [hj, Ne.symm hj, get?]
  · next h =>
    by_cases hj : j = i
    · subst hj
      simpa using h
    · simp [hj]

theorem get?_update (s : Slots α) (i : Nat) (f : α → α) (j : Nat) :
    (s.update i f).get? j = if j = i then (s.get? j).map f else s.get? j := by
  show (s.cells.modify i (Option.map f))[j]?.join = _
  rw [Array.getElem?_modify]
  by_cases hj : i = j
  · subst hj
    simp only [if_true, get?]
    rcases s.cells[i]? with _ | ⟨_ | a⟩ <;> rfl
  · simp [hj, Ne.symm hj, get?]

/-! ## The contents in slot order -/

/-- The values with their slots, in slot order. -/
def entries (s : Slots α) : List (Nat × α) :=
  s.cells.toList.zipIdx.filterMap fun (cell, i) => cell.map (i, ·)

/-- The values in slot order. -/
def values (s : Slots α) : List α :=
  s.cells.toList.filterMap id

end Slots

end Waybill
