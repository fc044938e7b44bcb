/-!
# Maps from texts, in key order

A finite map from texts to values that is listed in ascending order of its
keys, by code points. The order is part of the type, so a map has exactly
one form: two maps with the same look-ups are equal (`ext_get?`).
`get?_insert`, `get?_erase` and `get?_atop` say what each operation does to
the look-ups.
-/

namespace Waybill

variable {α : Type}

/-- A finite map whose entries stand in strictly ascending key order. -/
structure KeyMap (α : Type) where
  /-- The entries in key order. -/
  entries : List (String × α)
  /-- Every key is below the keys after it. -/
  ascending : entries.Pairwise fun a b => a.1 < b.1

namespace KeyMap

instance [DecidableEq α] : DecidableEq (KeyMap α) := fun a b =>
  if h : a.entries = b.entries then
    isTrue (by cases a; cases b; simp_all)
  else
    isFalse fun e => h (congrArg entries e)

/-! ## Entries in order -/

/-- The entries with the value of one key set. -/
def insertEntry (key : String) (value : α) : List (String × α) → List (String × α)
  | [] => [(key, value)]
  | e :: rest =>
    if key < e.1 then (key, value) :: e :: rest
    else if key = e.1 then (key, value) :: rest
    else e :: insertEntry key value rest

/-- The value listed under a key. -/
def findEntry (key : String) : List (String × α) → Option α
  | [] => none
  | e :: rest => if key = e.1 then some e.2 else findEntry key rest

theorem lt_of_not_lt_of_ne {a b : String} (h : ¬ a < b) (h' : a ≠ b) : b < a := by
  exact Decidable.byContradiction fun h'' =>
    h' (String.le_antisymm (String.not_lt.1 h'') (String.not_lt.1 h))

theorem mem_insertEntry {key : String} {value : α} {l : List (String × α)} {e : String × α}
    (h : e ∈ insertEntry key value l) : e = (key, value) ∨ e ∈ l := by
  induction l with
  | nil => simpa [insertEntry] using h
  | cons d rest ih =>
    unfold insertEntry at h
    split at h
    · simpa using h
    · split at h
      · rcases List.mem_cons.1 h with h | h
        · exact .inl h
        · exact .inr (List.mem_cons_of_mem _ h)
      · rcases List.mem_cons.1 h with h | h
        · exact .inr (h ▸ List.mem_cons_self)
        · exact (ih h).imp id (List.mem_cons_of_mem _)

theorem pairwise_insertEntry {key : String} {value : α} {l : List (String × α)}
    (h : l.Pairwise fun a b => a.1 < b.1) :
    (insertEntry key value l).Pairwise fun a b => a.1 < b.1 := by
  induction l with
  | nil => simp [insertEntry]
  | cons d rest ih =>
    obtain ⟨hd, hr⟩ := List.pairwise_cons.1 h
    unfold insertEntry
    split
    · next hlt =>
      refine List.pairwise_cons.2 ⟨fun e he => ?_, h⟩
      rcases List.mem_cons.1 he with rfl | he
      · exact hlt
      · exact String.lt_trans hlt (hd e he)
    · next hlt =>
      split
      · next heq => exact List.pairwise_cons.2 ⟨fun e he => heq ▸ hd e he, hr⟩
      · next hne =>
        refine List.pairwise_cons.2 ⟨fun e he => ?_, ih hr⟩
        rcases mem_insertEntry he with rfl | he
        · exact lt_of_not_lt_of_ne hlt hne
        · exact hd e he

/-- One key set, every other look-up kept. -/
theorem findEntry_insertEntry (key : String) (value : α) (l : List (String × α)) (k : String) :
    findEntry k (insertEntry key value l) = if k = key then some value else findEntry k l := by
  induction l with
  | nil => simp [insertEntry, findEntry]
  | cons d rest ih =>
    unfold insertEntry
    split
    · simp [findEntry]
    · split
      · next heq => by_cases hk : k = key <;> simp_all [findEntry]
      · next hne =>
        simp only [findEntry, ih]
        by_cases hk : k = d.1
        · subst hk; simp [Ne.symm hne]
        · simp [hk]

theorem findEntry_eq_none_iff {k : String} {l : List (String × α)} :
    findEntry k l = none ↔ ∀ e ∈ l, e.1 ≠ k := by
  induction l with
  | nil => simp [findEntry]
  | cons d rest ih =>
    by_cases hk : k = d.1
    · simp [findEntry, hk]
    · simp [findEntry, hk, ih, Ne.symm hk]

/-! ## The map -/

/-- The map without entries. -/
def empty : KeyMap α := ⟨[], .nil⟩

instance : EmptyCollection (KeyMap α) := ⟨empty⟩

instance : Inhabited (KeyMap α) := ⟨empty⟩

/-- The map with the value of one key set, whether or not it had one. -/
def insert (m : KeyMap α) (key : String) (value : α) : KeyMap α :=
  ⟨insertEntry key value m.entries, pairwise_insertEntry m.ascending⟩

/-- The map without one key. -/
def erase (m : KeyMap α) (key : String) : KeyMap α :=
  ⟨m.entries.filter (·.1 ≠ key), m.ascending.filter _⟩

/-- The value of a key. -/
def get? (m : KeyMap α) (key : String) : Option α :=
  findEntry key m.entries

/-- Whether a key has a value. -/
def contains (m : KeyMap α) (key : String) : Bool :=
  (m.get? key).isSome

/-- The number of keys. -/
def size (m : KeyMap α) : Nat := m.entries.length

/-- Whether the map has no key. -/
def isEmpty (m : KeyMap α) : Bool := m.entries.isEmpty

/-- The keys in order. -/
def keys (m : KeyMap α) : List String := m.entries.map (·.1)

/-- The values in the order of their keys. -/
def values (m : KeyMap α) : List α := m.entries.map (·.2)

/-- The map of a list of pairs; of two pairs with one key the later counts. -/
def ofList (l : List (String × α)) : KeyMap α :=
  l.foldl (fun m e => m.insert e.1 e.2) empty

/-- `a` laid over `b`: the keys of both, and the value of `a` where it has one. -/
def atop (a b : KeyMap α) : KeyMap α :=
  a.entries.foldl (fun m e => m.insert e.1 e.2) b

@[simp] theorem get?_empty (k : String) : (empty : KeyMap α).get? k = none := rfl

theorem get?_insert (m : KeyMap α) (key : String) (value : α) (k : String) :
    (m.insert key value).get? k = if k = key then some value else m.get? k :=
  findEntry_insertEntry key value m.entries k

theorem findEntry_filter (key : String) (l : List (String × α)) (k : String) :
    findEntry k (l.filter (·.1 ≠ key)) = if k = key then none else findEntry k l := by
  induction l with
  | nil => simp [findEntry]
  | cons d rest ih =>
    by_cases hd : d.1 = key
    · rw [List.filter_cons_of_neg (by simp [hd]), ih]
      by_cases hk : k = key
      · simp [hk]
      · simp [hk, findEntry, hd]
    · rw [List.filter_cons_of_pos (by simp [hd])]
      simp only [findEntry, ih]
      by_cases hk : k = d.1
      · subst hk; simp [hd]
      · simp [hk]

theorem get?_erase (m : KeyMap α) (key : String) (k : String) :
    (m.erase key).get? k = if k = key then none else m.get? k :=
  findEntry_filter key m.entries k

/-! ## Overlays -/

theorem get?_foldl_insert {l : List (String × α)} (h : l.Pairwise fun a b => a.1 < b.1)
    (m : KeyMap α) (k : String) :
    (l.foldl (fun m e => m.insert e.1 e.2) m).get? k = (findEntry k l).or (m.get? k) := by
  induction l generalizing m with
  | nil => simp [findEntry]
  | cons d rest ih =>
    obtain ⟨hd, hr⟩ := List.pairwise_cons.1 h
    rw [List.foldl_cons, ih hr, get?_insert]
    by_cases hk : k = d.1
    · subst hk
      have : findEntry d.1 rest = none :=
        findEntry_eq_none_iff.2 fun e he hek =>
          String.lt_irrefl d.1 (Eq.mp (congrArg (d.1 < ·) hek) (hd e he))
      simp [this, findEntry]
    · simp [findEntry, hk]

/-- The upper map wins where it has a value. -/
theorem get?_atop (a b : KeyMap α) (k : String) : (a.atop b).get? k = (a.get? k).or (b.get? k) :=
  get?_foldl_insert a.ascending b k

/-! ## Extensionality -/

theorem findEntry_of_mem {l : List (String × α)} (h : l.Pairwise fun a b => a.1 < b.1)
    {e : String × α} (he : e ∈ l) : findEntry e.1 l = some e.2 := by
  induction l with
  | nil => cases he
  | cons d rest ih =>
    obtain ⟨hd, hr⟩ := List.pairwise_cons.1 h
    rcases List.mem_cons.1 he with rfl | he
    · simp [findEntry]
    · have : e.1 ≠ d.1 := fun hed => String.lt_irrefl d.1 (hed ▸ hd e he)
      simp [findEntry, this, ih hr he]

theorem mem_of_findEntry {l : List (String × α)} {k : String} {v : α}
    (h : findEntry k l = some v) : (k, v) ∈ l := by
  induction l with
  | nil => simp [findEntry] at h
  | cons d rest ih =>
    unfold findEntry at h
    split at h
    · next hk =>
      obtain ⟨a, b⟩ := d
      simp_all
    · exact List.mem_cons_of_mem _ (ih h)

theorem entries_eq_of_mem_iff {l l' : List (String × α)}
    (h : l.Pairwise fun a b => a.1 < b.1) (h' : l'.Pairwise fun a b => a.1 < b.1)
    (hm : ∀ e, e ∈ l ↔ e ∈ l') : l = l' := by
  induction l generalizing l' with
  | nil => exact (List.eq_nil_iff_forall_not_mem.2 fun e he => List.not_mem_nil ((hm e).2 he)).symm
  | cons d rest ih =>
    obtain ⟨hd, hr⟩ := List.pairwise_cons.1 h
    cases l' with
    | nil => exact absurd ((hm d).1 List.mem_cons_self) List.not_mem_nil
    | cons d' rest' =>
      obtain ⟨hd', hr'⟩ := List.pairwise_cons.1 h'
      have hdd : d = d' := by
        rcases List.mem_cons.1 ((hm d).1 List.mem_cons_self) with h1 | h1
        · exact h1
        · rcases List.mem_cons.1 ((hm d').2 List.mem_cons_self) with h2 | h2
          · exact h2.symm
          · exact absurd (String.lt_trans (hd d' h2) (hd' d h1)) (String.lt_irrefl _)
      subst hdd
      congr 1
      refine ih hr hr' fun e => ⟨fun he => ?_, fun he => ?_⟩
      · rcases List.mem_cons.1 ((hm e).1 (List.mem_cons_of_mem _ he)) with rfl | h1
        · exact absurd (hd e he) (String.lt_irrefl _)
        · exact h1
      · rcases List.mem_cons.1 ((hm e).2 (List.mem_cons_of_mem _ he)) with rfl | h1
        · exact absurd (hd' e he) (String.lt_irrefl _)
        · exact h1

/-- Two maps with the same look-ups are one map. -/
theorem ext_get? {a b : KeyMap α} (h : ∀ k, a.get? k = b.get? k) : a = b := by
  have : a.entries = b.entries := entries_eq_of_mem_iff a.ascending b.ascending fun e =>
    ⟨fun he => mem_of_findEntry ((h e.1).symm.trans (findEntry_of_mem a.ascending he)),
      fun he => mem_of_findEntry ((h e.1).trans (findEntry_of_mem b.ascending he))⟩
  cases a
  cases b
  simp_all

/-! ## Keys -/

theorem mem_keys_iff {m : KeyMap α} {k : String} : k ∈ m.keys ↔ ∃ v, m.get? k = some v := by
  constructor
  · intro h
    obtain ⟨e, he, rfl⟩ := List.mem_map.1 h
    exact ⟨e.2, findEntry_of_mem m.ascending he⟩
  · rintro ⟨v, hv⟩
    exact List.mem_map.2 ⟨_, mem_of_findEntry hv, rfl⟩

theorem not_mem_keys_iff {m : KeyMap α} {k : String} : k ∉ m.keys ↔ m.get? k = none := by
  rw [mem_keys_iff, Option.eq_none_iff_forall_ne_some, not_exists]

theorem pairwise_keys (m : KeyMap α) : m.keys.Pairwise (· < ·) :=
  List.pairwise_map.2 m.ascending

/-- Every value is kept under its own name. -/
def Keyed (f : α → String) (m : KeyMap α) : Prop :=
  ∀ k v, m.get? k = some v → f v = k

section Keyed

variable {f : α → String} {m : KeyMap α}

theorem Keyed.insert (h : m.Keyed f) (v : α) : (m.insert (f v) v).Keyed f := by
  intro k v' hv'
  rw [get?_insert] at hv'
  split at hv'
  · next hk =>
    cases hv'
    exact hk.symm
  · exact h k v' hv'

theorem Keyed.erase (h : m.Keyed f) (key : String) : (m.erase key).Keyed f := by
  intro k v hv
  rw [get?_erase] at hv
  split at hv
  · cases hv
  · exact h k v hv

theorem Keyed.foldl_insert (h : m.Keyed f) (vs : List α) :
    ((vs.map fun v => (f v, v)).foldl (fun m e => m.insert e.1 e.2) m).Keyed f := by
  induction vs generalizing m with
  | nil => exact h
  | cons v vs ih => exact ih (h.insert v)

/-- The names are the keys. -/
theorem Keyed.map_values (h : m.Keyed f) : m.values.map f = m.keys := by
  rw [values, keys, List.map_map]
  refine List.map_congr_left fun e he => ?_
  exact h e.1 e.2 (findEntry_of_mem m.ascending he)

end Keyed

end KeyMap

/-- Flat settings: a value for each of some keys, in key order. -/
abbrev Properties := KeyMap String

end Waybill
