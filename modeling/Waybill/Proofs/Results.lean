import Mathlib.Data.List.Forall2

/-!
# Results of computations that may fail

What it means that a computation made of others succeeds or fails: one after another
(`bind_eq_ok_iff`, `bind_eq_error_iff`), over a list (`mapM_eq_ok_iff`, `mapM_eq_error_iff`), or
with the error worded anew (`mapError_eq_ok_iff`); and the same of steps that give no reason where
they have no result (`guard_bind_eq_some_iff`). `Yields` says of a computation what its result is
known to be if it has one.
-/

namespace Waybill

variable {ε ε' α β : Type}

/-! ## One after another -/

/-- Two steps succeed if the first does and then the second, on what the first gave. -/
theorem bind_eq_ok_iff {x : Except ε α} {f : α → Except ε β} {b : β} :
    x >>= f = .ok b ↔ ∃ a, x = .ok a ∧ f a = .ok b := by
  rcases x with e | a
  · exact ⟨nofun, fun ⟨a, h, _⟩ => nomatch h⟩
  · exact ⟨fun h => ⟨a, rfl, h⟩, fun ⟨a', h, h'⟩ => by cases h; exact h'⟩

/-- They fail as the first does, or as the second does on what the first gave. -/
theorem bind_eq_error_iff {x : Except ε α} {f : α → Except ε β} :
    x >>= f = .error e ↔ x = .error e ∨ ∃ a, x = .ok a ∧ f a = .error e := by
  rcases x with e' | a
  · constructor
    · intro h
      cases h
      exact .inl rfl
    · rintro (h | ⟨_, h, _⟩) <;> cases h
      rfl
  · constructor
    · exact fun h => .inr ⟨a, rfl, h⟩
    · rintro (h | ⟨a', h, h'⟩) <;> cases h
      exact h'

theorem map_eq_ok_iff {x : Except ε α} {f : α → β} {b : β} :
    x.map f = .ok b ↔ ∃ a, x = .ok a ∧ f a = b := by
  rcases x with e | a
  · exact iff_of_false nofun nofun
  · simp only [Except.map, Except.ok.injEq, exists_eq_left']

theorem map_eq_error_iff {x : Except ε α} {f : α → β} : x.map f = .error e ↔ x = .error e := by
  rcases x with e' | a
  · rw [Except.map, Except.error.injEq, Except.error.injEq]
  · exact iff_of_false nofun nofun

theorem mapError_eq_ok_iff {wrap : ε → ε'} {x : Except ε α} {a : α} :
    x.mapError wrap = .ok a ↔ x = .ok a := by
  rcases x with fault | a'
  · exact iff_of_false nofun nofun
  · rw [Except.mapError, Except.ok.injEq, Except.ok.injEq]

/-- A wrapped failure comes from a failure. -/
theorem mapError_eq_error_iff {wrap : ε → ε'} {x : Except ε α} {e' : ε'} :
    x.mapError wrap = .error e' ↔ ∃ fault, x = .error fault ∧ e' = wrap fault := by
  rcases x with fault | a
  · constructor
    · rintro ⟨⟩
      exact ⟨fault, rfl, rfl⟩
    · rintro ⟨_, ⟨⟩, rfl⟩
      rfl
  · exact iff_of_false nofun nofun

/-! ## Over a list -/

section Lists

variable {f : α → Except ε β} {l : List α} {bs : List β} {e : ε}

/-- What is done item by item has one result for each item, in order. -/
theorem forall₂_of_mapM_eq_ok (h : l.mapM f = .ok bs) :
    List.Forall₂ (fun a b => f a = .ok b) l bs := by
  induction l generalizing bs with
  | nil =>
    rw [List.mapM_nil] at h
    cases h
    exact .nil
  | cons a l ih =>
    rw [List.mapM_cons, bind_eq_ok_iff] at h
    obtain ⟨b, hb, h⟩ := h
    obtain ⟨bs', hbs, h⟩ := bind_eq_ok_iff.1 h
    cases h
    exact .cons hb (ih hbs)

/-- **And it succeeds just if there is such a list of results.** -/
theorem mapM_eq_ok_iff : l.mapM f = .ok bs ↔ List.Forall₂ (fun a b => f a = .ok b) l bs := by
  refine ⟨forall₂_of_mapM_eq_ok, fun h => ?_⟩
  induction h with
  | nil => rfl
  | cons hfirst _ ih =>
    rw [List.mapM_cons]
    exact bind_eq_ok_iff.2 ⟨_, hfirst, bind_eq_ok_iff.2 ⟨_, ih, rfl⟩⟩

/-- Of two lists that are related item by item, what the second has is related to something of
the first. -/
theorem exists_of_forall₂ {R : α → β → Prop} (h : List.Forall₂ R l bs) :
    ∀ b ∈ bs, ∃ a ∈ l, R a b := by
  induction h with
  | nil => exact nofun
  | @cons a b l bs hfirst _ ih =>
    rw [List.forall_mem_cons]
    refine ⟨⟨a, List.mem_cons_self, hfirst⟩, fun b' hb' => ?_⟩
    obtain ⟨a', ha', hrel⟩ := ih b' hb'
    exact ⟨a', List.mem_cons_of_mem a ha', hrel⟩

/-- What is done item by item succeeds if it does for every item. -/
theorem exists_mapM_eq_ok_iff : (∃ bs, l.mapM f = .ok bs) ↔ ∀ a ∈ l, ∃ b, f a = .ok b := by
  induction l with
  | nil => exact iff_of_true ⟨[], rfl⟩ nofun
  | cons a l ih =>
    rw [List.forall_mem_cons, ← ih, List.mapM_cons]
    constructor
    · rintro ⟨bs, h⟩
      obtain ⟨b, hb, h⟩ := bind_eq_ok_iff.1 h
      obtain ⟨bs', hbs, -⟩ := bind_eq_ok_iff.1 h
      exact ⟨⟨b, hb⟩, bs', hbs⟩
    · rintro ⟨⟨b, hb⟩, bs, hbs⟩
      exact ⟨b :: bs, bind_eq_ok_iff.2 ⟨b, hb, bind_eq_ok_iff.2 ⟨bs, hbs, rfl⟩⟩⟩

/-- **What is done item by item fails just if it fails for an item, and as it does for the first
such.** -/
theorem mapM_eq_error_iff : l.mapM f = .error e ↔ ∃ before a after, l = before ++ a :: after ∧
    (∀ b ∈ before, ∃ c, f b = .ok c) ∧ f a = .error e := by
  induction l with
  | nil =>
    rw [List.mapM_nil]
    refine iff_of_false nofun ?_
    rintro ⟨before, a, after, heq, -⟩
    simp at heq
  | cons a l ih =>
    rw [List.mapM_cons, bind_eq_error_iff]
    constructor
    · rintro (hfirst | ⟨b, hb, h⟩)
      · exact ⟨[], a, l, rfl, nofun, hfirst⟩
      · rcases bind_eq_error_iff.1 h with hrest | ⟨bs, -, h⟩
        · obtain ⟨before, c, after, rfl, hbefore, hc⟩ := ih.1 hrest
          exact ⟨a :: before, c, after, rfl, List.forall_mem_cons.2 ⟨⟨b, hb⟩, hbefore⟩, hc⟩
        · cases h
    · rintro ⟨before, c, after, heq, hbefore, hc⟩
      rcases before with _ | ⟨b, before⟩
      · cases heq
        exact .inl hc
      · cases heq
        obtain ⟨⟨b', hb'⟩, hbefore⟩ := List.forall_mem_cons.1 hbefore
        have hrest := ih.2 ⟨before, c, after, rfl, hbefore, hc⟩
        exact .inr ⟨b', hb', bind_eq_error_iff.2 (.inl hrest)⟩

theorem exists_of_mapM_eq_error (h : l.mapM f = .error e) : ∃ a ∈ l, f a = .error e := by
  obtain ⟨before, a, after, rfl, -, ha⟩ := mapM_eq_error_iff.1 h
  exact ⟨a, by simp, ha⟩

end Lists

/-! ## Steps that may have no result -/

section Options

variable {f : α → Option β} {l : List α} {bs : List β}

theorem guard_bind_eq_some_iff {p : Prop} [Decidable p] {x : Option β} {b : β} :
    (guard p >>= fun _ => x) = some b ↔ p ∧ x = some b := by
  by_cases hp : p <;> simp [guard, hp]

theorem forall₂_of_mapM_eq_some (h : l.mapM f = some bs) :
    List.Forall₂ (fun a b => f a = some b) l bs := by
  induction l generalizing bs with
  | nil =>
    cases h
    exact .nil
  | cons a l ih =>
    rw [List.mapM_cons] at h
    obtain ⟨b, hb, h⟩ := Option.bind_eq_some_iff.1 h
    obtain ⟨bs', hbs, h⟩ := Option.bind_eq_some_iff.1 h
    cases h
    exact .cons hb (ih hbs)

/-- So every result is that of some item. -/
theorem exists_of_mapM_eq_some (h : l.mapM f = some bs) : ∀ b ∈ bs, ∃ a, f a = some b := by
  intro b hb
  obtain ⟨a, -, ha⟩ := exists_of_forall₂ (forall₂_of_mapM_eq_some h) b hb
  exact ⟨a, ha⟩

end Options

/-! ## What a result is known to be -/

section Yields

variable {P : α → Prop} {Q : β → Prop}

/-- If there is a result, `P` holds of it. -/
def Yields (P : α → Prop) (x : Except ε α) : Prop := ∀ a, x = .ok a → P a

theorem Yields.pure {a : α} (h : P a) : Yields P (pure a : Except ε α) := by
  intro a' ha
  cases ha
  exact h

/-- What a step yields may be used for what the next one yields. -/
theorem Yields.bind {x : Except ε α} {f : α → Except ε β} (hx : Yields P x)
    (hf : ∀ a, P a → Yields Q (f a)) : Yields Q (x >>= f) := by
  intro b hb
  obtain ⟨a, ha, hb⟩ := bind_eq_ok_iff.1 hb
  exact hf a (hx a ha) b hb

end Yields

end Waybill
