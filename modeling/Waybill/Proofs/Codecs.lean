import Mathlib.Data.List.Nodup
import Waybill.Json.Codec
import Waybill.Proofs.Drafts

/-!
# Codecs that lose nothing

A codec recovers a value if it understands what it writes of the value (`Codec.Recovers`); then
both texts of the value read back (`Codec.Recovers.read_write`, `Codec.Recovers.read_writePretty`).
Texts and settings are always recovered, and lists and optional values as far as what they hold
is. A record is recovered if its fields, put in place one after another, make it up again
(`Schema.recovers`).
-/

namespace Waybill

/-- A map is made again from its entries, in which no key stands twice. -/
theorem KeyMap.ofList_entries {α : Type} (m : KeyMap α) : ofList m.entries = m := by
  refine ext_get? fun key => ?_
  rw [ofList, get?_foldl_insert m.ascending, get?_empty, Option.or_none]
  rfl

namespace Json

variable {α ρ : Type}

namespace Codec

variable {c : Codec α} {a : α}

/-- The codec understands what it writes of the value. -/
structure Recovers (c : Codec α) (a : α) : Prop where
  rereads : (c.encode a).Rereads
  decode : ∀ d : Draft, d.States (c.encode a) → c.decode d = .ok a

/-- What recovers is read again from its line. -/
theorem Recovers.read_write (h : c.Recovers a) : c.read (c.write a) = .ok a :=
  (decodeText_of_states h.rereads h.decode).1

theorem Recovers.read_writePretty (h : c.Recovers a) : c.read (c.writePretty a) = .ok a :=
  (decodeText_of_states h.rereads h.decode).2

/-! ## Texts and numbers -/

theorem recovers_text (s : String) : text.Recovers s where
  rereads := .text s
  decode := by
    rintro _ ⟨⟩
    rfl

/-- A value that is written as a text recovers if it is parsed again from that. -/
theorem recovers_byText {write : α → String} {parse : String → Except Error α}
    (h : parse (write a) = .ok a) (wanted : String) : (byText wanted write parse).Recovers a where
  rereads := .text (write a)
  decode := by
    rintro _ ⟨⟩
    exact h

/-- A number recovers if its decimal is read as itself. -/
theorem recovers_float {x : Float} (h : float.read (float.write x) = .ok x) :
    float.Recovers x where
  rereads := .number h
  decode := by
    intro d hd
    cases hd with
    | number hvalue => exact congrArg Except.ok hvalue

/-! ## Optional values, lists and settings -/

/-- Only the word `null` states that there is nothing. -/
theorem eq_null_of_states {v : Value} (h : Draft.null.States v) : v = .null := by
  cases h
  rfl

/-- A value that is not written as null is told from none. -/
theorem recovers_nullable {item : Codec α} {a? : Option α} (h : ∀ a ∈ a?, item.Recovers a)
    (hnull : ∀ a ∈ a?, item.encode a ≠ .null) : (nullable item).Recovers a? := by
  cases a? with
  | none =>
    constructor
    · exact .null
    · rintro _ ⟨⟩
      rfl
  | some a =>
    constructor
    · exact (h a rfl).rereads
    · intro d hd
      have hdecode : item.decode d = .ok a := (h a rfl).decode d hd
      unfold nullable Decoder.nullable
      simp only
      split
      · exact absurd (eq_null_of_states hd) (hnull a rfl)
      · rw [hdecode]
        rfl

/-- Items that recover are decoded from any drafts that state them. -/
theorem items_of_states {item : Codec α} {as : List α} (h : ∀ a ∈ as, item.Recovers a)
    {ds : List Draft} (hds : Draft.StatesItems ds (as.map item.encode)) :
    Decoder.items item.decode ds = .ok as := by
  induction as generalizing ds with
  | nil =>
    cases hds
    rfl
  | cons a as ih =>
    cases hds with
    | cons hfirst hrest =>
      have hitem := (h a List.mem_cons_self).decode _ hfirst
      have hitems := ih (fun b hb => h b (List.mem_cons_of_mem a hb)) hrest
      rw [Decoder.items, hitem, hitems]
      rfl

/-- A list recovers if its items do. -/
theorem recovers_list {item : Codec α} {as : List α} (h : ∀ a ∈ as, item.Recovers a) :
    (list item).Recovers as where
  rereads := .array fun v hv => by
    obtain ⟨a, ha, rfl⟩ := List.mem_map.1 hv
    exact (h a ha).rereads
  decode := by
    intro d hd
    cases hd with
    | array hds => exact bind_eq_ok_iff.2 ⟨as, items_of_states h hds, rfl⟩

/-- Settings are decoded entry by entry, in the order in which they were written. -/
theorem members_of_states (entries : List (String × String)) (m : Properties)
    {ds : List (Except Fault String × Draft)}
    (hds : Draft.StatesMembers ds (entries.map fun e => (e.1, .text e.2))) :
    Decoder.members m ds = .ok (entries.foldl (fun m e => m.insert e.1 e.2) m) := by
  induction entries generalizing m ds with
  | nil =>
    cases hds
    rfl
  | cons e entries ih =>
    cases hds with
    | cons key hfirst hrest =>
      cases hfirst
      exact ih _ hrest

/-- Settings read back: no key is written twice, and so none is lost. -/
theorem recovers_map (m : Properties) : map.Recovers m where
  rereads := .object fun e he => by
    obtain ⟨entry, -, rfl⟩ := List.mem_map.1 he
    exact .text entry.2
  decode := by
    intro d hd
    cases hd with
    | object hds =>
      have hmembers := members_of_states m.entries .empty hds
      have hentries : m.entries.foldl (fun m e => m.insert e.1 e.2) .empty = m := m.ofList_entries
      rw [hentries] at hmembers
      exact bind_eq_ok_iff.2 ⟨m, hmembers, rfl⟩

end Codec

/-! ## Records -/

/-- Of the record `r` the field is written as `v`, and a draft that states `v` is put in place by
`put`. -/
structure Field.Carries (field : Field ρ) (r : ρ) (v : Value) (put : ρ → ρ) : Prop where
  written : field.written r = some v
  rereads : v.Rereads
  assign : ∀ (d : Draft) (b : ρ), d.States v → field.assign d b = .ok (put b)

/-- A field that is written always carries what its codec recovers. -/
theorem Field.carries_of {c : Codec α} {get : ρ → α} {r : ρ} (h : c.Recovers (get r))
    (name : String) (presence : Presence) (put : α → ρ → ρ) :
    (Field.of name presence c get put).Carries r (c.encode (get r)) (put (get r)) where
  written := rfl
  rereads := h.rereads
  assign d b hd := by
    show (c.decode d).map (put · b) = _
    rw [h.decode d hd]
    rfl

/-- A field that may be silent carries its value where it is not. -/
theorem Field.Carries.omittedIf {field : Field ρ} {r : ρ} {v : Value} {put : ρ → ρ}
    {isSilent : ρ → Bool} (h : field.Carries r v put) (hsilent : isSilent r = false) :
    (field.omittedIf isSilent).Carries r v put where
  written := by
    show (if isSilent r then none else field.written r) = some v
    rw [hsilent, h.written]
    rfl
  rereads := h.rereads
  assign := h.assign

/-- The fields of `r` that are written, put in place one after another, lead from `b` to `b'`; a
field that is not written may be missing. -/
inductive Field.Assigns (r : ρ) : List (Field ρ) → ρ → ρ → Prop
  | nil (b : ρ) : Assigns r [] b b
  | cons {field : Field ρ} {fields : List (Field ρ)} {v : Value} {put : ρ → ρ} {b b' : ρ}
      (h : field.Carries r v put) (hrest : Assigns r fields (put b) b') :
      Assigns r (field :: fields) b b'
  | silent {field : Field ρ} {fields : List (Field ρ)} {b b' : ρ} (hwritten : field.written r = none)
      (hpresence : field.presence ≠ .required) (hrest : Assigns r fields b b') :
      Assigns r (field :: fields) b b'

/-- What must be there is written. -/
theorem Field.Assigns.isSome_written {fields : List (Field ρ)} {r b b' : ρ}
    (h : Field.Assigns r fields b b') :
    ∀ field ∈ fields, field.presence = .required → (field.written r).isSome := by
  induction h with
  | nil => nofun
  | cons hfield _ ih => exact List.forall_mem_cons.2 ⟨fun _ => by rw [hfield.written]; rfl, ih⟩
  | silent _ hpresence _ ih => exact List.forall_mem_cons.2 ⟨fun heq => absurd heq hpresence, ih⟩

/-- A field that is not written where its value says nothing may be missing, if it says nothing in
the record it is put in either. -/
theorem Field.Assigns.cons_omittedIf {c : Codec α} {get : ρ → α} {put : α → ρ → ρ}
    {isSilent : ρ → Bool} {fields : List (Field ρ)} {r b b' : ρ} (h : c.Recovers (get r))
    (name : String) (hsilent : isSilent r = true → put (get r) b = b)
    (hrest : Field.Assigns r fields (put (get r) b) b') :
    Field.Assigns r ((Field.of name .optional c get put).omittedIf isSilent :: fields) b b' := by
  rcases hr : isSilent r with _ | _
  · exact .cons ((Field.carries_of h name .optional put).omittedIf hr) hrest
  · have hwritten : ((Field.of name .optional c get put).omittedIf isSilent).written r = none :=
      if_pos hr
    rw [hsilent hr] at hrest
    exact .silent hwritten nofun hrest

namespace Schema

variable {s : Schema ρ} {r b b' : ρ} {fields : List (Field ρ)}

/-- The members that fields of a record are written as. -/
def membersOf (fields : List (Field ρ)) (r : ρ) : List (String × Value) :=
  fields.filterMap fun field => (field.written r).map (field.name, ·)

theorem membersOf_nil (r : ρ) : membersOf [] r = [] := rfl

theorem membersOf_cons {field : Field ρ} {v : Value} (h : field.written r = some v)
    (fields : List (Field ρ)) :
    membersOf (field :: fields) r = (field.name, v) :: membersOf fields r := by
  rw [membersOf, List.filterMap_cons, h]
  rfl

theorem membersOf_cons_of_none {field : Field ρ} (h : field.written r = none)
    (fields : List (Field ρ)) : membersOf (field :: fields) r = membersOf fields r := by
  rw [membersOf, List.filterMap_cons, h]
  rfl

theorem membersOf_append (fields fields' : List (Field ρ)) (r : ρ) :
    membersOf (fields ++ fields') r = membersOf fields r ++ membersOf fields' r :=
  List.filterMap_append

/-- A member has the name of a field that is written. -/
theorem mem_map_membersOf {name : String} : name ∈ (membersOf fields r).map (·.1) ↔
    ∃ field ∈ fields, (field.written r).isSome ∧ field.name = name := by
  simp only [membersOf, List.map_filterMap, List.mem_filterMap, Option.map_map,
    Option.map_eq_some_iff, Option.isSome_iff_exists]
  constructor
  · rintro ⟨field, hfield, v, hv, rfl⟩
    exact ⟨field, hfield, ⟨v, hv⟩, rfl⟩
  · rintro ⟨field, hfield, ⟨v, hv⟩, rfl⟩
    exact ⟨field, hfield, v, hv, rfl⟩

theorem rereads_of_assigns (h : Field.Assigns r fields b b') :
    ∀ e ∈ membersOf fields r, e.2.Rereads := by
  induction h with
  | nil => nofun
  | cons hfield _ ih =>
    rw [membersOf_cons hfield.written]
    exact List.forall_mem_cons.2 ⟨hfield.rereads, ih⟩
  | silent hwritten _ _ ih => rwa [membersOf_cons_of_none hwritten]

/-- Members that state the fields of `r` set them one after another. `done` are the fields
before. -/
theorem ofMembers_of_assigns (hnames : (s.fields.map (·.name)).Nodup)
    (h : Field.Assigns r fields b b') :
    ∀ {done : List (Field ρ)} {ds : List (Except Fault String × Draft)},
      s.fields = done ++ fields → Draft.StatesMembers ds (membersOf fields r) →
      s.ofMembers ((membersOf done r).map (·.1)).reverse b ds =
        .ok (((membersOf s.fields r).map (·.1)).reverse, b') := by
  induction h with
  | nil b =>
    intro done ds hfields hds
    cases hds
    rw [hfields, List.append_nil]
    rfl
  | @cons field fields v put b b' hfield _ ih =>
    intro done ds hfields hds
    -- No field before has this name: it is the first of the name, and not set twice.
    have hother : ∀ f ∈ done, f.name ≠ field.name := by
      intro f hf heq
      rw [hfields, List.map_append, List.nodup_append] at hnames
      exact hnames.2.2 f.name (List.mem_map_of_mem hf) field.name
        (List.mem_map_of_mem List.mem_cons_self) heq
    have hfind : s.fields.find? (·.name == field.name) = some field := by
      rw [hfields, List.find?_append, List.find?_eq_none.2 (by simpa using hother)]
      simp
    have hseen : ((membersOf done r).map (·.1)).reverse.contains field.name = false := by
      rw [List.contains_reverse, ← Bool.not_eq_true, List.contains_iff_mem, mem_map_membersOf]
      rintro ⟨f, hf, -, heq⟩
      exact hother f hf heq
    rw [membersOf_cons hfield.written] at hds
    cases hds with
    | @cons d _ ds _ key hd hrest =>
      have hrest' := @ih (done ++ [field]) _ (by rw [hfields, List.append_assoc]; rfl) hrest
      rw [membersOf_append, membersOf_cons hfield.written, List.map_append,
        List.reverse_append] at hrest'
      rw [ofMembers, hfind]
      simp only [hseen, hfield.assign d b hd]
      exact hrest'
  | @silent field fields b b' hwritten _ _ ih =>
    intro done ds hfields hds
    rw [membersOf_cons_of_none hwritten] at hds
    have hrest := @ih (done ++ [field]) _ (by rw [hfields, List.append_assoc]; rfl) hds
    rwa [membersOf_append, membersOf_cons_of_none hwritten, membersOf_nil,
      List.append_nil] at hrest

/-- **A record is recovered if its fields have names of their own and make it up from the blank
record.** -/
theorem recovers (hnames : (s.fields.map (·.name)).Nodup)
    (h : Field.Assigns r s.fields s.blank r) : s.codec.Recovers r where
  rereads := .object (rereads_of_assigns h)
  decode := by
    intro d hd
    cases hd with
    | object hds =>
      have hmembers := ofMembers_of_assigns hnames h (List.nil_append s.fields).symm hds
      have hmissing : s.firstMissing? ((membersOf s.fields r).map (·.1)).reverse = none := by
        rw [firstMissing?, Option.map_eq_none_iff, List.find?_eq_none]
        intro field hfield hmissing
        obtain ⟨hrequired, hunseen⟩ := Bool.and_eq_true_iff.1 hmissing
        have hname : field.name ∈ (membersOf s.fields r).map (·.1) := mem_map_membersOf.2
          ⟨field, hfield, h.isSome_written field hfield (of_decide_eq_true hrequired), rfl⟩
        simp [hname] at hunseen
      refine bind_eq_ok_iff.2 ⟨_, hmembers, bind_eq_ok_iff.2 ⟨⟨⟩, rfl, ?_⟩⟩
      simp only [hmissing]
      rfl

end Schema

end Json

end Waybill
