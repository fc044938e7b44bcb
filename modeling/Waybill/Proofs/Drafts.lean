import Mathlib.Data.List.DropRight
import Mathlib.Tactic.Common
import Waybill.Json.Codec
import Waybill.Proofs.Layout
import Waybill.Proofs.NumberEnds
import Waybill.Proofs.Quotation

/-!
# Written values read back

The text of a value, in whatever layout, is read as a draft that states the value
(`readsAs_chars`), and so a decoder that understands such drafts reads the text
(`decodeText_of_states`). A number is only known to be read again where it stands alone
(`Value.Rereads`); since nothing that may follow it in a longer text belongs to a number, it is
read there too (`readsAs_number`).
-/

namespace Waybill.Json

variable {cs r bs : List Char} {d : Draft} {v : Value} {fuel : Nat}

/-! ## What a draft states -/

mutual

/-- The draft is whole and states the value; a number states the nearest float. -/
inductive Draft.States : Draft → Value → Prop
  | null : States .null .null
  | number {n : Number} {x : Float} (h : n.toFloat = x) : States (.number (.ok n)) (.number x)
  | text (s : String) : States (.text (.ok s)) (.text s)
  | array {ds : List Draft} {vs : List Value} (h : StatesItems ds vs) :
      States (.array ds .closed) (.array vs)
  | object {ds : List (Except Fault String × Draft)} {ms : List (String × Value)}
      (h : StatesMembers ds ms) : States (.object ds .closed) (.object ms)

/-- The drafts state the values, one by one. -/
inductive Draft.StatesItems : List Draft → List Value → Prop
  | nil : StatesItems [] []
  | cons {d : Draft} {v : Value} {ds : List Draft} {vs : List Value} (h : d.States v)
      (hrest : StatesItems ds vs) : StatesItems (d :: ds) (v :: vs)

/-- The drafts have the keys of the members and state their values, one by one. -/
inductive Draft.StatesMembers : List (Except Fault String × Draft) → List (String × Value) → Prop
  | nil : StatesMembers [] []
  | cons {d : Draft} {v : Value} {ds : List (Except Fault String × Draft)}
      {ms : List (String × Value)} (key : String) (h : d.States v) (hrest : StatesMembers ds ms) :
      StatesMembers ((.ok key, d) :: ds) ((key, v) :: ms)

end

/-- Every number in the value is read again as itself where it stands alone. -/
inductive Value.Rereads : Value → Prop
  | null : Rereads .null
  | number {x : Float} (h : Codec.float.read (Codec.float.write x) = .ok x) : Rereads (.number x)
  | text (s : String) : Rereads (.text s)
  | array {vs : List Value} (h : ∀ v ∈ vs, v.Rereads) : Rereads (.array vs)
  | object {ms : List (String × Value)} (h : ∀ m ∈ ms, m.2.Rereads) : Rereads (.object ms)

namespace Draft

/-! ## Blanks -/

/-- Blanks before a text are skipped with those it starts with. -/
theorem skipBlanks_append (hbs : ∀ c ∈ bs, isBlank c) (cs : List Char) :
    skipBlanks (bs ++ cs) = skipBlanks cs :=
  List.dropWhile_append_of_pos hbs

theorem skipBlanks_skipBlanks (cs : List Char) : skipBlanks (skipBlanks cs) = skipBlanks cs :=
  List.dropWhile_idempotent isBlank cs

/-- A value is read behind any blanks. -/
theorem ofValue_skipBlanks (fuel : Nat) (cs : List Char) :
    ofValue fuel (skipBlanks cs) = ofValue fuel cs := by
  cases fuel with
  | zero => rfl
  | succ fuel => rw [ofValue, ofValue, skipBlanks_skipBlanks]

theorem ofItems_skipBlanks (fuel : Nat) (cs : List Char) :
    ofItems fuel (skipBlanks cs) = ofItems fuel cs := by
  cases fuel with
  | zero => rfl
  | succ fuel => rw [ofItems, ofItems, ofValue_skipBlanks]

/-! ## One step of reading -/

/-- The text starts with the value, and reading goes on where `r` does. -/
def ReadsAs (fuel : Nat) (cs : List Char) (v : Value) (r : List Char) : Prop :=
  ∃ d rest, ofValue fuel cs = (d, some rest) ∧ d.States v ∧ skipBlanks rest = skipBlanks r

/-- The text starts with the items and the end of their array, and `r` follows. -/
def ReadsItems (fuel : Nat) (cs : List Char) (vs : List Value) (r : List Char) : Prop :=
  ∃ ds, ofItems fuel cs = (ds, .closed, some r) ∧ StatesItems ds vs

/-- But for blanks, the text starts with the members and the end of their object, and `r`
follows. -/
def ReadsMembers (fuel : Nat) (cs : List Char) (ms : List (String × Value)) (r : List Char) :
    Prop :=
  ∃ ds, ofMembers fuel (skipBlanks cs) = (ds, .closed, some r) ∧ StatesMembers ds ms

/-- Blanks before a value change nothing. -/
theorem ReadsAs.append (hbs : ∀ c ∈ bs, isBlank c) (h : ReadsAs fuel cs v r) :
    ReadsAs fuel (bs ++ cs) v r := by
  obtain ⟨d, rest, hvalue, h⟩ := h
  refine ⟨d, rest, ?_, h⟩
  rw [← ofValue_skipBlanks, skipBlanks_append hbs, ofValue_skipBlanks, hvalue]

/-- An array that is closed behind its items does not start with its end. -/
theorem exists_skipBlanks_of_ofItems {ds : List Draft} {rest : Option (List Char)}
    (h : ofItems fuel cs = (ds, .closed, rest)) : ∃ c t, skipBlanks cs = c :: t ∧ c ≠ ']' := by
  rcases fuel with _ | _ | fuel
  · cases h
  · cases h
  · -- The end of an array is no value, and where there is none the array is cut.
    rw [ofItems, ofValue] at h
    cases hcs : skipBlanks cs with
    | nil =>
      rw [hcs] at h
      cases h
    | cons c t =>
      refine ⟨c, t, rfl, ?_⟩
      rintro rfl
      rw [hcs] at h
      simp at h

/-- Members start with a text. -/
theorem exists_quote_of_ofMembers {ds : List (Except Fault String × Draft)}
    {rest : Option (List Char)} (h : ofMembers fuel cs = (ds, .closed, rest)) :
    ∃ t, cs = '\x22' :: t := by
  cases fuel with
  | zero => cases h
  | succ fuel =>
    rw [ofMembers.eq_def] at h
    simp only at h
    split at h
    · exact ⟨_, rfl⟩
    · cases h

/-- An array is read if its items are, up to its bracket. -/
theorem ReadsAs.array {vs : List Value} (h : ReadsItems fuel cs vs r) :
    ReadsAs (fuel + 1) ('[' :: cs) (.array vs) r := by
  obtain ⟨ds, hitems, hstates⟩ := h
  obtain ⟨c, t, hcs, hc⟩ := exists_skipBlanks_of_ofItems hitems
  rw [← ofItems_skipBlanks, hcs] at hitems
  have hopen : skipBlanks ('[' :: cs) = '[' :: cs := rfl
  refine ⟨.array ds .closed, r, ?_, .array hstates, rfl⟩
  rw [ofValue, hopen]
  simp only [Char.reduceEq, if_false, if_true, hcs]
  split
  · next hnil => cases hnil
  · next hclosed =>
    cases hclosed
    exact absurd rfl hc
  · rw [hitems]

/-- An object is read if its members are, up to its brace. -/
theorem ReadsAs.object {ms : List (String × Value)} (h : ReadsMembers fuel cs ms r) :
    ReadsAs (fuel + 1) ('\x7b' :: cs) (.object ms) r := by
  obtain ⟨ds, hmembers, hstates⟩ := h
  obtain ⟨t, hcs⟩ := exists_quote_of_ofMembers hmembers
  rw [hcs] at hmembers
  have hopen : skipBlanks ('\x7b' :: cs) = '\x7b' :: cs := rfl
  refine ⟨.object ds .closed, r, ?_, .object hstates, rfl⟩
  rw [ofValue, hopen]
  simp only [Char.reduceEq, if_false, if_true, hcs]
  split
  · next hnil => cases hnil
  · next hclosed => cases hclosed
  · rw [hmembers]

/-- The last item is followed by the bracket, behind any blanks. -/
theorem ReadsItems.last (h : ReadsAs fuel cs v (bs ++ ']' :: r)) (hbs : ∀ c ∈ bs, isBlank c) :
    ReadsItems (fuel + 1) cs [v] r := by
  obtain ⟨d, rest, hvalue, hstates, hrest⟩ := h
  have hend : skipBlanks rest = ']' :: r := hrest.trans (skipBlanks_append hbs _)
  refine ⟨[d], ?_, .cons hstates .nil⟩
  rw [ofItems, hvalue]
  simp only [hend]

/-- Any other item is followed by a comma and by the items that are left. -/
theorem ReadsItems.next {vs : List Value} {r' : List Char} (h : ReadsAs fuel cs v (',' :: r))
    (hnext : ReadsItems fuel r vs r') : ReadsItems (fuel + 1) cs (v :: vs) r' := by
  obtain ⟨d, rest, hvalue, hstates, hrest⟩ := h
  obtain ⟨ds, hitems, hstates'⟩ := hnext
  obtain ⟨c, t, hr, hc⟩ := exists_skipBlanks_of_ofItems hitems
  rw [← ofItems_skipBlanks, hr] at hitems
  have hcomma : skipBlanks rest = ',' :: r := hrest
  refine ⟨d :: ds, ?_, .cons hstates hstates'⟩
  rw [ofItems, hvalue]
  simp only [hcomma, hr]
  split
  · next hnil => cases hnil
  · next hclosed =>
    cases hclosed
    exact absurd rfl hc
  · rw [hitems]

/-- Behind its key and a colon the value of a member is read. -/
theorem ofMemberValue_quoted (fuel : Nat) (key : String) (cs : List Char) :
    ofMemberValue (fuel + 1) (quotedChars key ++ '\x22' :: ':' :: cs) = ofValue fuel cs := by
  have hcolon : skipBlanks (':' :: cs) = ':' :: cs := rfl
  rw [ofMemberValue, skipText_quoted]
  simp only [hcolon]

theorem ReadsMembers.last (key : String) (h : ReadsAs fuel cs v (bs ++ '\x7d' :: r))
    (hbs : ∀ c ∈ bs, isBlank c) :
    ReadsMembers (fuel + 2) (quote key ++ ':' :: cs) [(key, v)] r := by
  obtain ⟨d, rest, hvalue, hstates, hrest⟩ := h
  have hend : skipBlanks rest = '\x7d' :: r := hrest.trans (skipBlanks_append hbs _)
  have hopen : ∀ t, skipBlanks ('\x22' :: t) = '\x22' :: t := fun _ => rfl
  refine ⟨[(.ok key, d)], ?_, .cons key hstates .nil⟩
  rw [quote_append, hopen, ofMembers, readText_quoted, ofMemberValue_quoted, hvalue]
  simp only [hend]
  rfl

theorem ReadsMembers.next {ms : List (String × Value)} {r' : List Char} (key : String)
    (h : ReadsAs fuel cs v (',' :: r)) (hnext : ReadsMembers (fuel + 1) r ms r') :
    ReadsMembers (fuel + 2) (quote key ++ ':' :: cs) ((key, v) :: ms) r' := by
  obtain ⟨d, rest, hvalue, hstates, hrest⟩ := h
  obtain ⟨ds, hmembers, hstates'⟩ := hnext
  obtain ⟨t, hr⟩ := exists_quote_of_ofMembers hmembers
  rw [hr] at hmembers
  have hcomma : skipBlanks rest = ',' :: r := hrest
  have hopen : ∀ t, skipBlanks ('\x22' :: t) = '\x22' :: t := fun _ => rfl
  refine ⟨(.ok key, d) :: ds, ?_, .cons key hstates hstates'⟩
  rw [quote_append, hopen, ofMembers, readText_quoted, ofMemberValue_quoted, hvalue]
  simp only [hcomma, hr]
  split
  · next hnil => cases hnil
  · next hclosed => cases hclosed
  · rw [hmembers]
    rfl

theorem ReadsMembers.append {ms : List (String × Value)} (hbs : ∀ c ∈ bs, isBlank c)
    (h : ReadsMembers fuel cs ms r) : ReadsMembers fuel (bs ++ cs) ms r := by
  obtain ⟨ds, hmembers, hstates⟩ := h
  exact ⟨ds, by rw [skipBlanks_append hbs, hmembers], hstates⟩

theorem ReadsItems.append {vs : List Value} (hbs : ∀ c ∈ bs, isBlank c)
    (h : ReadsItems fuel cs vs r) : ReadsItems fuel (bs ++ cs) vs r := by
  obtain ⟨ds, hitems, hstates⟩ := h
  refine ⟨ds, ?_, hstates⟩
  rw [← ofItems_skipBlanks, skipBlanks_append hbs, ofItems_skipBlanks, hitems]

end Draft

/-! ## Numbers -/

/-- A text is decoded if its draft is and nothing stands behind it. -/
theorem decodeText_eq_ok_iff {α : Type} {decoder : Decoder α} {s : String} {a : α} :
    decodeText decoder s = .ok a ↔
      decoder (Draft.ofChars s.toList).1 = .ok a ∧ (Draft.ofChars s.toList).2 = false := by
  unfold decodeText
  rcases Draft.ofChars s.toList with ⟨d, more⟩
  constructor
  · intro h
    obtain ⟨a', ha, h⟩ := bind_eq_ok_iff.1 h
    cases more with
    | true => cases h
    | false =>
      cases h
      exact ⟨ha, rfl⟩
  · rintro ⟨ha, rfl⟩
    exact bind_eq_ok_iff.2 ⟨a, ha, rfl⟩

/-- A number is decoded from a draft of a number and from no other. -/
theorem Decoder.float_eq_ok_iff {x : Float} :
    Decoder.float d = .ok x ↔ ∃ n : Number, d = .number (.ok n) ∧ n.toFloat = x := by
  constructor
  · intro h
    unfold Decoder.float at h
    split at h
    · cases h
      exact ⟨_, rfl, rfl⟩
    · unfold Draft.refuse at h
      split at h <;> cases h
  · rintro ⟨n, rfl, rfl⟩
    rfl

namespace Draft

variable {n : Except Fault Number} {rest : Option (List Char)}

/-- A draft is a number if a number was read, and what is left was left by that. -/
theorem ofNumber_eq_iff :
    ofNumber cs = (.number n, rest) ↔ ∃ r, readNumber cs = .ok (n, r) ∧ rest = some r := by
  unfold ofNumber
  rcases readNumber cs with fault | ⟨n', r⟩
  · exact iff_of_false nofun nofun
  · simp [eq_comm]

/-- A value that starts with a digit or a minus is read as a number. -/
theorem ofValue_number {c : Char} {t : List Char} (hcs : skipBlanks cs = c :: t)
    (hc : c = '-' ∨ c.isDigit) : ofValue (fuel + 1) cs = ofNumber (c :: t) := by
  have hother : ∀ c', c'.isDigit = false → c' ≠ '-' → c ≠ c' := by
    rintro c' hdigit hsign rfl
    rcases hc with hc | hc
    · exact hsign hc
    · rw [hdigit] at hc
      cases hc
  rw [ofValue, hcs]
  simp only [hother '\x22' rfl (by decide), hother '[' rfl (by decide),
    hother '\x7b' rfl (by decide), hother 'n' rfl (by decide), hother 't' rfl (by decide),
    hother 'f' rfl (by decide), hc, if_true, if_false]

theorem ofText_ne_number (cs : List Char) : ofText cs ≠ (.number n, rest) := by
  unfold ofText
  split <;> nofun

theorem ofWord_ne_number (hd : d ≠ .number n) (word cs : List Char) :
    ofWord d word cs ≠ (.number n, rest) := by
  unfold ofWord
  split
  · exact fun h => hd (congrArg Prod.fst h)
  · nofun

/-- What is understood as a number starts like one. -/
theorem exists_ofNumber_of_ofValue (h : ofValue fuel cs = (.number n, rest)) :
    ∃ c t, skipBlanks cs = c :: t ∧ (c = '-' ∨ c.isDigit) ∧
      ofNumber (c :: t) = (.number n, rest) := by
  cases fuel with
  | zero => cases h
  | succ fuel =>
    rw [ofValue] at h
    cases hcs : skipBlanks cs with
    | nil =>
      rw [hcs] at h
      cases h
    | cons c t =>
      rw [hcs] at h
      simp only at h
      split_ifs at h with hquote harray hobject hnull htrue hfalse hnumber
      · exact (ofText_ne_number t h).elim
      · split at h <;> cases h
      · split at h <;> cases h
      · exact (ofWord_ne_number (by nofun) _ t h).elim
      · exact (ofWord_ne_number (by nofun) _ t h).elim
      · exact (ofWord_ne_number (by nofun) _ t h).elim
      · exact ⟨c, t, rfl, hnumber, h⟩
      · cases h

/-- A number that is read again where it stands alone is so before whatever ends it. -/
theorem readsAs_number {x : Float} (hx : Codec.float.read (Codec.float.write x) = .ok x)
    (fuel : Nat) (hr : EndsNumber r) :
    ReadsAs (fuel + 1) ((Decimal.Style.json.write x).toList ++ r) (.number x) r := by
  have hwritten : (Codec.float.write x).toList = (Decimal.Style.json.write x).toList :=
    String.toList_ofList
  have hread : decodeText Decoder.float (Codec.float.write x) = .ok x := hx
  obtain ⟨hfloat, hmore⟩ := decodeText_eq_ok_iff.1 hread
  obtain ⟨n, hn, hvalue⟩ := Decoder.float_eq_ok_iff.1 hfloat
  rw [hwritten] at hn hmore
  generalize (Decimal.Style.json.write x).toList = cs at hn hmore ⊢
  unfold ofChars at hn hmore
  rcases halone : ofValue (3 * cs.length + 3) cs with ⟨d, rest⟩
  rw [halone] at hn hmore
  cases hn
  obtain ⟨c, t, hcs, hc, hnumber⟩ := exists_ofNumber_of_ofValue halone
  obtain ⟨behind, hbefore, rfl⟩ := ofNumber_eq_iff.1 hnumber
  have hbehind : ∀ b ∈ behind, isBlank b := by
    have hnone : skipBlanks behind = [] := by simpa using hmore
    exact List.dropWhile_eq_nil_iff.1 hnone
  have hskip : skipBlanks (cs ++ r) = c :: (t ++ r) := by
    unfold skipBlanks at hcs ⊢
    rw [List.dropWhile_append, hcs]
    rfl
  -- Alone, only blanks may follow the number; what follows them here is left for later.
  refine ⟨.number (.ok n), behind ++ r, ?_, .number hvalue, skipBlanks_append hbehind r⟩
  rw [ofValue_number hskip hc]
  exact ofNumber_eq_iff.2 ⟨_, readNumber_append hr hbefore, rfl⟩

theorem endsNumber_nil : EndsNumber [] := by
  rintro c ⟨⟩

/-- A number ends at a comma and at a closing bracket or brace. -/
theorem endsNumber_cons {c : Char} (hc : c = ',' ∨ c = ']' ∨ c = '\x7d') (r : List Char) :
    EndsNumber (c :: r) := by
  rintro _ ⟨⟩
  rcases hc with rfl | rfl | rfl <;> decide

theorem endsNumber_append (hbs : ∀ c ∈ bs, isBlank c) (hr : EndsNumber r) :
    EndsNumber (bs ++ r) := by
  cases bs with
  | nil => exact hr
  | cons b bs =>
    rintro c ⟨⟩
    have hb := hbs b List.mem_cons_self
    simp only [isBlank, Bool.or_eq_true, beq_iff_eq] at hb
    rcases hb with ((rfl | rfl) | rfl) | rfl <;> decide

/-! ## Whole values -/

section Chars

variable (l : Layout)

mutual

/-- **The text of a value reads as the value, in every layout and before whatever may follow.**
The steps of reading are counted by the characters: a value takes one step, an item one and a
member two before its value, and none of them is shorter than that. -/
theorem readsAs_chars (level : Nat) : ∀ v : Value, v.Rereads →
    ∀ (fuel : Nat) (r : List Char), 3 * (v.chars l level).length < fuel → EndsNumber r →
      ReadsAs fuel (v.chars l level ++ r) v r
  | .null, _, fuel + 1, r, _, _ => ⟨.null, r, rfl, .null, rfl⟩
  | .number x, .number hx, fuel + 1, r, _, hr => readsAs_number hx fuel hr
  | .text s, _, fuel + 1, r, _, _ => by
    refine ⟨.text (.ok s), r, ?_, .text s, rfl⟩
    rw [Value.chars, quote_append]
    exact ofText_quoted s r
  | .array [], _, fuel + 1, r, _, _ => ⟨.array [] .closed, r, rfl, .array .nil, rfl⟩
  | .array (v :: vs), .array hvs, fuel + 1, r, hfuel, _ => by
    rw [Value.chars_array] at hfuel ⊢
    simp only [List.length_cons, List.length_append] at hfuel
    have hitems := readsItems_chars (level + 1) (v :: vs) (List.cons_ne_nil v vs) hvs fuel
      (l.gap level) r (l.blank_gap level) (by omega)
    simpa using ReadsAs.array hitems
  | .object [], _, fuel + 1, r, _, _ => ⟨.object [] .closed, r, rfl, .object .nil, rfl⟩
  | .object (e :: ms), .object hms, fuel + 1, r, hfuel, _ => by
    rw [Value.chars_object] at hfuel ⊢
    simp only [List.length_cons, List.length_append] at hfuel
    have hmembers := readsMembers_chars (level + 1) (e :: ms) (List.cons_ne_nil e ms) hms fuel
      (l.gap level) r (l.blank_gap level) (by omega)
    simpa using ReadsAs.object hmembers

/-- The items of an array are read back from their layout, at any depth. -/
theorem readsItems_chars (level : Nat) : ∀ vs : List Value, vs ≠ [] →
    (∀ v ∈ vs, v.Rereads) → ∀ (fuel : Nat) (bs r : List Char), (∀ c ∈ bs, isBlank c) →
      3 * (Value.itemsChars l level vs).length + 1 < fuel →
      ReadsItems fuel (Value.itemsChars l level vs ++ (bs ++ ']' :: r)) vs r
  | [], hne, _, _, _, _, _, _ => absurd rfl hne
  | [v], _, hvs, fuel + 1, bs, r, hbs, hfuel => by
    rw [Value.itemsChars_singleton] at hfuel ⊢
    simp only [List.length_append] at hfuel
    have hr : EndsNumber (bs ++ ']' :: r) :=
      endsNumber_append hbs (endsNumber_cons (.inr (.inl rfl)) r)
    have hvalue := readsAs_chars level v (hvs v List.mem_cons_self) fuel _ (by omega) hr
    rw [List.append_assoc]
    exact (ReadsItems.last hvalue hbs).append (l.blank_gap level)
  | v :: w :: vs, _, hvs, fuel + 1, bs, r, hbs, hfuel => by
    rw [Value.itemsChars_cons] at hfuel ⊢
    simp only [List.length_append, List.length_cons] at hfuel
    have hrest := readsItems_chars level (w :: vs) (List.cons_ne_nil w vs)
      (fun u hu => hvs u (List.mem_cons_of_mem v hu)) fuel bs r hbs (by omega)
    have hr : EndsNumber (',' :: (Value.itemsChars l level (w :: vs) ++ (bs ++ ']' :: r))) :=
      endsNumber_cons (.inl rfl) _
    have hvalue := readsAs_chars level v (hvs v List.mem_cons_self) fuel _ (by omega) hr
    simpa using (ReadsItems.next hvalue hrest).append (l.blank_gap level)

/-- The members of an object are read back from their layout, at any depth. -/
theorem readsMembers_chars (level : Nat) : ∀ ms : List (String × Value), ms ≠ [] →
    (∀ m ∈ ms, m.2.Rereads) → ∀ (fuel : Nat) (bs r : List Char), (∀ c ∈ bs, isBlank c) →
      3 * (Value.membersChars l level ms).length + 1 < fuel →
      ReadsMembers fuel (Value.membersChars l level ms ++ (bs ++ '\x7d' :: r)) ms r
  | [], hne, _, _, _, _, _, _ => absurd rfl hne
  | [(key, v)], _, hms, fuel + 2, bs, r, hbs, hfuel => by
    rw [Value.membersChars_singleton] at hfuel ⊢
    simp only [List.length_append, List.length_cons] at hfuel
    have hr : EndsNumber (bs ++ '\x7d' :: r) :=
      endsNumber_append hbs (endsNumber_cons (.inr (.inr rfl)) r)
    have hvalue := readsAs_chars level v (hms (key, v) List.mem_cons_self) fuel _ (by omega) hr
    have hmember := ReadsMembers.last key (hvalue.append l.blank_afterColon) hbs
    simpa using hmember.append (l.blank_gap level)
  | (key, v) :: e :: ms, _, hms, fuel + 2, bs, r, hbs, hfuel => by
    rw [Value.membersChars_cons] at hfuel ⊢
    simp only [List.length_append, List.length_cons] at hfuel
    have hrest := readsMembers_chars level (e :: ms) (List.cons_ne_nil e ms)
      (fun m hm => hms m (List.mem_cons_of_mem _ hm)) (fuel + 1) bs r hbs (by omega)
    have hr : EndsNumber (',' :: (Value.membersChars l level (e :: ms) ++ (bs ++ '\x7d' :: r))) :=
      endsNumber_cons (.inl rfl) _
    have hvalue := readsAs_chars level v (hms (key, v) List.mem_cons_self) fuel _ (by omega) hr
    have hmember := ReadsMembers.next key (hvalue.append l.blank_afterColon) hrest
    simpa using hmember.append (l.blank_gap level)

end

end Chars

/-- The text of a whole value is read as a draft that states it, and nothing more. -/
theorem ofChars_chars (l : Layout) (level : Nat) {v : Value} (hv : v.Rereads) :
    ∃ d, ofChars (v.chars l level) = (d, false) ∧ d.States v := by
  obtain ⟨d, rest, hvalue, hstates, hrest⟩ := readsAs_chars l level v hv
    (3 * (v.chars l level).length + 3) [] (by omega) endsNumber_nil
  refine ⟨d, ?_, hstates⟩
  rw [List.append_nil] at hvalue
  rw [ofChars, hvalue]
  simp only [Option.getD_some, hrest]
  rfl

end Draft

/-- **A decoder reads both texts of a value if it understands the drafts that state it.** -/
theorem decodeText_of_states {α : Type} {decoder : Decoder α} {a : α} (hv : v.Rereads)
    (h : ∀ d : Draft, d.States v → decoder d = .ok a) :
    decodeText decoder v.compact = .ok a ∧ decodeText decoder v.pretty = .ok a := by
  have hlayout : ∀ l : Layout, decodeText decoder (String.ofList (v.chars l 0)) = .ok a := by
    intro l
    obtain ⟨d, hd, hstates⟩ := Draft.ofChars_chars l 0 hv
    rw [decodeText_eq_ok_iff, String.toList_ofList, hd]
    exact ⟨h d hstates, rfl⟩
  constructor
  · rw [Value.compact, Value.compactChars_eq 0]
    exact hlayout .oneLine
  · rw [Value.pretty, Value.prettyChars_eq]
    exact hlayout .indented

end Waybill.Json
