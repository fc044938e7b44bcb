import Waybill.Proofs.Addresses
import Waybill.Proofs.Characters
import Waybill.Url.Parser

/-!
# Hosts read back

A host that was read is written in one of four forms (`HostText`), and in each of them it is read
as it stands (`HostText.readHost_eq`): encoding and lower case change nothing a second time, and a
name is told from an address by how it ends. No form holds a character that ends the authority or
divides it, but for the colons within brackets, so that a host is found where it was written
(`HostText.hostSpan_append`).
-/

namespace Waybill.Url

open Text Percent Address

variable {special : Bool} {cs rest : List Char} {host : String} {c : Char}

/-- The written form of a host. -/
inductive HostText : Bool → List Char → Prop where
  /-- An address of version 6. -/
  | bracketed {special : Bool} {pieces : List Nat} (h : IsVersion6 pieces) :
      HostText special ('[' :: writeVersion6 pieces ++ [']'])
  /-- An address of version 4. -/
  | address {address : Nat} (h : address < 256 ^ 4) : HostText true (writeVersion4 address)
  /-- A domain name. -/
  | domain {cs : List Char} (h : ∀ c ∈ cs, isForbiddenInDomain c = false)
      (hlower : ∀ c ∈ cs, c.toLower = c) (hne : cs ≠ []) (hname : endsInNumber cs = false) :
      HostText true cs
  /-- A text as it was given, where the scheme does not say what a host is. -/
  | given {cs : List Char} (h : ∀ c ∈ cs, isForbiddenInHost c = false ∧ inControls c = false) :
      HostText false cs

/-! ## What is read has one of the forms -/

/-- What is read in brackets is an address, written in its canonical form. -/
theorem hostText_of_readBracketed (h : readBracketed cs = .ok host) :
    HostText special host.toList := by
  unfold readBracketed at h
  split at h
  · split at h
    · split at h
      · next pieces hpieces =>
        cases h
        rw [String.toList_ofList]
        exact .bracketed (isVersion6_of_readVersion6? hpieces)
      · cases h
    · cases h
  · cases h

/-- A domain that is read is a name in lower case or an address of version 4. -/
theorem hostText_of_readDomain (h : readDomain cs = .ok host) : HostText true host.toList := by
  unfold readDomain at h
  extract_lets bytes name at h
  split at h
  · cases h
  next hallowed =>
  split at h
  · cases h
  next hne =>
  have hlower : ∀ c ∈ name, c.toLower = c := by
    intro c hc
    obtain ⟨b, -, rfl⟩ := List.mem_map.1 hc
    exact toLower_toLower _
  split at h
  · split at h
    · next address haddress =>
      cases h
      rw [String.toList_ofList]
      exact .address (lt_of_readVersion4? haddress)
    · cases h
  · next hname =>
    cases h
    rw [String.toList_ofList]
    exact .domain (by simpa using hallowed) hlower hne (by simpa using hname)

/-- **Every host that is read is in one of its forms.** -/
theorem hostText_of_readHost (h : readHost special cs = .ok host) :
    HostText special host.toList := by
  unfold readHost at h
  split at h
  · exact hostText_of_readBracketed h
  split at h
  · next hspecial =>
    rw [hspecial]
    exact hostText_of_readDomain h
  next hspecial =>
  split at h
  · cases h
  next hallowed =>
  cases h
  rw [String.toList_ofList, Bool.eq_false_iff.2 hspecial]
  refine .given (forall_mem_encode (by decide) (by decide) fun c hc hkept => ⟨?_, hkept⟩)
  simpa using List.any_eq_false.1 (by simpa using hallowed) c hc

/-! ## Each form is read as it stands -/

/-- A text without escapes is decoded to itself where it is in ASCII. -/
theorem map_decode_of_lower (hallowed : ∀ c ∈ cs, isForbiddenInDomain c = false)
    (hlower : ∀ c ∈ cs, c.toLower = c) :
    (decode cs).map (fun b => (Char.ofNat b.toNat).toLower) = cs := by
  have hchar : ∀ c ∈ cs, c ≠ '%' ∧ c.toNat < 128 := by
    intro c hc
    have hnot := hallowed c hc
    simp only [isForbiddenInDomain, Bool.or_eq_false_iff, beq_eq_false_iff_ne] at hnot
    exact ⟨hnot.2, toNat_lt_of_inControls hnot.1.2⟩
  have hescape : hasEscape cs = false := hasEscape_of_notMem fun h => (hchar _ h).1 rfl
  have hbytes : decode cs = cs.flatMap String.utf8EncodeChar := by
    have hkept : encode (fun _ => false) cs = cs := encode_eq_self fun _ _ => rfl
    have hdecode := decode_encode (fun _ => false) hescape
    rwa [hkept] at hdecode
  rw [hbytes, List.map_flatMap]
  clear hallowed hescape hbytes
  induction cs with
  | nil => rfl
  | cons c r ih =>
    rw [List.forall_mem_cons] at hlower hchar
    have hc : (String.utf8EncodeChar c).map (fun b => (Char.ofNat b.toNat).toLower) = [c] := by
      refine forall_ascii (P := fun c => c.toLower = c →
        (String.utf8EncodeChar c).map (fun b => (Char.ofNat b.toNat).toLower) = [c]) (by decide)
        hchar.1.2 hlower.1
    rw [List.flatMap_cons, hc, ih hlower.2 hchar.2, List.singleton_append]

/-- A name in lower case without forbidden characters is read as it stands, unless it ends
in a number. -/
theorem readDomain_eq (hallowed : ∀ c ∈ cs, isForbiddenInDomain c = false)
    (hlower : ∀ c ∈ cs, c.toLower = c) (hne : cs ≠ []) :
    readDomain cs = if endsInNumber cs then
        match readVersion4? cs with
        | some address => .ok (String.ofList (writeVersion4 address))
        | none => .error .invalidVersion4
      else .ok (String.ofList cs) := by
  have hany : cs.any isForbiddenInDomain = false := by simpa using hallowed
  unfold readDomain
  dsimp only
  rw [map_decode_of_lower hallowed hlower, hany]
  exact (if_neg Bool.false_ne_true).trans (if_neg hne)

theorem head?_ne_bracket (h : ∀ c ∈ cs, isForbiddenInHost c = false) : cs.head? ≠ some '[' := by
  intro hhead
  have hforbidden := h '[' (List.mem_of_mem_head? hhead)
  exact absurd hforbidden (by decide)

theorem isForbiddenInHost_of_domain (h : isForbiddenInDomain c = false) :
    isForbiddenInHost c = false := by
  simp only [isForbiddenInDomain, Bool.or_eq_false_iff] at h
  exact h.1.1

theorem writeVersion4_ne_nil (address : Nat) : writeVersion4 address ≠ [] := by
  simp [writeVersion4]

/-- **A written host is read as it stands.** -/
theorem HostText.readHost_eq (h : HostText special cs) :
    readHost special cs = .ok (String.ofList cs) := by
  have hdomain : ∀ {cs}, (∀ c ∈ cs, isForbiddenInDomain c = false) →
      readHost true cs = readDomain cs := by
    intro cs hallowed
    have hhead := head?_ne_bracket fun c hc => isForbiddenInHost_of_domain (hallowed c hc)
    rw [readHost, if_neg hhead, if_pos rfl]
  cases h with
  | bracketed h =>
    rw [readHost, List.cons_append, if_pos List.head?_cons, readBracketed,
      if_pos List.getLast?_concat, List.dropLast_concat, readVersion6?_writeVersion6 h]
    rfl
  | @address address h =>
    have hallowed : ∀ c ∈ writeVersion4 address, isForbiddenInDomain c = false :=
      forall_mem_writeVersion4 (by decide) (by decide) address
    have hlower : ∀ c ∈ writeVersion4 address, c.toLower = c :=
      forall_mem_writeVersion4 (by decide) (by decide) address
    rw [hdomain hallowed, readDomain_eq hallowed hlower (writeVersion4_ne_nil address),
      if_pos (endsInNumber_writeVersion4 address), readVersion4?_writeVersion4 h]
  | domain hallowed hlower hne hname =>
    rw [hdomain hallowed, readDomain_eq hallowed hlower hne, hname, if_neg Bool.false_ne_true]
  | given h =>
    have hany : cs.any isForbiddenInHost = false := by simpa using fun c hc => (h c hc).1
    rw [readHost, if_neg (head?_ne_bracket fun c hc => (h c hc).1), if_neg Bool.false_ne_true, hany,
      if_neg Bool.false_ne_true, encode_eq_self fun c hc => (h c hc).2]

/-! ## What no host holds -/

/-- A character that an authority may hold: it is seen, and ends no authority. -/
def isInAuthority (c : Char) : Bool :=
  0x20 < c.toNat && c.toNat < 0x7F && c != '/' && c != '\\' && c != '?' && c != '#'

/-- No blank and no control has a place in an authority. -/
theorem seen_of_isInAuthority (h : isInAuthority c = true) : 0x20 < c.toNat ∧ c.toNat < 0x7F := by
  simp only [isInAuthority, Bool.and_eq_true, decide_eq_true_eq] at h
  exact h.1.1.1.1

/-- A character of a host: it may stand in an authority, and is no mark in it. -/
def isHostChar (c : Char) : Bool := isInAuthority c && c != '@'

/-- A character that is neither forbidden nor to be encoded may stand in a host. -/
theorem isHostChar_of_given (hhost : isForbiddenInHost c = false)
    (hcontrols : inControls c = false) :
    isHostChar c = true ∧ c ≠ ':' ∧ c ≠ '[' ∧ c ≠ '|' := by
  have hascii := toNat_lt_of_inControls hcontrols
  exact forall_ascii (P := fun c => isForbiddenInHost c = false → inControls c = false →
    isHostChar c = true ∧ c ≠ ':' ∧ c ≠ '[' ∧ c ≠ '|') (by decide) hascii hhost hcontrols

/-- A host without brackets has nothing in it that divides an authority. -/
theorem HostText.bracketed_or (h : HostText special cs) :
    (∃ pieces, cs = '[' :: writeVersion6 pieces ++ [']']) ∨
      ∀ c ∈ cs, isHostChar c = true ∧ c ≠ ':' ∧ c ≠ '[' ∧ c ≠ '|' := by
  cases h with
  | bracketed h => exact .inl ⟨_, rfl⟩
  | address h => exact .inr (forall_mem_writeVersion4 (by decide) (by decide) _)
  | domain hallowed =>
    refine .inr fun c hc => ?_
    have hc := hallowed c hc
    simp only [isForbiddenInDomain, Bool.or_eq_false_iff] at hc
    exact isHostChar_of_given hc.1.1 hc.1.2
  | given h => exact .inr fun c hc => isHostChar_of_given (h c hc).1 (h c hc).2

/-- Every character of a host may stand in one. -/
theorem HostText.isHostChar (h : HostText special cs) : ∀ c ∈ cs, isHostChar c = true := by
  rcases h.bracketed_or with ⟨pieces, rfl⟩ | hplain
  · rw [List.cons_append, List.forall_mem_cons, List.forall_mem_append, List.forall_mem_singleton]
    exact ⟨rfl, forall_mem_writeVersion6 (by decide) (by decide) pieces, rfl⟩
  · exact fun c hc => (hplain c hc).1

/-- No host is taken for a drive. -/
theorem HostText.isDriveLetter_eq_false (h : HostText special cs) : isDriveLetter cs = false := by
  unfold isDriveLetter
  split
  · next letter mark =>
    rcases h.bracketed_or with ⟨pieces, hcs⟩ | hplain
    · obtain ⟨rfl, -⟩ := List.cons.inj hcs
      rfl
    · obtain ⟨-, hcolon, -, hbar⟩ := hplain mark (by simp)
      simp [hcolon, hbar]
  · rfl

theorem HostText.ne_nil (h : HostText true cs) : cs ≠ [] := by
  cases h with
  | bracketed => exact List.cons_ne_nil _ _
  | address => exact writeVersion4_ne_nil _
  | domain _ _ hne => exact hne

/-! ## Where a host ends -/

/-- A host without colons and brackets ends at the colon of the port or at the end. -/
theorem hostSpan_of_plain (h : ∀ c ∈ cs, c ≠ ':' ∧ c ≠ '[') (hrest : ∀ c ∈ rest.head?, c = ':') :
    hostSpan false (cs ++ rest) = (cs, rest) := by
  induction cs with
  | nil =>
    rcases rest with _ | ⟨c, rest⟩
    · rfl
    · obtain rfl := hrest c rfl
      simp [hostSpan]
  | cons c r ih =>
    rw [List.forall_mem_cons] at h
    have hopen : (c == '[' || (false && c != ']')) = false := by simp [h.1.2]
    rw [List.cons_append, hostSpan, if_neg (by simp [h.1.1]), hopen, ih h.2]

/-- Within brackets a colon does not end the host. -/
theorem hostSpan_of_bracketed (h : ∀ c ∈ cs, c ≠ ']') (hrest : ∀ c ∈ rest.head?, c = ':') :
    hostSpan true (cs ++ ']' :: rest) = (cs ++ [']'], rest) := by
  induction cs with
  | nil =>
    have hnil : hostSpan false ([] ++ rest) = ([], rest) :=
      hostSpan_of_plain (List.forall_mem_nil _) hrest
    rw [List.nil_append] at hnil
    simp [hostSpan, hnil]
  | cons c r ih =>
    rw [List.forall_mem_cons] at h
    have hopen : (c == '[' || (true && c != ']')) = true := by simp [h.1]
    rw [List.cons_append, hostSpan, if_neg (by simp), hopen, ih h.2, List.cons_append]

/-- **A host ends where it was written to end**: at the port, or with the text. -/
theorem HostText.hostSpan_append (h : HostText special cs) (hrest : ∀ c ∈ rest.head?, c = ':') :
    hostSpan false (cs ++ rest) = (cs, rest) := by
  rcases h.bracketed_or with ⟨pieces, rfl⟩ | hplain
  · have hclose : ∀ c ∈ writeVersion6 pieces, c ≠ ']' :=
      forall_mem_writeVersion6 (by decide) (by decide) pieces
    have hspan := hostSpan_of_bracketed hclose hrest
    rw [List.append_assoc, List.singleton_append, List.cons_append, hostSpan, if_neg (by decide)]
    simp [hspan]
  · exact hostSpan_of_plain (fun c hc => ⟨(hplain c hc).2.1, (hplain c hc).2.2.1⟩) hrest

end Waybill.Url
