import Mathlib.Algebra.Group.Nat.Defs
import Mathlib.Data.List.Induction
import Waybill.Proofs.Encoding
import Waybill.Proofs.Results
import Waybill.Url.Host

/-!
# Numeric hosts read back

An address is written in one way only, and what is written is read as this address: four decimal
parts as a number of four bytes (`readVersion4?_writeVersion4`), pieces in hexadecimal as eight
numbers of sixteen bits, wherever zeros were left out (`readVersion6?_writeVersion6`). Nothing else
is ever read (`lt_of_readVersion4?`, `isVersion6_of_readVersion6?`). Both ways rest on this, that
the digits of a number are read as the number (`readDigits?_toDigits`), and that no digit is a mark
at which parts are cut.
-/

namespace Waybill.Url.Address

open Percent

variable {base n address : Nat} {c : Char} {cs : List Char} {leading pieces : List Nat}

/-! ## Digits -/

/-- One more digit at the end counts once, and what stands before it counts the base. -/
theorem readDigits?_concat (base : Nat) (cs : List Char) (c : Char) :
    readDigits? base (cs ++ [c]) = (readDigits? base cs).bind fun n =>
      (hexValue? c).bind fun d => if d < base then some (base * n + d) else none := by
  simp only [readDigits?, List.foldl_append, List.foldl_cons, List.foldl_nil]
  rfl

/-- **The digits of a number are read as the number.** -/
theorem readDigits?_toDigits (hbase : 1 < base) (hbase' : base ≤ 16) (n : Nat) :
    readDigits? base (Nat.toDigits base n) = some n := by
  induction n using Nat.strongRecOn with
  | ind n ih =>
    rw [Nat.toDigits_eq_if hbase]
    split
    · next hlt =>
      rw [← List.nil_append [_], readDigits?_concat, hexValue?_digitChar (by omega)]
      simp [readDigits?, hlt]
    · next hge =>
      have hdigit : n % base < base := Nat.mod_lt n (by omega)
      rw [readDigits?_concat, ih (n / base) (Nat.div_lt_self (by omega) hbase),
        hexValue?_digitChar (by omega)]
      simp [hdigit, Nat.div_add_mod]

/-- So many digits make no greater number. -/
theorem lt_of_readDigits? (h : readDigits? base cs = some n) : n < base ^ cs.length := by
  induction cs using List.reverseRecOn generalizing n with
  | nil =>
    cases h
    exact Nat.one_pos
  | append_singleton cs c ih =>
    rw [readDigits?_concat] at h
    obtain ⟨m, hm, h⟩ := Option.bind_eq_some_iff.1 h
    obtain ⟨d, -, h⟩ := Option.bind_eq_some_iff.1 h
    split at h
    · next hd =>
      cases h
      rw [List.length_append, List.length_singleton, Nat.pow_succ]
      calc base * m + d < base * m + base := by omega
        _ = (m + 1) * base := by rw [Nat.add_mul, Nat.mul_comm, Nat.one_mul]
        _ ≤ base ^ cs.length * base := Nat.mul_le_mul_right base (ih hm)
    · cases h

/-- A number is written in the digits of its base. -/
theorem exists_digitChar_of_mem (hbase : 1 < base) (h : c ∈ Nat.toDigits base n) :
    ∃ d < base, c = Nat.digitChar d := by
  induction n using Nat.strongRecOn with
  | ind n ih =>
    rw [Nat.toDigits_eq_if hbase] at h
    split at h
    · next hlt => exact ⟨n, hlt, List.mem_singleton.1 h⟩
    · next hge =>
      rcases List.mem_append.1 h with h | h
      · exact ih (n / base) (Nat.div_lt_self (by omega) hbase) h
      · exact ⟨n % base, Nat.mod_lt n (by omega), List.mem_singleton.1 h⟩

/-- What holds of every digit holds of every character of a number. -/
theorem forall_mem_toDigits {P : Char → Prop} (hbase : 1 < base)
    (h : ∀ d < base, P (Nat.digitChar d)) : ∀ c ∈ Nat.toDigits base n, P c := by
  intro c hc
  obtain ⟨d, hd, rfl⟩ := exists_digitChar_of_mem hbase hc
  exact h d hd

theorem notMem_toDigits (hbase : 1 < base) (h : ∀ d < base, Nat.digitChar d ≠ c) :
    c ∉ Nat.toDigits base n :=
  fun hmem => forall_mem_toDigits (P := (· ≠ c)) hbase h c hmem rfl

/-- A number other than zero is written without a zero in front. -/
theorem head?_toDigits (hbase : 1 < base) (hn : n ≠ 0) :
    (Nat.toDigits base n).head? ≠ some '0' := by
  induction n using Nat.strongRecOn with
  | ind n ih =>
    rw [Nat.toDigits_eq_if hbase]
    split
    · simp [hn]
    · next hge =>
      have hrest : n / base ≠ 0 := Nat.div_ne_zero_iff.2 ⟨by omega, by omega⟩
      have hhead := ih (n / base) (Nat.div_lt_self (by omega) hbase) hrest
      rwa [List.head?_append, Option.or_of_isSome (by simp [Nat.toDigits_ne_nil])]

/-! ## Version 4 -/

/-- A part is read in decimal unless it starts with a zero that is not all of it. -/
theorem readPart?_eq (hne : cs ≠ []) (h : cs.head? = some '0' → cs.length = 1) :
    readPart? cs = readDigits? 10 cs := by
  unfold readPart?
  split
  all_goals simp_all

theorem readPart?_toDigits (n : Nat) : readPart? (Nat.toDigits 10 n) = some n := by
  rw [readPart?_eq Nat.toDigits_ne_nil, readDigits?_toDigits (by decide) (by decide)]
  intro hhead
  by_cases hn : n = 0
  · rw [hn, Nat.toDigits_zero]
    rfl
  · exact absurd hhead (head?_toDigits (by decide) hn)

/-- The four bytes of an address, the highest first. -/
def bytes (address : Nat) : List Nat :=
  [address / 256 ^ 3 % 256, address / 256 ^ 2 % 256, address / 256 % 256, address % 256]

/-- An address of version 4 is four numbers with dots between them. -/
theorem writeVersion4_eq (address : Nat) :
    writeVersion4 address = ['.'].intercalate ((bytes address).map (Nat.toDigits 10)) := by
  simp [writeVersion4, bytes, List.intercalate]

/-- What holds of the point and of every decimal digit holds throughout an address. -/
theorem forall_mem_writeVersion4 {P : Char → Prop} (hpoint : P '.')
    (h : ∀ d < 10, P (Nat.digitChar d)) (address : Nat) : ∀ c ∈ writeVersion4 address, P c := by
  have hdigits : ∀ n, ∀ c ∈ Nat.toDigits 10 n, P c := fun n => forall_mem_toDigits (by decide) h
  unfold writeVersion4
  simp only [List.forall_mem_append, List.forall_mem_cons]
  refine ⟨⟨⟨hdigits _, hpoint, hdigits _⟩, hpoint, hdigits _⟩, hpoint, hdigits _⟩

/-- It is cut at the dots into just these. -/
theorem dottedParts_writeVersion4 (address : Nat) :
    dottedParts (writeVersion4 address) = (bytes address).map (Nat.toDigits 10) := by
  have hsplit : (writeVersion4 address).splitOn '.' = (bytes address).map (Nat.toDigits 10) := by
    rw [writeVersion4_eq]
    refine List.splitOn_intercalate '.' (fun ds hds => ?_) (by simp [bytes])
    obtain ⟨n, -, rfl⟩ := List.mem_map.1 hds
    exact notMem_toDigits (by decide) (by decide)
  unfold dottedParts
  rw [hsplit]
  simp [bytes, Nat.toDigits_ne_nil]

/-- Its last part is a number, so that it is not taken for a name. -/
theorem endsInNumber_writeVersion4 (address : Nat) :
    endsInNumber (writeVersion4 address) = true := by
  have hdigits : ∀ n, (Nat.toDigits 10 n).all Char.isDigit = true := fun n =>
    List.all_eq_true.2 fun c hc => Nat.isDigit_of_mem_toDigits (by decide) (by decide) hc
  unfold endsInNumber
  rw [dottedParts_writeVersion4]
  simp only [bytes, List.map_cons, List.map_nil, List.getLast?_cons_cons, List.getLast?_singleton]
  simp [hdigits, Nat.toDigits_ne_nil]

/-- The number that leading bytes make with the one that fills the rest. -/
def total (leading : List Nat) (last : Nat) : Nat :=
  leading.zipIdx.foldl (fun sum (n, i) => sum + n * Nat.pow 256 (3 - i)) last

/-- An address is made of at most three bytes and a number that fills the rest. -/
theorem readVersion4?_eq_some_iff : readVersion4? cs = some address ↔
    (dottedParts cs).length ≤ 4 ∧ ∃ leading last,
      (dottedParts cs).mapM readPart? = some (leading ++ [last]) ∧ (∀ n ∈ leading, n ≤ 255) ∧
      last < 256 ^ (4 - leading.length) ∧ total leading last = address := by
  unfold readVersion4?
  dsimp only
  rw [guard_bind_eq_some_iff]
  refine and_congr_right fun _ => ?_
  constructor
  · intro h
    obtain ⟨numbers, hnumbers, h⟩ := Option.bind_eq_some_iff.1 h
    obtain ⟨last, hlast, h⟩ := Option.bind_eq_some_iff.1 h
    obtain ⟨leading, rfl⟩ := List.getLast?_eq_some_iff.1 hlast
    rw [List.dropLast_concat] at h
    obtain ⟨⟨hleading, hbound⟩, h⟩ := guard_bind_eq_some_iff.1 h
    exact ⟨leading, last, hnumbers, by simpa using hleading, hbound, Option.some.inj h⟩
  · rintro ⟨leading, last, hnumbers, hleading, hbound, rfl⟩
    refine Option.bind_eq_some_iff.2 ⟨_, hnumbers, Option.bind_eq_some_iff.2
      ⟨last, List.getLast?_concat, ?_⟩⟩
    rw [List.dropLast_concat]
    exact guard_bind_eq_some_iff.2 ⟨⟨by simpa using hleading, hbound⟩, rfl⟩

/-- **An address of version 4 is read as it was written.** -/
theorem readVersion4?_writeVersion4 (h : address < 256 ^ 4) :
    readVersion4? (writeVersion4 address) = some address := by
  have hparts : ((bytes address).map (Nat.toDigits 10)).mapM readPart? = some (bytes address) := by
    simp [bytes, readPart?_toDigits]
  rw [readVersion4?_eq_some_iff, dottedParts_writeVersion4]
  refine ⟨by simp [bytes], (bytes address).dropLast, address % 256, hparts, ?_, ?_, ?_⟩
  · simp only [bytes, List.dropLast_cons_cons, List.forall_mem_cons, List.dropLast_singleton]
    refine ⟨?_, ?_, ?_, List.forall_mem_nil _⟩ <;> omega
  · exact Nat.mod_lt address (by decide)
  · simp [bytes, total]
    omega

/-- Bytes make less than one of the place before them. -/
theorem total_add_le (h : ∀ n ∈ leading, n ≤ 255) (last : Nat) {k : Nat}
    (hlength : k + leading.length ≤ 4) :
    (leading.zipIdx k).foldl (fun sum (n, i) => sum + n * Nat.pow 256 (3 - i)) last +
      256 ^ (4 - (k + leading.length)) ≤ last + 256 ^ (4 - k) := by
  induction leading generalizing last k with
  | nil => simp
  | cons n rest ih =>
    rw [List.forall_mem_cons] at h
    rw [List.length_cons] at hlength ⊢
    have hk : 4 - k = 3 - k + 1 := by omega
    have hplace : n * 256 ^ (3 - k) + 256 ^ (3 - k) ≤ 256 ^ (4 - k) := by
      rw [hk, Nat.pow_succ, Nat.mul_comm _ 256, ← Nat.succ_mul]
      exact Nat.mul_le_mul_right _ (by omega)
    have hnext : 4 - (k + 1) = 3 - k := by omega
    have hend : 4 - (k + 1 + rest.length) = 4 - (k + (rest.length + 1)) := by omega
    have hrest := ih h.2 (last + n * 256 ^ (3 - k)) (k := k + 1) (by omega)
    rw [hnext, hend] at hrest
    rw [List.zipIdx_cons, List.foldl_cons]
    calc _ ≤ last + n * 256 ^ (3 - k) + 256 ^ (3 - k) := hrest
      _ ≤ last + 256 ^ (4 - k) := by
        rw [Nat.add_assoc]
        exact Nat.add_le_add_left hplace last

/-- An address that was read fits into four bytes. -/
theorem lt_of_readVersion4? (h : readVersion4? cs = some address) : address < 256 ^ 4 := by
  obtain ⟨hparts, leading, last, hnumbers, hleading, hlast, rfl⟩ := readVersion4?_eq_some_iff.1 h
  have hcount := (forall₂_of_mapM_eq_some hnumbers).length_eq
  rw [List.length_append, List.length_singleton] at hcount
  have hsum := total_add_le hleading last (k := 0) (by omega)
  rw [Nat.zero_add, Nat.sub_zero] at hsum
  unfold total
  omega

/-! ## Pieces of version 6 -/

/-- The eight pieces of an address of version 6. -/
structure IsVersion6 (pieces : List Nat) : Prop where
  length : pieces.length = 8
  lt : ∀ p ∈ pieces, p < 65536

theorem notMem_toDigits_colon (n : Nat) : ':' ∉ Nat.toDigits 16 n :=
  notMem_toDigits (by decide) (by decide)

/-- A piece is read as the number it was written for, having four digits at most. -/
theorem readPiece?_toDigits (h : n < 65536) : readPiece? (Nat.toDigits 16 n) = some n := by
  have hlength : (Nat.toDigits 16 n).length ≤ 4 :=
    (Nat.length_toDigits_le_iff (by decide) (by decide)).2 h
  rw [readPiece?, if_neg, readDigits?_toDigits (by decide) (by decide)]
  rintro (hnil | hlong)
  · exact Nat.toDigits_ne_nil hnil
  · omega

theorem readPieces?_map_toDigits (tail : Bool) (h : ∀ p ∈ pieces, p < 65536) :
    readPieces? tail (pieces.map (Nat.toDigits 16)) = some pieces := by
  induction pieces with
  | nil => rfl
  | cons p rest ih =>
    rw [List.forall_mem_cons] at h
    rcases rest with _ | ⟨q, rest⟩
    · have hpoint : '.' ∉ Nat.toDigits 16 p := notMem_toDigits (by decide) (by decide)
      simp [readPieces?, readPiece?_toDigits h.1, hpoint]
    · rw [List.map_cons, List.map_cons, readPieces?, readPiece?_toDigits h.1, ← List.map_cons,
        ih h.2]
      · rfl
      · simp

theorem splitOn_writePieces (h : pieces ≠ []) :
    (writePieces pieces).splitOn ':' = pieces.map (Nat.toDigits 16) := by
  refine List.splitOn_intercalate ':' (fun ds hds => ?_) (by simpa using h)
  obtain ⟨n, -, rfl⟩ := List.mem_map.1 hds
  exact notMem_toDigits_colon n

theorem writePieces_singleton (p : Nat) : writePieces [p] = Nat.toDigits 16 p := by
  simp [writePieces, List.intercalate]

theorem writePieces_cons_cons (p q : Nat) (rest : List Nat) :
    writePieces (p :: q :: rest) = Nat.toDigits 16 p ++ ':' :: writePieces (q :: rest) := by
  simp [writePieces, List.intercalate]

/-- Pieces start with a digit. -/
theorem exists_writePieces_eq_cons (p : Nat) (rest : List Nat) :
    ∃ c cs, writePieces (p :: rest) = c :: cs ∧ c ≠ ':' := by
  obtain ⟨c, cs, hcs⟩ := List.exists_cons_of_ne_nil (Nat.toDigits_ne_nil (b := 16) (n := p))
  have hc : c ≠ ':' := by
    rintro rfl
    exact notMem_toDigits_colon p (hcs ▸ List.mem_cons_self)
  rcases rest with _ | ⟨q, rest⟩
  · exact ⟨c, cs, by rw [writePieces_singleton, hcs], hc⟩
  · exact ⟨c, cs ++ ':' :: writePieces (q :: rest), by rw [writePieces_cons_cons, hcs]; rfl, hc⟩

/-- One side of an address is read as the pieces it was written for. -/
theorem readSide?_writePieces (tail : Bool) (h : ∀ p ∈ pieces, p < 65536) :
    readSide? tail (writePieces pieces) = some pieces := by
  rcases pieces with _ | ⟨p, rest⟩
  · rfl
  · obtain ⟨c, cs, hcs, -⟩ := exists_writePieces_eq_cons p rest
    rw [readSide?, if_neg (by simp [hcs]), splitOn_writePieces (by simp),
      readPieces?_map_toDigits tail h]

/-! ## The double colon -/

/-- A double colon is looked for behind what has no colon. -/
theorem cutAtDoubleColon?_append (h : ':' ∉ cs) (ds : List Char) :
    cutAtDoubleColon? (cs ++ ds) =
      (cutAtDoubleColon? ds).map fun (before, after) => (cs ++ before, after) := by
  induction cs with
  | nil => simp
  | cons c cs ih =>
    rw [List.mem_cons, not_or] at h
    rw [List.cons_append, cutAtDoubleColon?, ih h.2, Option.map_map]
    · rfl
    · rintro r rfl
      exact absurd rfl h.1

/-- A colon before another character is a single one. -/
theorem cutAtDoubleColon?_colon (h : c ≠ ':') (cs : List Char) :
    cutAtDoubleColon? (':' :: c :: cs) =
      (cutAtDoubleColon? (c :: cs)).map fun (before, after) => (':' :: before, after) := by
  rw [cutAtDoubleColon?]
  intro r _ heq
  exact h (List.cons.inj heq).1

/-- **Pieces have no double colon between them**, so a text is not cut before they end. -/
theorem cutAtDoubleColon?_writePieces (pieces : List Nat) (ds : List Char) :
    cutAtDoubleColon? (writePieces pieces ++ ds) =
      (cutAtDoubleColon? ds).map fun (before, after) => (writePieces pieces ++ before, after) := by
  induction pieces with
  | nil => simp [writePieces, List.intercalate]
  | cons p rest ih =>
    rcases rest with _ | ⟨q, rest⟩
    · rw [writePieces_singleton, cutAtDoubleColon?_append (notMem_toDigits_colon p)]
    · obtain ⟨c, cs, hcs, hc⟩ := exists_writePieces_eq_cons q rest
      rw [writePieces_cons_cons, List.append_assoc,
        cutAtDoubleColon?_append (notMem_toDigits_colon p), List.cons_append, hcs, List.cons_append,
        cutAtDoubleColon?_colon hc, ← List.cons_append, ← hcs, ih, Option.map_map, Option.map_map]
      congr 1
      funext ⟨before, after⟩
      simp

/-! ## Zeros left out -/

/-- What counts as leading zeros is zeros. -/
theorem take_leadingZeros (pieces : List Nat) :
    pieces.take (leadingZeros pieces) = List.replicate (leadingZeros pieces) 0 := by
  induction pieces with
  | nil => rfl
  | cons p rest ih =>
    rcases Nat.eq_zero_or_pos p with rfl | hp
    · have hcount : leadingZeros (0 :: rest) = leadingZeros rest + 1 := by simp [leadingZeros]
      rw [hcount, List.take_succ_cons, List.replicate_succ, ih]
    · have hcount : leadingZeros (p :: rest) = 0 := by
        have hne : (p == 0) = false := beq_false_of_ne (Nat.ne_of_gt hp)
        simp [leadingZeros, hne]
      rw [hcount]
      rfl

/-- **What is left out of an address are zeros.** -/
theorem longestZeros_spec (pieces : List Nat) :
    pieces = pieces.take (longestZeros pieces).1 ++ List.replicate (longestZeros pieces).2 0 ++
      pieces.drop ((longestZeros pieces).1 + (longestZeros pieces).2) := by
  induction pieces with
  | nil => rfl
  | cons p rest ih =>
    unfold longestZeros
    dsimp only
    split
    · rw [List.take_zero, List.nil_append, Nat.zero_add, ← take_leadingZeros, List.take_append_drop]
    · rw [List.take_succ_cons, Nat.add_right_comm, List.drop_succ_cons, List.cons_append,
        List.cons_append, ← ih]

/-- What holds of the colon and of every hexadecimal digit holds throughout an address. -/
theorem forall_mem_writeVersion6 {P : Char → Prop} (hcolon : P ':')
    (h : ∀ d < 16, P (Nat.digitChar d)) (pieces : List Nat) : ∀ c ∈ writeVersion6 pieces, P c := by
  have hdigits : ∀ n, ∀ c ∈ Nat.toDigits 16 n, P c := fun n => forall_mem_toDigits (by decide) h
  have hpieces : ∀ pieces, ∀ c ∈ writePieces pieces, P c := by
    intro pieces
    induction pieces with
    | nil => simp [writePieces, List.intercalate]
    | cons p rest ih =>
      rcases rest with _ | ⟨q, rest⟩
      · rw [writePieces_singleton]
        exact hdigits p
      · rw [writePieces_cons_cons, List.forall_mem_append, List.forall_mem_cons]
        exact ⟨hdigits p, hcolon, ih⟩
  unfold writeVersion6
  dsimp only
  split
  · exact hpieces _
  · simp only [List.forall_mem_append, List.forall_mem_cons]
    exact ⟨hpieces _, hcolon, hcolon, hpieces _⟩

/-- All eight pieces are read as they are. -/
theorem readVersion6?_writePieces (h : IsVersion6 pieces) :
    readVersion6? (writePieces pieces) = some pieces := by
  have hlength := h.length
  have hcut := cutAtDoubleColon?_writePieces pieces []
  rw [List.append_nil] at hcut
  have hne : pieces ≠ [] := by
    rintro rfl
    cases hlength
  unfold readVersion6?
  rw [hcut]
  dsimp only [cutAtDoubleColon?, Option.map_none]
  rw [splitOn_writePieces hne, readPieces?_map_toDigits true h.lt]
  exact guard_bind_eq_some_iff.2 ⟨hlength, rfl⟩

/-- The pieces around a double colon are read with the zeros that it stands for. -/
theorem readVersion6?_doubleColon {front back : List Nat} (hfront : ∀ p ∈ front, p < 65536)
    (hback : ∀ p ∈ back, p < 65536) (hlength : front.length + back.length ≤ 7) :
    readVersion6? (writePieces front ++ ':' :: ':' :: writePieces back) =
      some (front ++ List.replicate (8 - front.length - back.length) 0 ++ back) := by
  have hcut : cutAtDoubleColon? (writePieces front ++ ':' :: ':' :: writePieces back) =
      some (writePieces front, writePieces back) := by
    simp [cutAtDoubleColon?_writePieces, cutAtDoubleColon?]
  unfold readVersion6?
  rw [hcut]
  dsimp only
  rw [readSide?_writePieces false hfront, readSide?_writePieces true hback]
  exact guard_bind_eq_some_iff.2 ⟨hlength, rfl⟩

/-- **An address of version 6 is read as it was written**, wherever zeros were left out. -/
theorem readVersion6?_writeVersion6 (h : IsVersion6 pieces) :
    readVersion6? (writeVersion6 pieces) = some pieces := by
  have hwhole := longestZeros_spec pieces
  unfold writeVersion6
  split
  next start length hlongest =>
  rw [hlongest] at hwhole
  dsimp only at hwhole
  split
  · exact readVersion6?_writePieces h
  · have hcount := congrArg List.length hwhole
    simp only [List.length_append, List.length_take, List.length_replicate, List.length_drop,
      h.length] at hcount
    rw [readVersion6?_doubleColon (fun p hp => h.lt p (List.mem_of_mem_take hp))
      (fun p hp => h.lt p (List.mem_of_mem_drop hp))]
    · have hzeros : 8 - (pieces.take start).length - (pieces.drop (start + length)).length =
          length := by
        rw [List.length_take, List.length_drop, h.length]
        omega
      rw [hzeros]
      exact congrArg some hwhole.symm
    · rw [List.length_take, List.length_drop, h.length]
      omega

/-! ## Nothing but addresses is read -/

/-- A piece fits sixteen bits. -/
theorem lt_of_readPiece? (h : readPiece? cs = some n) : n < 65536 := by
  unfold readPiece? at h
  split at h
  · cases h
  · next hshort =>
    have hlength : cs.length ≤ 4 := by
      rw [not_or] at hshort
      omega
    calc n < 16 ^ cs.length := lt_of_readDigits? h
      _ ≤ 16 ^ 4 := Nat.pow_le_pow_right (by decide) hlength

theorem le_of_readByte? (h : readByte? cs = some n) : n ≤ 255 := by
  unfold readByte? at h
  obtain ⟨-, h⟩ := guard_bind_eq_some_iff.1 h
  obtain ⟨m, -, h⟩ := Option.bind_eq_some_iff.1 h
  obtain ⟨hm, h⟩ := guard_bind_eq_some_iff.1 h
  cases h
  exact hm

theorem lt_of_readTail? (h : readTail? cs = some pieces) : ∀ p ∈ pieces, p < 65536 := by
  unfold readTail? at h
  split at h
  · next a b c d hbytes =>
    cases h
    have hle : ∀ n ∈ [a, b, c, d], n ≤ 255 := fun n hn => by
      obtain ⟨part, hpart⟩ := exists_of_mapM_eq_some hbytes n hn
      exact le_of_readByte? hpart
    simp only [List.forall_mem_cons] at hle ⊢
    refine ⟨?_, ?_, List.forall_mem_nil _⟩ <;> omega
  · cases h

theorem lt_of_readPieces? {tail : Bool} {parts : List (List Char)}
    (h : readPieces? tail parts = some pieces) : ∀ p ∈ pieces, p < 65536 := by
  induction parts using readPieces?.induct tail generalizing pieces with
  | case1 =>
    cases h
    exact List.forall_mem_nil _
  | case2 last htail =>
    rw [readPieces?, if_pos htail] at h
    exact lt_of_readTail? h
  | case3 last htail =>
    rw [readPieces?, if_neg htail] at h
    obtain ⟨n, hn, rfl⟩ := Option.map_eq_some_iff.1 h
    exact List.forall_mem_singleton.2 (lt_of_readPiece? hn)
  | case4 piece rest hne ih =>
    rw [readPieces?.eq_3 _ _ _ hne] at h
    obtain ⟨n, hn, h⟩ := Option.bind_eq_some_iff.1 h
    obtain ⟨ns, hns, h⟩ := Option.bind_eq_some_iff.1 h
    cases h
    exact List.forall_mem_cons.2 ⟨lt_of_readPiece? hn, ih hns⟩

theorem lt_of_readSide? {tail : Bool} (h : readSide? tail cs = some pieces) :
    ∀ p ∈ pieces, p < 65536 := by
  unfold readSide? at h
  split at h
  · cases h
    exact List.forall_mem_nil _
  · exact lt_of_readPieces? h

/-- **What is read of an address of version 6 are eight pieces of sixteen bits.** -/
theorem isVersion6_of_readVersion6? (h : readVersion6? cs = some pieces) : IsVersion6 pieces := by
  unfold readVersion6? at h
  split at h
  · obtain ⟨ps, hps, h⟩ := Option.bind_eq_some_iff.1 h
    obtain ⟨hlength, h⟩ := guard_bind_eq_some_iff.1 h
    cases h
    exact ⟨hlength, lt_of_readPieces? hps⟩
  · next before after _ =>
    obtain ⟨front, hfront, h⟩ := Option.bind_eq_some_iff.1 h
    obtain ⟨back, hback, h⟩ := Option.bind_eq_some_iff.1 h
    obtain ⟨hlength, h⟩ := guard_bind_eq_some_iff.1 h
    cases h
    constructor
    case length =>
      simp only [List.length_append, List.length_replicate]
      omega
    case lt =>
      simp only [List.forall_mem_append]
      refine ⟨⟨lt_of_readSide? hfront, fun p hp => ?_⟩, lt_of_readSide? hback⟩
      rw [(List.mem_replicate.1 hp).2]
      decide

end Waybill.Url.Address
