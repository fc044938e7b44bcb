import Mathlib.Data.List.Nodup
import Mathlib.Data.List.ProdSigma
import Waybill.Layered.Rows
import Waybill.Proofs.Authorities
import Waybill.Proofs.JobNames

/-!
# Rows of nodes

No node of a layered topology stands in two rows, or twice in one (`Shape.nodup_rows`): the two
numbers of a name are cut apart at the letter between them. So a node has one row, and what engines
offer is told by rows alone: the pairs are those of neighbouring rows (`mem_pairs_iff`), each once,
and of any draws the offers are some of them (`sublist_pairs`), of draws that never fail all
(`map_hop_offersFrom`).
-/

namespace Waybill.Layered

variable {s : Shape} {rows : List (List String)} {a b : List String} {x y : String} {i j : Nat}

/-! ## Names -/

/-- The name of a node spells the layer and the place in it, each behind a letter. -/
theorem toList_nodeName (i j : Nat) :
    (nodeName i j).toList = 'L' :: (Nat.toDigits 10 i ++ 'N' :: Nat.toDigits 10 j) := by
  simp [nodeName, toString]

theorem toDigits_inj (h : Nat.toDigits 10 i = Nat.toDigits 10 j) : i = j := by
  have hread := congrArg (Url.Address.readDigits? 10) h
  rw [Url.Address.readDigits?_toDigits (by decide) (by decide),
    Url.Address.readDigits?_toDigits (by decide) (by decide)] at hread
  exact Option.some.inj hread

/-- **A name tells the layer and the place.** -/
theorem nodeName_inj {i' j' : Nat} (h : nodeName i j = nodeName i' j') : i = i' ∧ j = j' := by
  have hcut := congrArg String.toList h
  rw [toList_nodeName, toList_nodeName] at hcut
  have hletter : ∀ n, 'N' ∉ Nat.toDigits 10 n := fun n =>
    Url.Address.notMem_toDigits (by decide) (by decide)
  rcases append_cons_inj_iff.1 (List.cons.inj hcut).2 with ⟨h, h'⟩ | ⟨m, h, -⟩ | ⟨m, h, -⟩
  · exact ⟨toDigits_inj h, toDigits_inj h'⟩
  · exact absurd (h ▸ List.mem_append_right _ List.mem_cons_self) (hletter i')
  · exact absurd (h ▸ List.mem_append_right _ List.mem_cons_self) (hletter i)

theorem mem_layer_iff {width : Nat} : x ∈ layer width i ↔ ∃ j < width, x = nodeName i j := by
  simp only [layer, List.mem_map, List.mem_range, eq_comm]

/-- A name that starts with another letter names no node of a layer. -/
theorem ne_nodeName (hfirst : x.toList.head? ≠ some 'L') (i j : Nat) : x ≠ nodeName i j := by
  rintro rfl
  rw [toList_nodeName] at hfirst
  exact hfirst rfl

/-! ## Rows -/

namespace Shape

/-- The rows between the source and the sink. -/
def middle (s : Shape) : List (List String) := (List.range s.layers).map (layer s.width)

theorem rows_eq (s : Shape) : s.rows = [source] :: s.middle ++ [[sink]] := rfl

theorem length_middle (s : Shape) : s.middle.length = s.layers := by
  rw [middle, List.length_map, List.length_range]

theorem forall_mem_middle {P : List String → Prop} (h : ∀ i, P (layer s.width i)) :
    ∀ row ∈ s.middle, P row := by
  intro row hrow
  obtain ⟨i, -, rfl⟩ := List.mem_map.1 hrow
  exact h i

theorem length_of_mem_middle : ∀ row ∈ s.middle, row.length = s.width :=
  forall_mem_middle fun i => by rw [layer, List.length_map, List.length_range]

theorem length_rows (s : Shape) : s.rows.length = s.layers + 2 := by
  simp [rows_eq, length_middle]

/-- There are two nodes besides those in the layers. -/
theorem length_flatten_rows (s : Shape) : s.rows.flatten.length = 2 + s.layers * s.width := by
  have hmiddle : s.middle.flatten.length = s.layers * s.width := by
    rw [List.length_flatten, List.map_congr_left length_of_mem_middle, List.map_const',
      List.sum_replicate_nat, length_middle]
  rw [rows_eq, List.flatten_append, List.flatten_cons]
  simp only [List.length_append, hmiddle, List.flatten_cons, List.flatten_nil, List.length_cons,
    List.length_nil]
  omega

/-- Source and sink are in no layer. -/
theorem notMem_flatten_middle (hfirst : x.toList.head? ≠ some 'L') : x ∉ s.middle.flatten := by
  intro hmem
  obtain ⟨row, hrow, hx⟩ := List.mem_flatten.1 hmem
  obtain ⟨i, -, rfl⟩ := List.mem_map.1 hrow
  obtain ⟨j, -, rfl⟩ := mem_layer_iff.1 hx
  exact ne_nodeName hfirst i j rfl

/-- No node is in two layers or in two places. -/
theorem nodup_middle (s : Shape) : s.middle.flatten.Nodup := by
  refine List.nodup_flatten.2 ⟨forall_mem_middle fun i => ?_, ?_⟩
  · exact List.nodup_range.map fun j j' h => (nodeName_inj h).2
  · refine List.Pairwise.map _ ?_ List.nodup_range
    intro i i' hne x hx hx'
    obtain ⟨j, -, rfl⟩ := mem_layer_iff.1 hx
    obtain ⟨j', -, h⟩ := mem_layer_iff.1 hx'
    exact hne (nodeName_inj h).1

/-- **No two nodes have one name.** -/
theorem nodup_rows (s : Shape) : s.rows.flatten.Nodup := by
  have hsource : source ∉ s.middle.flatten := notMem_flatten_middle (by decide)
  have hsink : sink ∉ s.middle.flatten := notMem_flatten_middle (by decide)
  have hne : source ≠ sink := by decide
  have hfront : (source :: s.middle.flatten).Nodup := List.nodup_cons.2 ⟨hsource, s.nodup_middle⟩
  have hlast : sink ∉ source :: s.middle.flatten := by simp [hne.symm, hsink]
  have hrows : s.rows.flatten = source :: s.middle.flatten ++ [sink] := by simp [rows_eq]
  rw [hrows, ← List.concat_eq_append]
  exact hfront.concat hlast

end Shape

/-- Where no name stands twice, a node has one row. -/
theorem row_unique (h : rows.flatten.Nodup) (ha : rows[i]? = some a) (hb : rows[j]? = some b)
    (hx : x ∈ a) (hx' : x ∈ b) : i = j := by
  obtain ⟨hi, rfl⟩ := List.getElem?_eq_some_iff.1 ha
  obtain ⟨hj, rfl⟩ := List.getElem?_eq_some_iff.1 hb
  have hdisjoint := List.pairwise_iff_getElem.1 (List.nodup_flatten.1 h).2
  rcases Nat.lt_trichotomy i j with hlt | heq | hlt
  · exact absurd hx' (hdisjoint i j hi hj hlt hx)
  · exact heq
  · exact absurd hx (hdisjoint j i hj hi hlt hx')

/-! ## Neighbouring rows -/

/-- A node stands in a row and another in the next one. -/
def Adjacent (rows : List (List String)) (x y : String) : Prop :=
  ∃ i a b, rows[i]? = some a ∧ rows[i + 1]? = some b ∧ x ∈ a ∧ y ∈ b

/-- Two nodes are adjacent in the first two rows or behind the first. -/
theorem adjacent_cons_cons : Adjacent (a :: b :: rows) x y ↔
    (x ∈ a ∧ y ∈ b) ∨ Adjacent (b :: rows) x y := by
  constructor
  · rintro ⟨_ | i, a', b', ha, hb, hx, hy⟩
    · cases ha
      cases hb
      exact .inl ⟨hx, hy⟩
    · exact .inr ⟨i, a', b', ha, hb, hx, hy⟩
  · rintro (⟨hx, hy⟩ | ⟨i, a', b', ha, hb, hx, hy⟩)
    · exact ⟨0, a, b, rfl, rfl, hx, hy⟩
    · exact ⟨i + 1, a', b', ha, hb, hx, hy⟩

theorem not_adjacent_of_length_lt (h : rows.length < 2) : ¬ Adjacent rows x y := by
  rintro ⟨i, a, b, -, hb, -⟩
  obtain ⟨hlt, -⟩ := List.getElem?_eq_some_iff.1 hb
  omega

theorem pairs_cons_cons (a b : List String) (rows : List (List String)) :
    pairs (a :: b :: rows) = a ×ˢ b ++ pairs (b :: rows) := rfl

/-- **The pairs are those of neighbouring rows.** -/
theorem mem_pairs_iff : (x, y) ∈ pairs rows ↔ Adjacent rows x y := by
  induction rows with
  | nil => exact iff_of_false List.not_mem_nil (not_adjacent_of_length_lt (by decide))
  | cons a rows ih =>
    rcases rows with _ | ⟨b, rows⟩
    · exact iff_of_false List.not_mem_nil (not_adjacent_of_length_lt (by simp))
    · rw [pairs_cons_cons, List.mem_append, List.mem_product, ih, adjacent_cons_cons]

theorem Adjacent.mem_flatten (h : Adjacent rows x y) : x ∈ rows.flatten ∧ y ∈ rows.flatten := by
  obtain ⟨i, a, b, ha, hb, hx, hy⟩ := h
  exact ⟨List.mem_flatten_of_mem (List.mem_of_getElem? ha) hx,
    List.mem_flatten_of_mem (List.mem_of_getElem? hb) hy⟩

/-- **No pair stands there twice.** -/
theorem nodup_pairs (h : rows.flatten.Nodup) : (pairs rows).Nodup := by
  induction rows with
  | nil => exact .nil
  | cons a rows ih =>
    rcases rows with _ | ⟨b, rows⟩
    · exact .nil
    · obtain ⟨ha, hrest, hdisjoint⟩ := List.nodup_append'.1 (List.flatten_cons ▸ h)
      have hb : b.Nodup := (List.nodup_flatten.1 hrest).1 b List.mem_cons_self
      rw [pairs_cons_cons]
      refine List.nodup_append'.2 ⟨ha.product hb, ih hrest, ?_⟩
      rintro ⟨x, y⟩ hxy hxy'
      exact hdisjoint (List.mem_product.1 hxy).1 (mem_pairs_iff.1 hxy').mem_flatten.1

/-- Where no row is empty and there are two at least, every node has a neighbour. -/
theorem exists_adjacent (hlength : 2 ≤ rows.length) (hne : ∀ row ∈ rows, row ≠ [])
    (hx : x ∈ rows.flatten) : ∃ y, Adjacent rows x y ∨ Adjacent rows y x := by
  obtain ⟨row, hrow, hx⟩ := List.mem_flatten.1 hx
  obtain ⟨i, hi, rfl⟩ := List.getElem_of_mem hrow
  by_cases hlast : i + 1 < rows.length
  · obtain ⟨y, hy⟩ := List.exists_mem_of_ne_nil _ (hne _ (List.getElem_mem hlast))
    exact ⟨y, .inl ⟨i, _, _, List.getElem?_eq_getElem hi, List.getElem?_eq_getElem hlast, hx, hy⟩⟩
  · -- the last row has a row before it
    obtain ⟨k, rfl⟩ : ∃ k, i = k + 1 := ⟨i - 1, by omega⟩
    have hk : k < rows.length := by omega
    obtain ⟨y, hy⟩ := List.exists_mem_of_ne_nil _ (hne _ (List.getElem_mem hk))
    exact ⟨y, .inr ⟨k, _, _, List.getElem?_eq_getElem hk, List.getElem?_eq_getElem hi, hy, hx⟩⟩

/-! ## How many pairs there are -/

/-- Between rows of one width. -/
theorem length_pairs_append {width : Nat} {last : List String}
    (hrows : ∀ row ∈ rows, row.length = width) (hne : rows ≠ []) (a : List String) :
    (pairs (a :: rows ++ [last])).length =
      a.length * width + (rows.length - 1) * width ^ 2 + width * last.length := by
  induction rows generalizing a with
  | nil => exact absurd rfl hne
  | cons b rows ih =>
    obtain ⟨hb, hrest⟩ := List.forall_mem_cons.1 hrows
    rw [List.cons_append, List.cons_append, pairs_cons_cons, List.length_append,
      List.length_product, hb]
    rcases rows with _ | ⟨c, rows⟩
    · simp [pairs, hb]
    · -- one row more joins two rows of that width
      have hstep := ih hrest (List.cons_ne_nil c rows) b
      rw [List.cons_append] at hstep
      rw [hstep, hb]
      simp only [List.length_cons, Nat.add_sub_cancel]
      ring

namespace Shape

/-- How many pairs there are between neighbouring rows. -/
def pairCount (s : Shape) : Nat :=
  if s.layers = 0 then 1 else 2 * s.width + (s.layers - 1) * s.width ^ 2

/-- There are as many pairs as the shape counts. -/
theorem length_pairs (s : Shape) : (pairs s.rows).length = s.pairCount := by
  unfold pairCount
  split
  · next hnone =>
    have hmiddle : s.middle = [] := by simp [middle, hnone]
    rw [rows_eq, hmiddle]
    rfl
  · next hsome =>
    have hne : s.middle ≠ [] := by
      rw [← List.length_pos_iff, length_middle]
      omega
    rw [rows_eq, length_pairs_append length_of_mem_middle hne, length_middle]
    simp only [List.length_singleton]
    ring

end Shape

/-! ## Offers -/

/-- The pair that an entry offers. -/
def hop (o : OfferEntry) : String × String := (o.source, o.target)

variable {draws : Draws} {l : List (String × String)}

/-- **What is offered are some of the pairs, in their order.** -/
theorem sublist_pairs (draws : Draws) (i : Nat) (l : List (String × String)) :
    ((offersFrom draws i l).map hop).Sublist l := by
  induction l generalizing i with
  | nil => exact .slnil
  | cons pair l ih =>
    rw [offersFrom]
    split
    · exact (ih _).cons _
    · exact (ih _).cons_cons _

/-- **What draws that never fail offer are all pairs.** -/
theorem map_hop_offersFrom (h : ∀ i, (draws i).isSome) (i : Nat) :
    (offersFrom draws i l).map hop = l := by
  induction l generalizing i with
  | nil => rfl
  | cons pair l ih =>
    obtain ⟨weight, hweight⟩ := Option.isSome_iff_exists.1 (h i)
    rw [offersFrom, hweight, List.map_cons, ih]
    rfl

/-- Every offer has a weight that was drawn and no properties. -/
theorem exists_weight_of_mem {o : OfferEntry} (ho : o ∈ offersFrom draws i l) :
    ∃ weight : Tenths, o.weight = some weight.toFloat ∧ o.properties = .empty := by
  induction l generalizing i with
  | nil => cases ho
  | cons pair l ih =>
    rw [offersFrom] at ho
    split at ho
    · exact ih ho
    · next weight _ =>
      rcases List.mem_cons.1 ho with rfl | ho
      · exact ⟨weight, rfl, rfl⟩
      · exact ih ho

end Waybill.Layered
