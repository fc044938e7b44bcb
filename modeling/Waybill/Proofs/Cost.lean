import Waybill.Proofs.Magnitude
import Waybill.Proofs.Walk
import Waybill.Route.Basic

/-!
# The laws of costs

Costs are compared by their magnitudes and added by them, so that they have the
laws a search relies on (`magnitude_add_le`). A sum of weights is a cost whatever the sign of
the zero it starts from (`total_le_total`), and the weight that stands before others in
the total order costs no more than they (`cost_le_of_not_lighter`).
-/

namespace Waybill

open Float.Model.UnpackedFloat Rounding

namespace Cost

variable {a b : Cost}

/-- How many times the least positive number a cost is. -/
def magnitude (c : Cost) : Nat := Waybill.magnitude c.value.toModel.unpack

theorem stands (c : Cost) : Stands c.value.toModel.unpack c.magnitude :=
  stands_unpack (zero_le_iff_isNonneg.1 c.valid)

/-- Costs are compared like their magnitudes. -/
theorem le_iff_magnitude : a ≤ b ↔ a.magnitude ≤ b.magnitude := by
  show a.value ≤ b.value ↔ _
  rw [le_iff_compare, a.stands.compare_eq b.stands]
  simp only [Option.any_some, Nat.isLE_compare]

theorem lt_iff_magnitude : a < b ↔ a.magnitude < b.magnitude := by
  show a.value < b.value ↔ _
  rw [lt_iff_compare, a.stands.compare_eq b.stands, Option.some.injEq, Nat.compare_eq_lt]

/-- The magnitude of a sum is the sum of the magnitudes, rounded and cut off at infinity.
-/
theorem magnitude_add (a b : Cost) :
    (a + b).magnitude = min (rounded (a.magnitude + b.magnitude)) ceiling :=
  a.stands.magnitude_add b.stands

/-- What is kept in the format need not be rounded to it. -/
theorem min_rounded_magnitude (a : Cost) : min (rounded a.magnitude) ceiling = a.magnitude := by
  rw [a.stands.rounded_eq]
  exact Nat.min_eq_left a.stands.le_ceiling

/-- Sums keep the order of their terms, although they are rounded. -/
theorem magnitude_add_le {a b a' b' : Cost} (ha : a.magnitude ≤ a'.magnitude)
    (hb : b.magnitude ≤ b'.magnitude) : (a + b).magnitude ≤ (a' + b').magnitude := by
  rw [magnitude_add, magnitude_add]
  have := rounded_mono (Nat.add_le_add ha hb)
  omega

/-- **Costs have the laws of a search**: rounding and cutting off keep order. -/
instance : Route.LawfulCost Cost where
  le_refl a := le_iff_magnitude.2 (Nat.le_refl _)
  le_trans a b c hab hbc :=
    le_iff_magnitude.2 (Nat.le_trans (le_iff_magnitude.1 hab) (le_iff_magnitude.1 hbc))
  le_total a b := by
    rw [le_iff_magnitude, le_iff_magnitude]
    exact Nat.le_total _ _
  lt_iff a b := by
    rw [lt_iff_magnitude, le_iff_magnitude, le_iff_magnitude]
    omega
  le_add_right a w := by
    rw [le_iff_magnitude, magnitude_add]
    have := rounded_mono (Nat.le_add_right a.magnitude w.magnitude)
    have := a.min_rounded_magnitude
    omega
  add_le_add_right h w := by
    rw [le_iff_magnitude] at h ⊢
    exact magnitude_add_le h (Nat.le_refl _)
  add_le_add_left h a := by
    rw [le_iff_magnitude] at h ⊢
    exact magnitude_add_le (Nat.le_refl _) h

/-! ## Sums of weights -/

/-- The zero that sums of weights start from. -/
def negativeZero : Cost := ⟨-0.0, by decide⟩

theorem zero_le_negativeZero : zero ≤ negativeZero := by decide

theorem negativeZero_le_zero : negativeZero ≤ zero := by decide

end Cost

namespace Weight

open Route

variable {V V' : Type}

/-- The sum of the weights of some steps is what the steps cost. -/
theorem total_eq_costAlong (steps : List (V × Cost)) :
    total (steps.map (·.2.value)) = (costAlong Cost.negativeZero steps).value := by
  suffices ∀ a : Cost, (steps.map (·.2.value)).foldl (· + ·) a.value = (costAlong a steps).value by
    exact this Cost.negativeZero
  induction steps with
  | nil => exact fun _ => rfl
  | cons step steps ih => exact fun a => ih (a + step.2)

/-- Of two sequences of steps the one that the search holds to be no dearer has no greater
total. -/
theorem total_le_total {steps : List (V × Cost)} {steps' : List (V' × Cost)}
    (h : costAlong Cost.zero steps ≤ costAlong Cost.zero steps') :
    total (steps.map (·.2.value)) ≤ total (steps'.map (·.2.value)) := by
  rw [total_eq_costAlong, total_eq_costAlong]
  -- the search starts from zero and a sum from zero below zero, which cost the same
  have h1 := costAlong_le_costAlong Cost.negativeZero_le_zero
    (List.forall₂_same.2 fun step (_ : step ∈ steps) => Std.le_refl step.2)
  have h2 := costAlong_le_costAlong Cost.zero_le_negativeZero
    (List.forall₂_same.2 fun step (_ : step ∈ steps') => Std.le_refl step.2)
  have h3 : costAlong Cost.negativeZero steps ≤ costAlong Cost.negativeZero steps' :=
    Std.le_trans h1 (Std.le_trans h h2)
  exact h3

/-! ## The lighter weight -/

theorem rank_of_lt {x : Float} (h : x.toBits.toNat < Decimal.signBit) :
    rank x = x.toBits.toNat := if_pos h

theorem rank_of_le {x : Float} (h : Decimal.signBit ≤ x.toBits.toNat) : rank x < 0 := by
  have hrank : rank x = (Decimal.signBit : Int) - 1 - x.toBits.toNat := if_neg (Nat.not_lt.2 h)
  omega

/-- A weight that no other stands before costs no more than the other. -/
theorem cost_le_of_not_lighter {v w : Weight} (h : v.lighter w = false) : w.cost ≤ v.cost := by
  have h : ¬ rank v.value < rank w.value := of_decide_eq_false h
  rw [Cost.le_iff_magnitude]
  by_cases hw : Decimal.signBit ≤ w.value.toBits.toNat
  · -- a weight is not below zero, so the sign is that of a zero
    have hzero : w.cost.magnitude = 0 :=
      magnitude_eq_zero_of_sign (zero_le_iff_isNonneg.1 w.zero_le) hw
    omega
  · have hrank := rank_of_lt (Nat.not_le.1 hw)
    have hv : v.value.toBits.toNat < Decimal.signBit := by
      refine Nat.not_le.1 fun hle => ?_
      have := rank_of_le hle
      omega
    rw [hrank, rank_of_lt hv] at h
    have hle : w.value.toBits.toNat ≤ v.value.toBits.toNat := by omega
    exact magnitude_mono v.valid.1 hle hv

/-! ## Some weights -/

/-- The least weight, and some more for networks that are small. -/
def zero : Weight := ⟨0, by decide⟩

/-- Twice the weight of an edge that says nothing of its weight. -/
def two : Weight := ⟨2, by decide⟩

/-- Three times that weight. -/
def three : Weight := ⟨3, by decide⟩

/-- Four times that weight. -/
def four : Weight := ⟨4, by decide⟩

/-- Ten times that weight. -/
def ten : Weight := ⟨10, by decide⟩

end Weight

end Waybill
