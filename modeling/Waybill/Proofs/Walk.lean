import Mathlib.Data.List.Forall2
import Waybill.Route.Search

/-!
# Walks and what they cost

A walk takes one hop after another, and costs what is summed up on the way, from
the first hop to the last. Of the sums only the laws of `LawfulCost` are used: a
sum need not be associative, and it is not where it is rounded.
-/

namespace Waybill.Route

/-- The laws of costs that a search relies on: a hop makes nothing cheaper, and
what is cheaper before a hop is no dearer after it. -/
class LawfulCost (K : Type) [LE K] [LT K] [Add K] : Prop
    extends Std.IsLinearPreorder K, Std.LawfulOrderLT K where
  le_add_right (a w : K) : a ≤ a + w
  add_le_add_right {a b : K} (h : a ≤ b) (w : K) : a + w ≤ b + w
  add_le_add_left {v w : K} (h : v ≤ w) (a : K) : a + v ≤ a + w

variable {K V : Type} {hops : V → List (V × K)} {u v x : V}

/-- The steps lead from one node to another, every step a hop from where the one
before it ended. -/
def Leads (hops : V → List (V × K)) : V → List (V × K) → V → Prop
  | u, [], v => u = v
  | u, step :: steps, v => step ∈ hops u ∧ Leads hops step.1 steps v

theorem leads_append {steps rest : List (V × K)} (h : Leads hops u steps v)
    (hrest : Leads hops v rest x) : Leads hops u (steps ++ rest) x := by
  induction steps generalizing u with
  | nil =>
    obtain rfl : u = v := h
    exact hrest
  | cons step steps ih => exact ⟨h.1, ih h.2⟩

section Cost

variable [Add K]

/-- What it costs to take the steps after some cost so far. -/
def costAlong (a : K) (steps : List (V × K)) : K :=
  steps.foldl (fun a step => a + step.2) a

@[simp] theorem costAlong_nil (a : K) : costAlong a ([] : List (V × K)) = a := rfl

@[simp] theorem costAlong_cons (a : K) (step : V × K) (steps : List (V × K)) :
    costAlong a (step :: steps) = costAlong (a + step.2) steps := rfl

/-- Costs are added from the front, so that a sequence may be cut anywhere. -/
theorem costAlong_append (a : K) (steps rest : List (V × K)) :
    costAlong a (steps ++ rest) = costAlong (costAlong a steps) rest :=
  List.foldl_append

variable [LE K] [LT K] [LawfulCost K]

/-- Going on never lowers the cost. -/
theorem le_costAlong (a : K) (steps : List (V × K)) : a ≤ costAlong a steps := by
  induction steps generalizing a with
  | nil => exact Std.le_refl a
  | cons step steps ih => exact Std.le_trans (LawfulCost.le_add_right a step.2) (ih _)

/-- What starts cheaper and takes cheaper steps ends cheaper. -/
theorem costAlong_le_costAlong {V' : Type} {a b : K} (h : a ≤ b) {steps : List (V × K)}
    {steps' : List (V' × K)} (hsteps : List.Forall₂ (fun s s' => s.2 ≤ s'.2) steps steps') :
    costAlong a steps ≤ costAlong b steps' := by
  induction hsteps generalizing a b with
  | nil => exact h
  | cons hstep _ ih =>
    exact ih (Std.le_trans (LawfulCost.add_le_add_right h _) (LawfulCost.add_le_add_left hstep _))

end Cost

end Waybill.Route
