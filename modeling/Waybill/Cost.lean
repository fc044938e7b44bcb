import Waybill.Edge

/-!
# Costs

What it costs to get somewhere is a sum of weights, rounded after every addition.
A cost is not below zero and it is a number, but unlike a weight it may be
infinite: the sum of large weights is. That sums of costs are costs is read off
the format of the numbers, from the sign that packing keeps.
-/

namespace Waybill

open Float.Model.UnpackedFloat

/-! ## Numbers that are not below zero -/

/-- A number that is not below zero: a zero of either sign, or anything of
positive sign. -/
def IsNonneg : Float.Model.UnpackedFloat → Prop
  | .zero _ => True
  | .finite s .. => s = .positive
  | .infinity s => s = .positive
  | .notANumber => False

theorem le_iff_compare {x y : Float} :
    x ≤ y ↔ (x.toModel.unpack.compare y.toModel.unpack).any (·.isLE) := by
  show decide (x.toModel ≤ y.toModel) = true ↔ _
  rw [decide_eq_true_iff]
  exact Iff.rfl

theorem lt_iff_compare {x y : Float} :
    x < y ↔ x.toModel.unpack.compare y.toModel.unpack = some .lt := by
  show decide (x.toModel < y.toModel) = true ↔ _
  rw [decide_eq_true_iff]
  exact beq_iff_eq

theorem zero_le_iff_isNonneg {x : Float} : 0 ≤ x ↔ IsNonneg x.toModel.unpack := by
  have hzero : (0 : Float).toModel.unpack = .zero .positive := rfl
  rw [le_iff_compare, hzero]
  rcases x.toModel.unpack with ⟨_ | _⟩ | _ | ⟨_ | _⟩ | ⟨_ | _, m, e, hm⟩
  all_goals
    constructor <;> intro h <;> first | rfl | trivial

/-! ## Unpacking -/

/-- The exponent of numbers that end in so many zeros. -/
def exponentOf (s : Nat) : Int := s - 1074

/-- What a number with some exponent and mantissa is unpacked to. -/
inductive Unpacks (s : Sign) (e : BitVec 11) (m : BitVec 52) : Float.Model.UnpackedFloat → Prop
  | infinity (he : e.toNat = 2047) (hm : m.toNat = 0) : Unpacks s e m (.infinity s)
  | notANumber (he : e.toNat = 2047) (hm : m.toNat ≠ 0) : Unpacks s e m .notANumber
  | zero (he : e.toNat = 0) (hm : m.toNat = 0) : Unpacks s e m (.zero s)
  | subnormal (he : e.toNat = 0) (hm : 0 < m.toNat) :
      Unpacks s e m (.finite s m.toNat (exponentOf 0) hm)
  | normal (he : 0 < e.toNat) (hlt : e.toNat < 2047) (hpos : 0 < (1#1 ++ m).toNat) :
      Unpacks s e m (.finite s (1#1 ++ m).toNat (exponentOf (e.toNat - 1)) hpos)

theorem Unpacks.finite {s : Sign} {e : BitVec 11} {m : BitVec 52} {q : Nat} {x : Int}
    {hpos : 0 < q} (h : (e.toNat = 0 ∧ q = m.toNat ∧ x = exponentOf 0) ∨
      (0 < e.toNat ∧ e.toNat < 2047 ∧ q = (1#1 ++ m).toNat ∧ x = exponentOf (e.toNat - 1))) :
    Unpacks s e m (.finite s q x hpos) := by
  rcases h with ⟨he, rfl, rfl⟩ | ⟨he, hlt, rfl, rfl⟩
  · exact .subnormal he hpos
  · exact .normal he hlt hpos

theorem eq_neg_one_iff {e : BitVec 11} : e = -1#11 ↔ e.toNat = 2047 :=
  BitVec.toNat_inj.symm

theorem eq_zero_iff {w : Nat} {v : BitVec w} : v = 0#w ↔ v.toNat = 0 := by
  rw [← BitVec.toNat_inj, BitVec.toNat_ofNat, Nat.zero_mod]

theorem unpacks_unpack (b : BitVec Float.Model.Format.binary64.numBits) :
    Unpacks (Sign.ofBitVec (unpackSign b)) (unpackExponent b) (unpackMantissa b)
      (unpack .binary64 b) := by
  have hlt : (unpackExponent b).toNat < 2048 := (unpackExponent b).isLt
  unfold unpack
  dsimp only
  by_cases he : unpackExponent b = -1#11
  · rw [if_pos he]
    by_cases hm : unpackMantissa b = 0#52
    · rw [if_pos hm]
      exact .infinity (eq_neg_one_iff.1 he) (eq_zero_iff.1 hm)
    · rw [if_neg hm]
      exact .notANumber (eq_neg_one_iff.1 he) (mt eq_zero_iff.2 hm)
  · rw [if_neg he]
    have hne : (unpackExponent b).toNat ≠ 2047 := mt eq_neg_one_iff.2 he
    by_cases hz : unpackExponent b = 0#11
    · rw [if_pos hz]
      by_cases hm : unpackMantissa b = 0#52
      · rw [dif_pos hm]
        exact .zero (eq_zero_iff.1 hz) (eq_zero_iff.1 hm)
      · rw [dif_neg hm]
        refine .finite (.inl ⟨eq_zero_iff.1 hz, rfl, ?_⟩)
        rw [eq_zero_iff.1 hz]
        rfl
    · rw [if_neg hz]
      have hpos : 0 < (unpackExponent b).toNat := Nat.pos_of_ne_zero (mt eq_zero_iff.2 hz)
      refine .finite (.inr ⟨hpos, by omega, rfl, ?_⟩)
      show ((unpackExponent b).toNat : Int) - (1023 + 52) = exponentOf _
      unfold exponentOf
      omega

theorem isNonneg_unpack {b : BitVec Float.Model.Format.binary64.numBits}
    (hsign : Sign.ofBitVec (unpackSign b) = .positive ∨
      unpackExponent b = 0#11 ∧ unpackMantissa b = 0#52)
    (hnumber : unpackExponent b = -1#11 → unpackMantissa b = 0#52) :
    IsNonneg (unpack .binary64 b) := by
  rw [eq_zero_iff, eq_zero_iff] at hsign
  rw [eq_neg_one_iff, eq_zero_iff] at hnumber
  have hun := unpacks_unpack b
  generalize unpack .binary64 b = u at hun
  cases hun with
  | infinity he hm => exact hsign.resolve_right (by omega)
  | notANumber he hm => exact absurd (hnumber he) hm
  | zero he hm => trivial
  | subnormal he hm => exact hsign.resolve_right (by omega)
  | normal he hlt hpos => exact hsign.resolve_right (by omega)

/-! ## Packing keeps the sign -/

theorem unpackSign_packComponents {sign : Sign} {exponent mantissa} :
    unpackSign (packComponents .binary64 sign exponent mantissa) = sign.toBitVec := by
  refine BitVec.eq_of_getLsbD_eq fun i hi => ?_
  obtain rfl : i = 0 := by omega
  unfold unpackSign packComponents
  simp only [BitVec.getLsbD_cast, BitVec.extractLsb, BitVec.getLsbD_extractLsb',
    BitVec.getLsbD_append]
  simp

theorem ofBitVec_toBitVec (s : Sign) : Sign.ofBitVec s.toBitVec = s := by
  cases s <;> rfl

theorem isNonneg_unpack_packComponents {sign : Sign} {exponent mantissa}
    (hsign : sign = .positive ∨ exponent = 0#_ ∧ mantissa = 0#_)
    (hnumber : exponent = -1#_ → mantissa = 0#_) :
    IsNonneg (unpack .binary64 (packComponents .binary64 sign exponent mantissa)) := by
  apply isNonneg_unpack
  · rw [unpackSign_packComponents, unpackExponent_packComponents, unpackMantissa_packComponents,
      ofBitVec_toBitVec]
    exact hsign
  · rw [unpackExponent_packComponents, unpackMantissa_packComponents]
    exact hnumber

theorem isNonneg_unpack_pack {u : Float.Model.UnpackedFloat} (h : IsNonneg u) :
    IsNonneg (unpack .binary64 (pack .binary64 u)) := by
  rcases u with s | _ | s | ⟨s, m, e, hm⟩
  · exact isNonneg_unpack_packComponents (.inl h) fun _ => rfl
  · cases h
  · exact isNonneg_unpack_packComponents (.inr ⟨rfl, rfl⟩) fun _ => rfl
  · unfold pack
    dsimp only
    split
    · exact isNonneg_unpack_packComponents (.inl h) fun _ => rfl
    · next hlt =>
      split
      · -- an exponent of ones is packed for infinity only
        refine isNonneg_unpack_packComponents (.inl h) fun he => ?_
        have := congrArg BitVec.toNat he
        simp only [BitVec.toNat_ofNat] at this
        simp at this hlt
        omega
      · exact isNonneg_unpack_packComponents (.inl h) fun he => by simp at he

/-! ## Sums -/

theorem isNonneg_round {m : Nat} {e : Int} :
    IsNonneg (Float.Model.UnpackedFloat.round .binary64 .positive m e) := by
  unfold Float.Model.UnpackedFloat.round roundWithAccuracy
  dsimp only
  generalize shiftToTargetExponent .binary64 _ _ .exact = shifted
  by_cases hzero : shifted.1.mantissa = 0
  · rw [dif_pos hzero]
    trivial
  · rw [dif_neg hzero]
    rfl

theorem isNonneg_normalize {m : Int} (hm : 0 ≤ m) {e : Int} :
    IsNonneg (Float.Model.UnpackedFloat.normalize .binary64 m e .positive) := by
  unfold Float.Model.UnpackedFloat.normalize
  split
  · next h => exact absurd (Int.compare_eq_lt.1 h) (by omega)
  · trivial
  · exact isNonneg_round

theorem isNonneg_add {a b : Float.Model.UnpackedFloat} (ha : IsNonneg a) (hb : IsNonneg b) :
    IsNonneg (add .binary64 a b) := by
  rcases a with s | _ | s | ⟨s, m, e, hm⟩ <;> rcases b with t | _ | t | ⟨t, k, f, hk⟩
  case zero.zero => cases s <;> cases t <;> trivial
  case finite.finite =>
    obtain rfl : s = .positive := ha
    obtain rfl : t = .positive := hb
    exact isNonneg_normalize (Int.add_nonneg (Int.natCast_nonneg _) (Int.natCast_nonneg _))
  case infinity.infinity =>
    obtain rfl : s = .positive := ha
    obtain rfl : t = .positive := hb
    rfl
  all_goals first | exact ha | exact hb

theorem zero_le_add {x y : Float} (hx : 0 ≤ x) (hy : 0 ≤ y) : 0 ≤ x + y := by
  rw [zero_le_iff_isNonneg] at hx hy ⊢
  show IsNonneg (unpack .binary64 (UInt64.ofBitVec (pack .binary64 _)).toBitVec)
  exact isNonneg_unpack_pack (isNonneg_add hx hy)

theorem Weight.zero_le (w : Weight) : 0 ≤ w.value := by
  obtain ⟨hfinite, hlt⟩ := w.valid
  have hf : w.value.toModel.unpack.isFinite = true := hfinite
  have hzero : (0 : Float).toModel.unpack = .zero .positive := rfl
  rw [lt_iff_compare, hzero] at hlt
  rw [zero_le_iff_isNonneg]
  generalize w.value.toModel.unpack = u at hf hlt
  rcases u with _ | _ | s | ⟨_ | _, m, e, hm⟩
  · cases hf
  · cases hf
  · trivial
  · exact absurd rfl hlt
  · exact rfl

/-! ## Costs -/

/-- What it costs to get somewhere. -/
structure Cost where
  value : Float
  valid : 0 ≤ value
  deriving DecidableEq

namespace Cost

instance : LE Cost := ⟨fun a b => a.value ≤ b.value⟩

instance : LT Cost := ⟨fun a b => a.value < b.value⟩

instance (a b : Cost) : Decidable (a ≤ b) := inferInstanceAs (Decidable (a.value ≤ b.value))

instance (a b : Cost) : Decidable (a < b) := inferInstanceAs (Decidable (a.value < b.value))

instance : Add Cost := ⟨fun a b => ⟨a.value + b.value, zero_le_add a.valid b.valid⟩⟩

/-- The cost of staying. -/
def zero : Cost := ⟨0, by decide⟩

end Cost

/-- What it costs to take an edge of that weight. -/
def Weight.cost (w : Weight) : Cost := ⟨w.value, w.zero_le⟩

end Waybill
