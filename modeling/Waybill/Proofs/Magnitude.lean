import Waybill.Cost
import Waybill.Proofs.Rounding

/-!
# Magnitudes of numbers that are not below zero

Every finite number of the format is a multiple of its least positive one, so
that a number that is not below zero is known by a natural number, its
`magnitude`; infinity takes the first magnitude that does not fit. Numbers are
compared by their magnitudes (`Stands.compare_eq`), and a sum has the sum of the
magnitudes, rounded and cut off at infinity (`magnitude_add`).
-/

namespace Waybill

open Float.Model (Format totalExponent)
open Float.Model.UnpackedFloat Rounding

/-! ## Shifting a mantissa -/

theorem shiftRight_succ (em : ExtendedMantissa) (k : Nat) :
    em >>> (k + 1) = (em >>> k).shiftRightOne := rfl

/-- A mantissa of which a remainder is cut off: whether that is at least a half,
and whether it is neither nothing nor a half. -/
def cut (q r d : Nat) : ExtendedMantissa :=
  ⟨q, decide (d ≤ 2 * r), decide (r ≠ 0 ∧ 2 * r ≠ d)⟩

/-- One more digit is cut off: it joins the remainder, with the remainder that was there
below it. -/
theorem shiftRightOne_cut {q r d : Nat} (h : r < d) :
    (cut q r d).shiftRightOne = cut (q / 2) (r + d * (q % 2)) (d * 2) := by
  rcases Nat.mod_two_eq_zero_or_one q with hq | hq
  · simp only [cut, ExtendedMantissa.shiftRightOne, hq, ExtendedMantissa.mk.injEq, true_and]
    constructor
    · simp; omega
    · grind
  · simp only [cut, ExtendedMantissa.shiftRightOne, hq, ExtendedMantissa.mk.injEq, true_and]
    constructor
    · simp; omega
    · grind

/-- Cutting off some digits of an exact mantissa divides it by a power of two and keeps
what the remainder amounts to. -/
theorem shiftRight_exact (m k : Nat) :
    ExtendedMantissa.ofMantissaAndAccuracy m .exact >>> k =
      cut (m / 2 ^ k) (m % 2 ^ k) (2 ^ k) := by
  induction k with
  | zero => simp [cut, ExtendedMantissa.ofMantissaAndAccuracy, HShiftRight.hShiftRight,
      Nat.repeat, Nat.mod_one]
  | succ k ih =>
    rw [shiftRight_succ, ih, shiftRightOne_cut (Nat.mod_lt _ (Nat.two_pow_pos k)),
      Nat.div_div_eq_div_mul, ← Nat.mod_pow_succ, Nat.pow_succ]

/-- What was cut off is rounded to the nearest, and to an even mantissa from the middle.
-/
theorem roundedMantissa_cut {q r d : Nat} (h : r < d) :
    (cut q r d).roundedMantissa =
      if 2 * r < d then q else if 2 * r = d then q + q % 2 else q + 1 := by
  unfold ExtendedMantissa.roundedMantissa
  by_cases hle : d ≤ 2 * r
  · have hzero : r ≠ 0 := by omega
    by_cases hhalf : 2 * r = d <;>
      simp [cut, hle, hhalf, hzero, Nat.not_lt.2 hle, ExtendedMantissa.accuracy,
        Accuracy.roundToNearestEven]
  · have hhalf : 2 * r ≠ d := by omega
    have hd : 0 < d := by omega
    by_cases hzero : r = 0
    · simp [cut, hzero, hd, hd.ne', ExtendedMantissa.accuracy, Accuracy.roundToNearestEven]
    · simp [cut, hle, hhalf, hzero, Nat.not_le.1 hle, ExtendedMantissa.accuracy,
        Accuracy.roundToNearestEven]

/-- So an exact mantissa is divided and rounded once, as `quotient` says. -/
theorem roundedMantissa_shiftRight (m k : Nat) :
    (ExtendedMantissa.ofMantissaAndAccuracy m .exact >>> k).roundedMantissa = quotient k m := by
  rw [shiftRight_exact, roundedMantissa_cut (Nat.mod_lt _ (Nat.two_pow_pos k))]
  rfl

/-! ## Rounding to the format -/

theorem targetExponent_binary64 (e : Int) :
    Format.binary64.targetExponent e = max (e - 53) (-1074) := rfl

/-- Of the digits of a number that ends in zeros, the format keeps all but the
excess. -/
theorem targetExponent_eq {m : Nat} (hm : 0 < m) (t : Nat) :
    Format.binary64.targetExponent (totalExponent m (exponentOf t)) =
      exponentOf (excess (m * 2 ^ t)) := by
  rw [targetExponent_binary64, totalExponent, exponentOf, exponentOf, excess,
    log2_mul_two_pow hm]
  omega

/-- A mantissa is shifted by as many digits as it has too many, or until the least
exponent is reached. -/
theorem shiftToTargetExponent_eq {m : Nat} (hm : 0 < m) {t k : Nat}
    (hk : t + k = max t (excess (m * 2 ^ t))) :
    shiftToTargetExponent .binary64 m (exponentOf t) .exact =
      (ExtendedMantissa.ofMantissaAndAccuracy m .exact >>> k, exponentOf (t + k)) := by
  unfold shiftToTargetExponent shiftToExponent
  rw [targetExponent_eq hm]
  have : (exponentOf (excess (m * 2 ^ t)) - exponentOf t).toNat = k := by
    unfold exponentOf
    omega
  simp only [this, Prod.mk.injEq, true_and]
  unfold exponentOf
  omega

/-- After rounding, one more digit is cut off where rounding has made one. -/
theorem shiftToTargetExponent_rounded {q : Nat} (hq : 0 < q) (hle : q ≤ 2 ^ 53) (t : Nat) :
    ∃ m s, shiftToTargetExponent .binary64 q (exponentOf t) .exact = (cut m 0 1, exponentOf s) ∧
      0 < m ∧ m < 2 ^ 53 ∧ (s = t ∨ 2 ^ 52 ≤ m) ∧ m * 2 ^ s = q * 2 ^ t := by
  rcases Nat.eq_or_lt_of_le hle with rfl | hlt
  · -- a mantissa of ones was rounded up to the next power of two
    have hexcess : excess (2 ^ 53 * 2 ^ t) = t + 1 := by
      rw [← Nat.pow_add, excess, Nat.log2_two_pow]
      omega
    refine ⟨2 ^ 52, t + 1, ?_, by decide, by decide, .inr (le_refl _), by ring⟩
    rw [shiftToTargetExponent_eq (k := 1) hq (by omega), shiftRight_exact]
    rfl
  · have hlog : q.log2 < 53 := (Nat.log2_lt (by omega)).2 hlt
    have hexcess : excess (q * 2 ^ t) ≤ t := by
      rw [excess, log2_mul_two_pow hq]
      omega
    refine ⟨q, t, ?_, hq, hlt, .inl rfl, rfl⟩
    rw [shiftToTargetExponent_eq (k := 0) hq (by omega), shiftRight_exact]
    simp [Nat.mod_one]

/-- Rounding a mantissa of which zeros are cut off already. -/
theorem roundWithAccuracy_eq {m : Nat} (hm : 0 < m) {t k : Nat}
    (hk : t + k = excess (m * 2 ^ t)) :
    ∃ (q s : Nat) (hq : 0 < q),
      roundWithAccuracy .binary64 .positive m (exponentOf t) .exact =
        .finite .positive q (exponentOf s) hq ∧
      q < 2 ^ 53 ∧ (s = 0 ∨ 2 ^ 52 ≤ q) ∧ q * 2 ^ s = rounded (m * 2 ^ t) := by
  have hquot : quotient k m = quotient (excess (m * 2 ^ t)) (m * 2 ^ t) := by
    rw [← hk, Nat.add_comm, quotient_add_mul]
  have hpos : 0 < quotient k m := by
    rw [hquot]
    exact quotient_excess_pos (Nat.mul_pos hm (Nat.two_pow_pos t))
  have hle : quotient k m ≤ 2 ^ 53 := hquot ▸ quotient_excess_le _
  obtain ⟨q, s, hshift, hq, hlt, hs, hmul⟩ := shiftToTargetExponent_rounded hpos hle (t + k)
  refine ⟨q, s, hq, ?_, hlt, ?_, ?_⟩
  · unfold roundWithAccuracy
    rw [shiftToTargetExponent_eq (k := k) hm (by omega)]
    dsimp only
    rw [roundedMantissa_shiftRight, hshift]
    exact dif_neg (Nat.pos_iff_ne_zero.1 hq)
  · rcases hs with rfl | hs
    · rcases Nat.eq_zero_or_pos (t + k) with h | h
      · exact .inl h
      · refine .inr ?_
        have := le_quotient_excess (n := m * 2 ^ t) (by omega)
        rw [← hquot] at this
        have : q = quotient k m := Nat.eq_of_mul_eq_mul_right (Nat.two_pow_pos _) hmul
        omega
    · exact .inr hs
  · rw [hmul, rounded, hquot, hk]

/-- Rounding a number that may end in too many zeros or in too few. -/
theorem round_eq {m : Nat} (hm : 0 < m) (t : Nat) :
    ∃ (q s : Nat) (hq : 0 < q),
      Float.Model.UnpackedFloat.round .binary64 .positive m (exponentOf t) =
        .finite .positive q (exponentOf s) hq ∧
      q < 2 ^ 53 ∧ (s = 0 ∨ 2 ^ 52 ≤ q) ∧ q * 2 ^ s = rounded (m * 2 ^ t) := by
  obtain ⟨j, i, hj, hi⟩ : ∃ j i, t = j + i ∧
      (exponentOf t - exponentOf (excess (m * 2 ^ t))).toNat = i := by
    refine ⟨min t (excess (m * 2 ^ t)), t - excess (m * 2 ^ t), by omega, ?_⟩
    unfold exponentOf
    omega
  have hmul : m * 2 ^ i * 2 ^ j = m * 2 ^ t := by
    rw [hj, Nat.pow_add]
    ring
  have hexp : exponentOf t - i = exponentOf j := by
    unfold exponentOf
    omega
  have hround : Float.Model.UnpackedFloat.round .binary64 .positive m (exponentOf t) =
      roundWithAccuracy .binary64 .positive (m * 2 ^ i) (exponentOf j) .exact := by
    unfold Float.Model.UnpackedFloat.round decreaseExponent
    rw [targetExponent_eq hm]
    simp only [hi, hexp, Nat.shiftLeft_eq]
  have hk : j + (excess (m * 2 ^ t) - j) = excess (m * 2 ^ i * 2 ^ j) := by
    rw [hmul]
    unfold exponentOf at hi
    omega
  rw [hround, ← hmul]
  exact roundWithAccuracy_eq (Nat.mul_pos hm (Nat.two_pow_pos i)) hk

/-! ## Magnitudes -/

/-- How many digits the greatest magnitude has. -/
def digits : Nat := 2098

/-- The magnitude of infinity, the first that does not fit. -/
def ceiling : Nat := 2 ^ digits

theorem two_pow_le_ceiling {a : Nat} (h : a ≤ digits) : 2 ^ a ≤ ceiling :=
  Nat.pow_le_pow_right (by omega) h

theorem ceiling_le_two_pow {a : Nat} (h : digits ≤ a) : ceiling ≤ 2 ^ a :=
  Nat.pow_le_pow_right (by omega) h

/-- A mantissa of fifty-three digits at a finite exponent lies below the ceiling. -/
theorem mul_two_pow_lt_ceiling {q s : Nat} (hlt : q < 2 ^ 53) (hmax : s ≤ 2045) :
    q * 2 ^ s < ceiling := calc
  q * 2 ^ s < 2 ^ 53 * 2 ^ s := Nat.mul_lt_mul_of_pos_right hlt (Nat.two_pow_pos s)
  _ = 2 ^ (53 + s) := (Nat.pow_add 2 53 s).symm
  _ ≤ ceiling := two_pow_le_ceiling (by unfold digits; omega)

/-- A full mantissa at an exponent past the finite ones reaches the ceiling. -/
theorem ceiling_le_mul_two_pow {q s : Nat} (hle : 2 ^ 52 ≤ q) (hmin : 2046 ≤ s) :
    ceiling ≤ q * 2 ^ s := calc
  ceiling ≤ 2 ^ (52 + s) := ceiling_le_two_pow (by unfold digits; omega)
  _ = 2 ^ 52 * 2 ^ s := Nat.pow_add 2 52 s
  _ ≤ q * 2 ^ s := Nat.mul_le_mul_right _ hle

theorem ceiling_pos : 0 < ceiling := Nat.two_pow_pos digits

/-- How many times the least positive number an unpacked number is, whatever its
sign. -/
def magnitude : Float.Model.UnpackedFloat → Nat
  | .zero _ => 0
  | .finite _ m e _ => m * 2 ^ (e + 1074).toNat
  | .infinity _ => ceiling
  | .notANumber => 0

/-- The magnitude of a finite number is its mantissa at its power of two, counted in the
least positive number. -/
theorem magnitude_finite {s : Sign} {q : Nat} (t : Nat) (hq : 0 < q) :
    magnitude (.finite s q (exponentOf t) hq) = q * 2 ^ t := by
  have : (exponentOf t + 1074).toNat = t := by
    unfold exponentOf
    omega
  show q * 2 ^ (exponentOf t + 1074).toNat = q * 2 ^ t
  rw [this]

/-- The magnitude of what is packed with some exponent and mantissa. -/
def packedMagnitude (exponent mantissa : Nat) : Nat :=
  if exponent = 2047 then if mantissa = 0 then ceiling else 0
  else if exponent = 0 then mantissa
  else (2 ^ 52 + mantissa) * 2 ^ (exponent - 1)

theorem toNat_one_append (m : BitVec 52) : (1#1 ++ m).toNat = 2 ^ 52 + m.toNat := by
  rw [BitVec.toNat_append, ← Nat.shiftLeft_add_eq_or_of_lt m.isLt]
  rfl

/-- The magnitude of a number can be read off its exponent and mantissa fields. -/
theorem magnitude_unpack (b : BitVec Format.binary64.numBits) :
    magnitude (unpack .binary64 b) =
      packedMagnitude (unpackExponent b).toNat (unpackMantissa b).toNat := by
  have := unpacks_unpack b
  generalize unpack .binary64 b = u at this
  unfold packedMagnitude
  cases this with
  | infinity he hm =>
    rw [if_pos he, if_pos hm]
    rfl
  | notANumber he hm =>
    rw [if_pos he, if_neg hm]
    rfl
  | zero he hm =>
    rw [if_neg (by omega), if_pos he, hm]
    rfl
  | subnormal he hm =>
    rw [if_neg (by omega), if_pos he, magnitude_finite, Nat.pow_zero, Nat.mul_one]
  | normal he hlt hpos =>
    rw [if_neg hlt.ne, if_neg he.ne', magnitude_finite, toNat_one_append]

/-- The forms in which a number that is not below zero is unpacked, each with its
magnitude. -/
inductive Stands : Float.Model.UnpackedFloat → Nat → Prop
  | zero (s : Sign) : Stands (.zero s) 0
  | finite {q s : Nat} (hq : 0 < q) (hlt : q < 2 ^ 53) (hs : s = 0 ∨ 2 ^ 52 ≤ q) (hmax : s ≤ 2045) :
      Stands (.finite .positive q (exponentOf s) hq) (q * 2 ^ s)
  | infinity : Stands (.infinity .positive) ceiling

/-- Every number that is not below zero stands for its magnitude. -/
theorem stands_unpack {b : BitVec Format.binary64.numBits} (h : IsNonneg (unpack .binary64 b)) :
    Stands (unpack .binary64 b) (magnitude (unpack .binary64 b)) := by
  have hlt : (unpackMantissa b).toNat < 2 ^ 52 := (unpackMantissa b).isLt
  have hun := unpacks_unpack b
  generalize unpack .binary64 b = u at h hun
  generalize Sign.ofBitVec (unpackSign b) = s at hun
  cases hun with
  | infinity he hm =>
    obtain rfl : s = .positive := h
    exact .infinity
  | notANumber he hm => cases h
  | zero he hm => exact .zero s
  | subnormal he hm =>
    obtain rfl : s = .positive := h
    rw [magnitude_finite]
    exact .finite hm (by omega) (.inl rfl) (by omega)
  | normal he hlt' hpos =>
    obtain rfl : s = .positive := h
    have hone := toNat_one_append (unpackMantissa b)
    rw [magnitude_finite]
    exact .finite hpos (by omega) (.inr (by omega)) (by omega)

/-- A number too large for the format is packed as infinity. -/
theorem magnitude_unpack_pack {q s : Nat} (hq : 0 < q) (hlt : q < 2 ^ 53)
    (hs : s = 0 ∨ 2 ^ 52 ≤ q) :
    magnitude (unpack .binary64 (pack .binary64 (.finite .positive q (exponentOf s) hq))) =
      min (q * 2 ^ s) ceiling := by
  have hbias : (exponentOf s + Format.binary64.exponentBias +
      Format.binary64.mantissaBitsWithoutImplicit).toNat = s + 1 := by
    show (exponentOf s + (1023 : Int) + ((52 : Nat) : Int)).toNat = s + 1
    unfold exponentOf
    omega
  rw [magnitude_unpack]
  unfold pack
  simp only [hbias]
  split
  · next hbig =>
    have hbig : 2 ^ 11 ≤ s + 1 + 1 := hbig
    have : ceiling ≤ q * 2 ^ s := ceiling_le_mul_two_pow (by omega) (by omega)
    rw [Nat.min_eq_right this]
    simp [packedInfinity, packedMagnitude]
  · next hsmall =>
    have hsmall : ¬ 2 ^ 11 ≤ s + 1 + 1 := hsmall
    have : q * 2 ^ s ≤ ceiling := (mul_two_pow_lt_ceiling hlt (by omega)).le
    rw [Nat.min_eq_left this]
    split
    · next hlog =>
      -- the leading digit is not packed
      have hlog : q.log2 = 52 := by
        have : q.log2 + 1 = 53 := hlog
        omega
      obtain ⟨hge, -⟩ := (Nat.log2_eq_iff hq.ne').1 hlog
      have hexp : (s + 1) % 2 ^ 11 = s + 1 := Nat.mod_eq_of_lt (by omega)
      have hman : 2 ^ 52 + q % 2 ^ 52 = q := by omega
      rw [unpackExponent_packComponents, unpackMantissa_packComponents, BitVec.toNat_ofNat,
        BitVec.toNat_ofNat]
      show packedMagnitude ((s + 1) % 2 ^ 11) (q % 2 ^ 52) = _
      rw [hexp, packedMagnitude, if_neg (by omega), if_neg (by omega), hman, Nat.add_sub_cancel]
    · next hlog =>
      have hlog : q.log2 ≠ 52 := fun h => hlog (congrArg (· + 1) h)
      have hsub : q < 2 ^ 52 := by
        by_contra h
        exact hlog ((Nat.log2_eq_iff hq.ne').2 ⟨by omega, hlt⟩)
      -- only the least exponent goes with a mantissa that has fewer digits
      obtain rfl : s = 0 := hs.resolve_right (by omega)
      rw [unpackExponent_packComponents, unpackMantissa_packComponents, BitVec.toNat_ofNat]
      show packedMagnitude 0 (q % 2 ^ 52) = _
      rw [packedMagnitude, if_neg (by omega), if_pos rfl, Nat.mod_eq_of_lt hsub, Nat.pow_zero,
        Nat.mul_one]

/-! ## Comparing -/

/-- Of two numbers in the form the format keeps them in, the one with more zeros
is the greater. -/
theorem mul_two_pow_lt {q s q' s' : Nat} (hlt : q < 2 ^ 53) (hs : s' = 0 ∨ 2 ^ 52 ≤ q')
    (h : s < s') : q * 2 ^ s < q' * 2 ^ s' := calc
  q * 2 ^ s < 2 ^ 53 * 2 ^ s := Nat.mul_lt_mul_of_pos_right hlt (Nat.two_pow_pos s)
  _ = 2 ^ 52 * 2 ^ (s + 1) := by
    rw [Nat.pow_succ 2 s]
    omega
  _ ≤ q' * 2 ^ s' :=
    Nat.mul_le_mul (hs.resolve_left (by omega)) (Nat.pow_le_pow_right (by omega) h)

/-- Numbers in normal form are compared by their exponents first, which agrees with
comparing what they amount to. -/
theorem compare_finite {q s q' s' : Nat} (hlt : q < 2 ^ 53) (hs : s = 0 ∨ 2 ^ 52 ≤ q)
    (hlt' : q' < 2 ^ 53) (hs' : s' = 0 ∨ 2 ^ 52 ≤ q') :
    (compare (exponentOf s) (exponentOf s')).then (compare q q') =
      compare (q * 2 ^ s) (q' * 2 ^ s') := by
  rcases Nat.lt_trichotomy s s' with h | rfl | h
  · have hexp : exponentOf s < exponentOf s' := by
      unfold exponentOf
      omega
    rw [Int.compare_eq_lt.2 hexp, Nat.compare_eq_lt.2 (mul_two_pow_lt hlt hs' h)]
    rfl
  · rw [Int.compare_eq_eq.2 rfl, Ordering.eq_then, Nat.compare_eq_ite_lt, Nat.compare_eq_ite_lt]
    simp only [Nat.mul_lt_mul_right (Nat.two_pow_pos s)]
  · have hexp : exponentOf s' < exponentOf s := by
      unfold exponentOf
      omega
    rw [Int.compare_eq_gt.2 hexp, Nat.compare_eq_gt.2 (mul_two_pow_lt hlt' hs h)]
    rfl

/-- Two numbers are compared like the magnitudes that they stand for. -/
theorem Stands.compare_eq {u v : Float.Model.UnpackedFloat} {n m : Nat} (hu : Stands u n)
    (hv : Stands v m) : u.compare v = some (compare n m) := by
  cases hu with
  | zero s =>
    cases hv with
    | zero t => rfl
    | finite hq hlt hs hmax =>
      rw [Nat.compare_eq_lt.2 (Nat.mul_pos hq (Nat.two_pow_pos _))]
      rfl
    | infinity =>
      rw [Nat.compare_eq_lt.2 ceiling_pos]
      rfl
  | finite hq hlt hs hmax =>
    cases hv with
    | zero t =>
      rw [Nat.compare_eq_gt.2 (Nat.mul_pos hq (Nat.two_pow_pos _))]
      rfl
    | finite hq' hlt' hs' hmax' =>
      rw [← compare_finite hlt hs hlt' hs']
      rfl
    | infinity =>
      rw [Nat.compare_eq_lt.2 (mul_two_pow_lt_ceiling hlt hmax)]
      rfl
  | infinity =>
    cases hv with
    | zero t =>
      rw [Nat.compare_eq_gt.2 ceiling_pos]
      rfl
    | finite hq hlt hs hmax =>
      rw [Nat.compare_eq_gt.2 (mul_two_pow_lt_ceiling hlt hmax)]
      rfl
    | infinity =>
      rw [Nat.compare_eq_eq.2 rfl]
      rfl

/-! ## Adding -/

theorem rounded_ceiling : rounded ceiling = ceiling := by
  have := rounded_mul_two_pow (m := 1) (by omega) digits
  rwa [Nat.one_mul] at this

/-- A magnitude that a number stands for needs no rounding. -/
theorem Stands.rounded_eq {u : Float.Model.UnpackedFloat} {n : Nat} (h : Stands u n) :
    rounded n = n := by
  cases h with
  | zero s => exact rounded_mul_two_pow (m := 0) (by omega) 0
  | finite hq hlt hs hmax => exact rounded_mul_two_pow hlt _
  | infinity => exact rounded_ceiling

/-- No magnitude lies above that of infinity. -/
theorem Stands.le_ceiling {u : Float.Model.UnpackedFloat} {n : Nat} (h : Stands u n) :
    n ≤ ceiling := by
  cases h with
  | zero s => exact Nat.zero_le _
  | finite hq hlt hs hmax => exact (mul_two_pow_lt_ceiling hlt hmax).le
  | infinity => exact le_refl _

theorem magnitude_unpack_pack_zero (s : Sign) :
    magnitude (unpack .binary64 (pack .binary64 (.zero s))) = 0 := by
  cases s <;> rfl

theorem magnitude_unpack_pack_infinity :
    magnitude (unpack .binary64 (pack .binary64 (.infinity .positive))) = ceiling := by
  rfl

/-- A number that is packed is rounded, and cut off at infinity. -/
theorem magnitude_unpack_pack_finite {q s : Nat} (hq : 0 < q) (hlt : q < 2 ^ 53)
    (hs : s = 0 ∨ 2 ^ 52 ≤ q) :
    magnitude (unpack .binary64 (pack .binary64 (.finite .positive q (exponentOf s) hq))) =
      min (rounded (q * 2 ^ s)) ceiling := by
  rw [magnitude_unpack_pack hq hlt hs, rounded_mul_two_pow hlt]

/-- Rounding brings nothing that reaches the ceiling back below it. -/
theorem min_rounded_ceiling {n : Nat} (h : ceiling ≤ n) : min (rounded n) ceiling = ceiling := by
  have := rounded_mono h
  rw [rounded_ceiling] at this
  exact Nat.min_eq_right this

/-- Normalising a mantissa that is a natural number is rounding it. -/
theorem normalize_natCast {m : Nat} (hm : 0 < m) {e : Int} :
    Float.Model.UnpackedFloat.normalize .binary64 m e .positive =
      Float.Model.UnpackedFloat.round .binary64 .positive m e := by
  unfold Float.Model.UnpackedFloat.normalize
  rw [Int.compare_eq_gt.2 (Int.natCast_pos.2 hm)]
  rfl

/-- A sum of finite numbers has the sum of their magnitudes, rounded once and cut off at
infinity. -/
theorem magnitude_add_finite {q s q' s' : Nat} (hq : 0 < q) (hq' : 0 < q') :
    magnitude (unpack .binary64 (pack .binary64 (add .binary64
      (.finite .positive q (exponentOf s) hq) (.finite .positive q' (exponentOf s') hq')))) =
        min (rounded (q * 2 ^ s + q' * 2 ^ s')) ceiling := by
  -- both are brought to the lesser exponent, and nothing is cut off before the sum
  obtain ⟨t, ht⟩ : ∃ t, t = min s s' := ⟨_, rfl⟩
  have hmin : min (exponentOf s) (exponentOf s') = exponentOf t := by
    unfold exponentOf
    omega
  have hsub : ∀ {r}, t ≤ r → (exponentOf r - exponentOf t).toNat = r - t := fun h => by
    unfold exponentOf
    omega
  obtain ⟨m, hm⟩ : ∃ m, m = q * 2 ^ (s - t) + q' * 2 ^ (s' - t) := ⟨_, rfl⟩
  have hpos : 0 < m := hm ▸ Nat.add_pos_left (Nat.mul_pos hq (Nat.two_pow_pos _)) _
  have hmul : m * 2 ^ t = q * 2 ^ s + q' * 2 ^ s' := by
    have hpow : ∀ {r}, t ≤ r → 2 ^ (r - t) * 2 ^ t = 2 ^ r := fun h => by
      rw [← Nat.pow_add, Nat.sub_add_cancel h]
    rw [hm, Nat.add_mul, Nat.mul_assoc, Nat.mul_assoc, hpow (by omega), hpow (by omega)]
  have hsum : ((decreaseExponent q (exponentOf s) (exponentOf t)).1 : Int) +
      (decreaseExponent q' (exponentOf s') (exponentOf t)).1 = m := by
    simp only [decreaseExponent, hsub (show t ≤ s by omega), hsub (show t ≤ s' by omega),
      Nat.shiftLeft_eq, ← Nat.cast_add, ← hm]
  have hadd : add .binary64 (.finite .positive q (exponentOf s) hq)
      (.finite .positive q' (exponentOf s') hq') =
        Float.Model.UnpackedFloat.round .binary64 .positive m (exponentOf t) := by
    rw [← normalize_natCast hpos, ← hsum, ← hmin]
    rfl
  obtain ⟨r, u, hr, hround, hlt, hu, hrmul⟩ := round_eq hpos t
  rw [hadd, hround, magnitude_unpack_pack hr hlt hu, hrmul, hmul]

/-- **A sum is the sum of the magnitudes, rounded and cut off at infinity.** -/
theorem Stands.magnitude_add {u v : Float.Model.UnpackedFloat} {n m : Nat} (hu : Stands u n)
    (hv : Stands v m) :
    magnitude (unpack .binary64 (pack .binary64 (add .binary64 u v))) =
      min (rounded (n + m)) ceiling := by
  have hzero : rounded 0 = 0 := (Stands.zero .positive).rounded_eq
  cases hu with
  | zero s =>
    cases hv with
    | zero t =>
      rw [hzero, Nat.zero_min]
      cases s <;> cases t <;> exact magnitude_unpack_pack_zero _
    | finite hq hlt hs hmax =>
      rw [Nat.zero_add]
      exact magnitude_unpack_pack_finite hq hlt hs
    | infinity =>
      rw [min_rounded_ceiling (by omega)]
      exact magnitude_unpack_pack_infinity
  | finite hq hlt hs hmax =>
    cases hv with
    | zero t =>
      rw [Nat.add_zero]
      exact magnitude_unpack_pack_finite hq hlt hs
    | finite hq' hlt' hs' hmax' => exact magnitude_add_finite hq hq'
    | infinity =>
      rw [min_rounded_ceiling (by omega)]
      exact magnitude_unpack_pack_infinity
  | infinity =>
    rw [min_rounded_ceiling (by omega)]
    cases hv <;> exact magnitude_unpack_pack_infinity

/-! ## The order of the bits -/

theorem toNat_unpackMantissa (b : BitVec Format.binary64.numBits) :
    (unpackMantissa b).toNat = b.toNat % 2 ^ 52 := by
  simp only [unpackMantissa, BitVec.toNat_cast, BitVec.extractLsb_toNat, Nat.shiftRight_zero]

theorem toNat_unpackExponent (b : BitVec Format.binary64.numBits) :
    (unpackExponent b).toNat = b.toNat / 2 ^ 52 % 2 ^ 11 := by
  simp only [unpackExponent, BitVec.toNat_cast, BitVec.extractLsb_toNat, Nat.shiftRight_eq_div_pow]

/-- Fields that are greater as one number give a greater magnitude, so that bits are
ordered like magnitudes. -/
theorem packedMagnitude_mono {e m e' m' : Nat} (hm : m < 2 ^ 52) (he' : e' < 2047)
    (h : e * 2 ^ 52 + m ≤ e' * 2 ^ 52 + m') (hm' : m' < 2 ^ 52) :
    packedMagnitude e m ≤ packedMagnitude e' m' := by
  unfold packedMagnitude
  rw [if_neg (show e ≠ 2047 by omega), if_neg (show e' ≠ 2047 by omega)]
  rcases Nat.lt_or_ge e e' with hlt | hge
  · rw [if_neg (show e' ≠ 0 by omega)]
    split
    · calc
        m ≤ 2 ^ 52 + m' := by omega
        _ ≤ (2 ^ 52 + m') * 2 ^ (e' - 1) := Nat.le_mul_of_pos_right _ (Nat.two_pow_pos _)
    · exact (mul_two_pow_lt (by omega) (.inr (by omega)) (by omega)).le
  · obtain rfl : e = e' := by omega
    have hle : m ≤ m' := by omega
    split
    · exact hle
    · exact Nat.mul_le_mul_right _ (by omega)

theorem toNat_unpackSign (b : BitVec Format.binary64.numBits) :
    (unpackSign b).toNat = b.toNat / 2 ^ 63 % 2 := by
  unfold unpackSign
  simp only [BitVec.toNat_cast, BitVec.extractLsb_toNat, Nat.shiftRight_eq_div_pow]

/-- A finite number has an exponent field below the one that is kept for infinity. -/
theorem toNat_unpackExponent_lt {b : BitVec Format.binary64.numBits}
    (h : (unpack .binary64 b).isFinite) : (unpackExponent b).toNat < 2047 := by
  have hun := unpacks_unpack b
  generalize unpack .binary64 b = u at h hun
  cases hun with
  | infinity he hm => cases h
  | notANumber he hm => cases h
  | zero he hm => omega
  | subnormal he hm => omega
  | normal he hlt hpos => exact hlt

/-- Of two finite numbers without sign, the one with the greater bits has the
greater magnitude. -/
theorem magnitude_mono {b b' : BitVec Format.binary64.numBits}
    (hfinite : (unpack .binary64 b').isFinite) (h : b.toNat ≤ b'.toNat) (hlt : b'.toNat < 2 ^ 63) :
    magnitude (unpack .binary64 b) ≤ magnitude (unpack .binary64 b') := by
  have hexp := toNat_unpackExponent_lt hfinite
  rw [magnitude_unpack, magnitude_unpack]
  rw [toNat_unpackExponent] at hexp ⊢
  rw [toNat_unpackExponent, toNat_unpackMantissa, toNat_unpackMantissa]
  exact packedMagnitude_mono (by omega) hexp (by omega) (by omega)

/-- With the sign set, only zero is not below zero. -/
theorem magnitude_eq_zero_of_sign {b : BitVec Format.binary64.numBits}
    (h : IsNonneg (unpack .binary64 b)) (hb : 2 ^ 63 ≤ b.toNat) :
    magnitude (unpack .binary64 b) = 0 := by
  have hlt : b.toNat < 2 ^ 64 := b.isLt
  have hsign : unpackSign b = 1#1 := by
    rw [← BitVec.toNat_inj, toNat_unpackSign]
    show b.toNat / 2 ^ 63 % 2 = 1
    omega
  have hun := unpacks_unpack b
  rw [hsign] at hun
  generalize unpack .binary64 b = u at h hun
  cases hun with
  | zero he hm => rfl
  | _ => cases h

end Waybill
