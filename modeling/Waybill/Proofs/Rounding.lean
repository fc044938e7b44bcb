import Mathlib.Algebra.Order.Ring.Nat
import Mathlib.Tactic.Ring
import Mathlib.Tactic.SplitIfs

/-!
# Rounding to 53 binary digits

What rounding does to a natural number, without a format around it: the number
is divided by the power of two that leaves 53 digits, to the nearest and from
the middle to the even side. Rounding is monotone also between numbers that are
divided by different powers (`rounded_mono`), and keeps what has 53 digits
already (`rounded_mul_two_pow`).
-/

namespace Waybill.Rounding

/-! ## Dividing by a power of two -/

/-- The quotient of a number by a power of two, rounded to the nearest and from
the middle to the even side. -/
def quotient (k n : Nat) : Nat :=
  if 2 * (n % 2 ^ k) < 2 ^ k then n / 2 ^ k
  else if 2 * (n % 2 ^ k) = 2 ^ k then n / 2 ^ k + n / 2 ^ k % 2
  else n / 2 ^ k + 1

theorem le_quotient (k n : Nat) : n / 2 ^ k ≤ quotient k n := by
  unfold quotient
  split
  · exact le_refl _
  · split <;> omega

theorem quotient_le (k n : Nat) : quotient k n ≤ n / 2 ^ k + 1 := by
  unfold quotient
  split
  · omega
  · split <;> omega

theorem quotient_mono (k : Nat) {m n : Nat} (h : m ≤ n) : quotient k m ≤ quotient k n := by
  rcases Nat.eq_or_lt_of_le (Nat.div_le_div_right (c := 2 ^ k) h) with hq | hq
  · -- one quotient: the remainders are in order
    have hm := Nat.div_add_mod m (2 ^ k)
    have hn := Nat.div_add_mod n (2 ^ k)
    have hr : m % 2 ^ k ≤ n % 2 ^ k := by
      rw [hq] at hm
      omega
    unfold quotient
    rw [hq]
    split_ifs <;> omega
  · calc quotient k m ≤ m / 2 ^ k + 1 := quotient_le k m
      _ ≤ n / 2 ^ k := hq
      _ ≤ quotient k n := le_quotient k n

/-- Dividing both by a further power of two changes nothing. -/
theorem quotient_add_mul (k j n : Nat) : quotient (k + j) (n * 2 ^ j) = quotient k n := by
  have hj : 0 < 2 ^ j := Nat.two_pow_pos j
  unfold quotient
  rw [Nat.pow_add, Nat.mul_mod_mul_right, Nat.mul_div_mul_right _ _ hj]
  have hlt : 2 * (n % 2 ^ k * 2 ^ j) < 2 ^ k * 2 ^ j ↔ 2 * (n % 2 ^ k) < 2 ^ k := by
    rw [← Nat.mul_assoc]
    exact Nat.mul_lt_mul_right hj
  have heq : 2 * (n % 2 ^ k * 2 ^ j) = 2 ^ k * 2 ^ j ↔ 2 * (n % 2 ^ k) = 2 ^ k := by
    rw [← Nat.mul_assoc]
    exact Nat.mul_left_inj (by omega)
  simp only [hlt, heq]

@[simp] theorem quotient_zero (n : Nat) : quotient 0 n = n := by
  simp [quotient, Nat.mod_one]

/-! ## Keeping 53 digits -/

/-- The number of binary digits beyond 53. -/
def excess (n : Nat) : Nat := n.log2 - 52

/-- A number rounded to 53 binary digits. -/
def rounded (n : Nat) : Nat := quotient (excess n) n * 2 ^ excess n

/-- A greater number has no fewer digits too many. -/
theorem excess_mono {m n : Nat} (h : m ≤ n) : excess m ≤ excess n := by
  have : m.log2 ≤ n.log2 := by
    rcases Nat.eq_zero_or_pos m with rfl | hm
    · simp
    · exact (Nat.le_log2 (by omega)).2 ((Nat.log2_self_le (by omega)).trans h)
  unfold excess
  omega

/-- Without the digits that are too many it fits. -/
theorem div_two_pow_excess_lt (n : Nat) : n / 2 ^ excess n < 2 ^ 53 := by
  rw [Nat.div_lt_iff_lt_mul (Nat.two_pow_pos _), ← Nat.pow_add]
  refine Nat.lt_log2_self.trans_le (Nat.pow_le_pow_right (by decide) ?_)
  unfold excess
  omega

/-- And it has all the digits that fit. -/
theorem le_div_two_pow_excess {n : Nat} (h : 0 < excess n) : 2 ^ 52 ≤ n / 2 ^ excess n := by
  have hn : n ≠ 0 := by
    rintro rfl
    simp [excess] at h
  rw [Nat.le_div_iff_mul_le (Nat.two_pow_pos _), ← Nat.pow_add]
  refine le_trans (Nat.pow_le_pow_right (by decide) ?_) (Nat.log2_self_le hn)
  unfold excess at h ⊢
  omega

/-- Rounding may carry into one more digit, and then only to a power of two. -/
theorem quotient_excess_le (n : Nat) : quotient (excess n) n ≤ 2 ^ 53 :=
  (quotient_le _ n).trans (div_two_pow_excess_lt n)

/-- A number with digits too many keeps all the digits that fit. -/
theorem le_quotient_excess {n : Nat} (h : 0 < excess n) : 2 ^ 52 ≤ quotient (excess n) n :=
  (le_div_two_pow_excess h).trans (le_quotient _ n)

/-- Nothing but zero is rounded to zero. -/
theorem quotient_excess_pos {n : Nat} (hn : 0 < n) : 0 < quotient (excess n) n := by
  rcases Nat.eq_zero_or_pos (excess n) with h | h
  · rw [h, quotient_zero]
    exact hn
  · exact (Nat.two_pow_pos 52).trans_le (le_quotient_excess h)

/-- **Rounding is monotone.** Where two numbers are divided by different powers,
the power of two between them separates what becomes of them. -/
theorem rounded_mono {m n : Nat} (h : m ≤ n) : rounded m ≤ rounded n := by
  unfold rounded
  rcases Nat.eq_or_lt_of_le (excess_mono h) with hk | hk
  · rw [hk]
    exact Nat.mul_le_mul_right _ (quotient_mono _ h)
  · calc quotient (excess m) m * 2 ^ excess m
        ≤ 2 ^ 53 * 2 ^ excess m := Nat.mul_le_mul_right _ (quotient_excess_le m)
      _ = 2 ^ 52 * 2 ^ (excess m + 1) := by ring
      _ ≤ 2 ^ 52 * 2 ^ excess n :=
        Nat.mul_le_mul_left _ (Nat.pow_le_pow_right (by decide) hk)
      _ ≤ quotient (excess n) n * 2 ^ excess n :=
        Nat.mul_le_mul_right _ (le_quotient_excess (by omega))

theorem log2_mul_two_pow {m : Nat} (hm : 0 < m) (s : Nat) : (m * 2 ^ s).log2 = m.log2 + s := by
  have hpos : m * 2 ^ s ≠ 0 := Nat.mul_ne_zero (by omega) (Nat.two_pow_pos s).ne'
  refine (Nat.log2_eq_iff hpos).2 ⟨?_, ?_⟩
  · rw [Nat.pow_add]
    exact Nat.mul_le_mul_right _ (Nat.log2_self_le (by omega))
  · rw [show m.log2 + s + 1 = m.log2 + 1 + s by omega, Nat.pow_add]
    exact Nat.mul_lt_mul_of_pos_right Nat.lt_log2_self (Nat.two_pow_pos s)

/-- A number of 53 digits with zeros behind them is kept. -/
theorem rounded_mul_two_pow {m : Nat} (hm : m < 2 ^ 53) (s : Nat) :
    rounded (m * 2 ^ s) = m * 2 ^ s := by
  rcases Nat.eq_zero_or_pos m with rfl | hpos
  · simp [rounded, quotient, excess]
  · have hlog : m.log2 < 53 := (Nat.log2_lt (by omega)).2 hm
    obtain ⟨k, hk⟩ : ∃ k, k = excess (m * 2 ^ s) := ⟨_, rfl⟩
    have hks : k ≤ s := by
      rw [hk, excess, log2_mul_two_pow hpos]
      omega
    have hsplit : m * 2 ^ s = m * 2 ^ (s - k) * 2 ^ k := by
      rw [Nat.mul_assoc, ← Nat.pow_add, Nat.sub_add_cancel hks]
    have hq : quotient k (m * 2 ^ s) = m * 2 ^ (s - k) := by
      have := quotient_add_mul 0 k (m * 2 ^ (s - k))
      rwa [Nat.zero_add, quotient_zero, ← hsplit] at this
    rw [rounded, ← hk, hq, ← hsplit]

end Waybill.Rounding
