import Mathlib.Data.Nat.Bitwise

/-! # Alignment by masks

`x & ~(2^k - 1)` rounds a 64-bit number down to a multiple of `2^k`, and joining
two numbers of disjoint bits by `|` adds them.
-/

namespace NTux.Foundation

/-- Clearing the low bits of a 64-bit number rounds it down. -/
theorem land_highMask {x low : Nat} (small : x < 2 ^ 64) (width : low ≤ 64) :
    x &&& (2 ^ 64 - 2 ^ low) = x / 2 ^ low * 2 ^ low := by
  apply Nat.eq_of_testBit_eq
  intro i
  have mask : 2 ^ 64 - 2 ^ low = 2 ^ low * (2 ^ (64 - low) - 1) := by
    rw [Nat.mul_sub, ← Nat.pow_add, Nat.mul_one, Nat.add_sub_cancel' width]
  rw [mask, Nat.mul_comm, Nat.testBit_and, Nat.mul_comm, Nat.testBit_two_pow_mul,
    Nat.testBit_two_pow_sub_one, Nat.mul_comm, Nat.testBit_two_pow_mul, Nat.testBit_div_two_pow]
  by_cases high : low ≤ i
  · simp only [high, decide_true, Bool.true_and, Nat.sub_add_cancel]
    by_cases inside : i < 64
    · have : i - low < 64 - low := by omega
      simp only [this, decide_true, Bool.and_true]
    · have : x.testBit i = false :=
        Nat.testBit_lt_two_pow (small.trans_le (Nat.pow_le_pow_right (by decide) (by omega)))
      simp only [this, Bool.false_and]
  · simp only [high, decide_false, Bool.false_and, Bool.and_false]

/-- Joining a multiple of `2^low` with a smaller number. -/
theorem lor_low {high low value : Nat} (small : value < 2 ^ low) :
    high * 2 ^ low ||| value = high * 2 ^ low + value := by
  rw [Nat.mul_comm, Nat.two_pow_add_eq_or_of_lt small]

end NTux.Foundation
