import Mathlib.Logic.Function.Basic

/-! # Reversal in place

Two indices that move towards each other and swap what they meet turn a segment around and leave
everything outside of it alone (`swapInwards_apply`).
-/

namespace NTux.Foundation

variable {α : Type}

/-- The cells at two places swapped, then the ones between them, until the places meet. -/
def swapInwards (i j : Nat) (cells : Nat → α) : Nat → α :=
  if i < j then
    swapInwards (i + 1) (j - 1) (Function.update (Function.update cells i (cells j)) j (cells i))
  else cells
termination_by j - i

/-- **Reversal.** -/
theorem swapInwards_apply (i j : Nat) (cells : Nat → α) (k : Nat) :
    swapInwards i j cells k = if i ≤ k ∧ k ≤ j then cells (i + j - k) else cells k := by
  fun_induction swapInwards i j cells with
  | case1 i j cells less ih =>
      rw [ih]
      by_cases inner : i + 1 ≤ k ∧ k ≤ j - 1
      · -- The cells strictly between the places are swapped by the later turns.
        have place : i + 1 + (j - 1) - k = i + j - k := by omega
        rw [if_pos inner, if_pos (by omega), place, Function.update_of_ne (by omega),
          Function.update_of_ne (by omega)]
      · rw [if_neg inner]
        by_cases last : k = j
        · subst last
          rw [Function.update_self, if_pos (by omega), Nat.add_sub_cancel]
        · rw [Function.update_of_ne last]
          by_cases first : k = i
          · subst first
            rw [Function.update_self, if_pos (by omega), Nat.add_sub_cancel_left]
          · rw [Function.update_of_ne first, if_neg (by omega)]
  | case2 i j cells notLess =>
      split
      · next inside =>
          have place : i + j - k = k := by omega
          rw [place]
      · rfl

end NTux.Foundation
