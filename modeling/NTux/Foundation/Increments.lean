import Mathlib.Algebra.Order.Group.Abs
import Mathlib.Algebra.Order.Ring.Int
import Mathlib.Tactic.Linarith
import Mathlib.Tactic.Ring

/-! # Equal steps in fixed point

A distance is covered in `steps` steps of one length, which is the quotient in units of one
`scale`-th, rounded towards zero (`increment`). The rounding errors add up, so that the last
step may end before the distance does: it is where it should be if the quotient is exact, and
going down also if less than one whole is lost (`position_last`).
-/

namespace NTux.Foundation

/-- The length of a step. -/
def increment (scale distance steps : Int) : Int := (distance * scale).tdiv steps

/-- Where so many steps from `start` lead, in whole numbers. -/
def position (scale start distance steps i : Int) : Int :=
  (start * scale + i * increment scale distance steps) / scale

/-- The steps lose nothing of the distance upwards, and less than one whole downwards. -/
def Lands (scale distance steps : Int) : Prop :=
  (0 ≤ distance → distance * scale % steps = 0) ∧
    (distance < 0 → -distance * scale % steps < scale)

instance (scale distance steps : Int) : Decidable (Lands scale distance steps) :=
  inferInstanceAs (Decidable (_ ∧ _))

section

variable {scale distance steps : Int}

theorem increment_nonneg (up : 0 ≤ distance) (fine : 0 < scale) (some : 0 < steps) :
    0 ≤ increment scale distance steps ∧
      steps * increment scale distance steps + distance * scale % steps = distance * scale := by
  have nonneg : 0 ≤ distance * scale := Int.mul_nonneg up fine.le
  rw [increment, Int.tdiv_eq_ediv_of_nonneg nonneg]
  exact ⟨Int.ediv_nonneg nonneg some.le, Int.mul_ediv_add_emod _ _⟩

theorem increment_nonpos (down : distance < 0) (fine : 0 < scale) (some : 0 < steps) :
    increment scale distance steps ≤ 0 ∧
      steps * increment scale distance steps =
        distance * scale + -distance * scale % steps := by
  obtain ⟨nonneg, whole⟩ := increment_nonneg (neg_nonneg.mpr down.le) fine some
  have opposite : increment scale distance steps = -increment scale (-distance) steps := by
    rw [increment, increment, Int.neg_mul, Int.neg_tdiv, neg_neg]
  rw [opposite]
  constructor
  · exact neg_nonpos.mpr nonneg
  · linarith

/-- No step is longer than one whole where there are as many steps as wholes. -/
theorem abs_increment_le (fine : 0 < scale) (some : 0 < steps) (short : |distance| ≤ steps) :
    |increment scale distance steps| ≤ scale := by
  rw [abs_le] at short ⊢
  have most : distance * scale ≤ steps * scale := Int.mul_le_mul_of_nonneg_right short.2 fine.le
  have least : -steps * scale ≤ distance * scale := Int.mul_le_mul_of_nonneg_right short.1 fine.le
  rcases lt_or_ge distance 0 with down | up
  · obtain ⟨nonpos, whole⟩ := increment_nonpos down fine some
    have lost := Int.emod_nonneg (-distance * scale) some.ne'
    refine ⟨?_, nonpos.trans fine.le⟩
    apply le_of_mul_le_mul_left _ some
    linarith
  · obtain ⟨nonneg, whole⟩ := increment_nonneg up fine some
    have lost := Int.emod_nonneg (distance * scale) some.ne'
    refine ⟨(neg_nonpos.mpr fine.le).trans nonneg, ?_⟩
    apply le_of_mul_le_mul_left _ some
    linarith

/-- All of the steps lead to places between the ends. -/
theorem steps_between (fine : 0 < scale) (some : 0 < steps) {i : Int} (start : Int) (low : 0 ≤ i)
    (high : i ≤ steps) :
    min start (start + distance) * scale ≤
        start * scale + i * increment scale distance steps ∧
      start * scale + i * increment scale distance steps ≤
        max start (start + distance) * scale := by
  rcases lt_or_ge distance 0 with down | up
  · obtain ⟨nonpos, whole⟩ := increment_nonpos down fine some
    have lost := Int.emod_nonneg (-distance * scale) some.ne'
    have least : steps * increment scale distance steps ≤ i * increment scale distance steps :=
      Int.mul_le_mul_of_nonpos_right high nonpos
    have most : i * increment scale distance steps ≤ 0 := mul_nonpos_of_nonneg_of_nonpos low nonpos
    rw [min_eq_right (by omega), max_eq_left (by omega), Int.add_mul]
    omega
  · obtain ⟨nonneg, whole⟩ := increment_nonneg up fine some
    have lost := Int.emod_nonneg (distance * scale) some.ne'
    have most : i * increment scale distance steps ≤ steps * increment scale distance steps :=
      Int.mul_le_mul_of_nonneg_right high nonneg
    have least : 0 ≤ i * increment scale distance steps := Int.mul_nonneg low nonneg
    rw [min_eq_left (by omega), max_eq_right (by omega), Int.add_mul]
    omega

theorem position_between (fine : 0 < scale) (some : 0 < steps) {i : Int} (start : Int)
    (low : 0 ≤ i) (high : i ≤ steps) :
    min start (start + distance) ≤ position scale start distance steps i ∧
      position scale start distance steps i ≤ max start (start + distance) := by
  obtain ⟨least, most⟩ := @steps_between scale distance steps fine some i start low high
  constructor
  · exact Int.le_ediv_of_mul_le fine least
  · exact Int.ediv_le_of_le_mul fine most

@[simp] theorem position_zero (fine : 0 < scale) (start : Int) :
    position scale start distance steps 0 = start := by
  rw [position, Int.zero_mul, Int.add_zero, Int.mul_ediv_cancel _ fine.ne']

/-- One step leads to the same whole number or to one next to it. -/
theorem position_succ (fine : 0 < scale) (some : 0 < steps) (short : |distance| ≤ steps)
    (start i : Int) :
    |position scale start distance steps (i + 1) - position scale start distance steps i| ≤ 1 := by
  have length := abs_increment_le fine some short
  have next : start * scale + (i + 1) * increment scale distance steps =
      start * scale + i * increment scale distance steps + increment scale distance steps := by
    ring
  rw [position, position, next]
  generalize start * scale + i * increment scale distance steps = place
  generalize increment scale distance steps = step at length
  rw [abs_le] at length ⊢
  have lower : (place + -1 * scale) / scale ≤ (place + step) / scale :=
    Int.ediv_le_ediv fine (by linarith)
  have upper : (place + step) / scale ≤ (place + 1 * scale) / scale :=
    Int.ediv_le_ediv fine (by linarith)
  rw [Int.add_mul_ediv_right _ _ fine.ne'] at lower upper
  omega

/-- A distance of as many wholes as there are steps is covered by the last of them only. -/
theorem eq_steps_of_position (fine : 0 < scale) (some : 0 < steps) (long : |distance| = steps)
    {start i : Int} (reached : position scale start distance steps i = start + distance) :
    i = steps := by
  rcases lt_or_ge distance 0 with down | up
  · obtain rfl : -distance = steps := by rw [← long, abs_of_neg down]
    have step : increment scale distance (-distance) = -scale := by
      rw [increment, Int.tdiv_neg, Int.mul_tdiv_cancel_left _ down.ne]
    have place : start * scale + i * -scale = (start - i) * scale := by ring
    rw [position, step, place, Int.mul_ediv_cancel _ fine.ne'] at reached
    omega
  · obtain rfl : distance = steps := by rw [← long, abs_of_nonneg up]
    have step : increment scale distance distance = scale := by
      rw [increment, Int.mul_tdiv_cancel_left _ some.ne']
    have place : start * scale + i * scale = (start + i) * scale := by ring
    rw [position, step, place, Int.mul_ediv_cancel _ fine.ne'] at reached
    omega

/-- **The last step** is at the end of the distance exactly if too little is lost. -/
theorem position_last (fine : 0 < scale) (some : 0 < steps) (start : Int) :
    position scale start distance steps steps = start + distance ↔ Lands scale distance steps := by
  rcases lt_or_ge distance 0 with down | up
  · obtain ⟨-, whole⟩ := increment_nonpos down fine some
    have lost := Int.emod_nonneg (-distance * scale) some.ne'
    have place : start * scale + steps * increment scale distance steps =
        -distance * scale % steps + (start + distance) * scale := by
      rw [whole]
      ring
    rw [position, place, Int.add_mul_ediv_right _ _ fine.ne', Lands]
    constructor
    · intro reached
      refine ⟨fun up => absurd down (not_lt.mpr up), fun _ => ?_⟩
      have less : -distance * scale % steps / scale < 1 := by omega
      rwa [Int.ediv_lt_iff_lt_mul fine, Int.one_mul] at less
    · rintro ⟨-, less⟩
      rw [Int.ediv_eq_zero_of_lt lost (less down), Int.zero_add]
  · obtain ⟨-, whole⟩ := increment_nonneg up fine some
    have lost := Int.emod_nonneg (distance * scale) some.ne'
    have place : start * scale + steps * increment scale distance steps =
        -(distance * scale % steps) + (start + distance) * scale := by
      linarith
    rw [position, place, Int.add_mul_ediv_right _ _ fine.ne', Lands]
    constructor
    · intro reached
      refine ⟨fun _ => ?_, fun down => absurd down (not_lt.mpr up)⟩
      have zero : -(distance * scale % steps) / scale = 0 := by omega
      have := Int.ediv_nonneg_iff_of_pos fine |>.mp zero.ge
      omega
    · rintro ⟨exact, -⟩
      rw [exact up, neg_zero, Int.zero_ediv, Int.zero_add]

end

end NTux.Foundation
