import NTux.Console.OnScreen
import NTux.Foundation.Increments
import Mathlib.Data.List.Chain
import Mathlib.Data.List.Range

/-! # Lines on the screen

`drivers/gpu/virtio/virtio.c`. A line is drawn in as many steps as its longer side has pixels,
in fixed point with 8 bits behind the point. The rounding errors of the shorter side add up,
so that the last step may miss the end of the line, and between equal points the number of
steps, which is divided by, is zero (`lineRight_iff`).
-/

namespace NTux.Drivers

open NTux.Foundation NTux.Console

/-- The words from `base_address`. -/
abbrev Image := Nat → Nat

structure VirtioGpu where
  width : Nat
  height : Nat
  stride : Nat

/-- `virtio_gpu`, as `virtio_gpu_init` leaves it. -/
def virtioGpu : VirtioGpu := { width := 1920, height := 1080, stride := 1920 * 4 }

/-- The `uint32_t` that is congruent to a number. -/
def uint32 (n : Int) : Nat := (n % 0x100000000).toNat

/-- The word of a pixel. -/
def pixelWord (pixel : Nat × Nat) : Nat := uint32 (pixel.2 * virtioGpu.stride) / 4 + pixel.1

/-- `virtio_gpu_draw_pixel` -/
def virtioGpuDrawPixel (color : Nat) (image : Image) (pixel : Nat × Nat) : Image :=
  if virtioGpu.width ≤ pixel.1 ∨ virtioGpu.height ≤ pixel.2 then image
  else Function.update image (pixelWord pixel) color

/-- `abs` -/
def intAbs (x : Int) : Int := if x < 0 then int (-x) else x

/-- The pixels of so many turns of the loop of `virtio_gpu_draw_line`. -/
def lineLoop (xIncrement yIncrement : Int) : Nat → Int → Int → List (Nat × Nat)
  | 0, _, _ => []
  | turns + 1, x, y =>
      (uint32 (x.tdiv 256), uint32 (y.tdiv 256)) ::
        lineLoop xIncrement yIncrement turns (int (x + xIncrement)) (int (y + yIncrement))

/-- The pixels that `virtio_gpu_draw_line` draws, unless it divides by zero. -/
def linePixels (x1 y1 x2 y2 : Nat) : Option (List (Nat × Nat)) :=
  let dx := int (x2 - x1)
  let dy := int (y2 - y1)
  let steps := if intAbs dx > intAbs dy then intAbs dx else intAbs dy
  if steps = 0 then none
  else
    let xIncrement := int ((int (dx * 256)).tdiv steps)
    let yIncrement := int ((int (dy * 256)).tdiv steps)
    some (lineLoop xIncrement yIncrement (steps + 1).toNat (int (x1 * 256)) (int (y1 * 256)))

/-- `virtio_gpu_draw_line` -/
def virtioGpuDrawLine (x1 y1 x2 y2 color : Nat) (image : Image) : Option Image :=
  (linePixels x1 y1 x2 y2).map fun pixels => pixels.foldl (virtioGpuDrawPixel color) image

/-! ## Pixels -/

def InScreen (pixel : Nat × Nat) : Prop :=
  pixel.1 < virtioGpu.width ∧ pixel.2 < virtioGpu.height

instance (pixel : Nat × Nat) : Decidable (InScreen pixel) := inferInstanceAs (Decidable (_ ∧ _))

theorem pixelWord_eq {pixel : Nat × Nat} (inside : InScreen pixel) :
    pixelWord pixel = pixel.2 * 1920 + pixel.1 := by
  obtain ⟨x, y⟩ := pixel
  have low : y < 1080 := inside.2
  have stride : virtioGpu.stride = 7680 := rfl
  rw [pixelWord, uint32, stride]
  omega

theorem pixelWord_injOn : Set.InjOn pixelWord {pixel | InScreen pixel} := by
  rintro ⟨x, y⟩ inside ⟨x', y'⟩ inside' same
  rw [pixelWord_eq inside, pixelWord_eq inside'] at same
  have left : x < 1920 := inside.1
  have left' : x' < 1920 := inside'.1
  obtain ⟨rfl, rfl⟩ : x = x' ∧ y = y' := by omega
  rfl

/-- What is at a pixel after others have been drawn. -/
theorem drawPixels_at {pixels : List (Nat × Nat)} (inside : ∀ pixel ∈ pixels, InScreen pixel)
    {pixel : Nat × Nat} (here : InScreen pixel) (color : Nat) (image : Image) :
    pixels.foldl (virtioGpuDrawPixel color) image (pixelWord pixel) =
      if pixel ∈ pixels then color else image (pixelWord pixel) := by
  induction pixels generalizing image with
  | nil => rfl
  | cons head rest ih =>
      have headInside := inside head List.mem_cons_self
      have drawn : virtioGpuDrawPixel color image head =
          Function.update image (pixelWord head) color := by
        apply if_neg
        rintro (right | below)
        · exact absurd headInside.1 (Nat.not_lt.mpr right)
        · exact absurd headInside.2 (Nat.not_lt.mpr below)
      rw [List.foldl_cons, ih (fun pixel member => inside pixel (List.mem_cons_of_mem _ member)),
        drawn]
      by_cases same : pixel = head
      · subst same
        simp
      · have apart : pixelWord pixel ≠ pixelWord head := fun equal =>
          same (pixelWord_injOn here headInside equal)
        rw [Function.update_of_ne apart]
        simp only [List.mem_cons, same, false_or]

/-! ## The steps of a line -/

theorem uint32_toNat {n : Int} (low : 0 ≤ n) (high : n < 0x100000000) : uint32 n = n.toNat := by
  rw [uint32, Int.emod_eq_of_lt low high]

theorem intAbs_eq {x : Int} (low : -0x80000000 < x) (high : x < 0x80000000) : intAbs x = |x| := by
  unfold intAbs
  split_ifs with negative
  · rw [int_of_range (by omega) (by omega), abs_of_neg negative]
  · rw [abs_of_nonneg (not_lt.mp negative)]

/-- A coordinate of the loop that is a number of `uint32_t` and of `int` in all turns. -/
def Stays (increment : Int) (turns : Nat) (z : Int) : Prop :=
  ∀ i : Nat, i < turns → 0 ≤ z + i * increment ∧ z + i * increment < 0x80000000

theorem later_turn (z increment : Int) (i : Nat) :
    z + (i + 1 : Nat) * increment = z + increment + i * increment := by
  push_cast
  ring

namespace Stays

variable {increment z : Int} {turns : Nat}

theorem pixel (stays : Stays increment (turns + 1) z) :
    uint32 (z.tdiv 256) = ((z + (0 : Nat) * increment) / 256).toNat := by
  obtain ⟨low, high⟩ := stays 0 (Nat.succ_pos turns)
  have start : z + (0 : Nat) * increment = z := by simp
  rw [start] at low high ⊢
  rw [Int.tdiv_eq_ediv_of_nonneg low]
  exact uint32_toNat (by omega) (by omega)

theorem next (stays : Stays increment (turns + 1) z) (some : 0 < turns) :
    int (z + increment) = z + increment := by
  obtain ⟨low, high⟩ := stays 1 (Nat.succ_lt_succ some)
  rw [Nat.cast_one, Int.one_mul] at low high
  exact int_of_range (by omega) (by omega)

theorem rest (stays : Stays increment (turns + 1) z) : Stays increment turns (z + increment) := by
  intro i inside
  rw [← later_turn]
  exact stays (i + 1) (Nat.succ_lt_succ inside)

end Stays

/-- The loop without a number that wraps around. -/
theorem lineLoop_eq {xIncrement yIncrement : Int} {turns : Nat} {x y : Int}
    (across : Stays xIncrement turns x) (down : Stays yIncrement turns y) :
    lineLoop xIncrement yIncrement turns x y =
      (List.range turns).map fun i : Nat =>
        (((x + i * xIncrement) / 256).toNat, ((y + i * yIncrement) / 256).toNat) := by
  induction turns generalizing x y with
  | zero => rfl
  | succ turns ih =>
      rw [lineLoop, List.range_succ_eq_map, List.map_cons, List.map_map, across.pixel, down.pixel]
      congr 1
      rcases Nat.eq_zero_or_pos turns with rfl | some
      · rfl
      · rw [across.next some, down.next some, ih across.rest down.rest]
        apply List.map_congr_left
        intro i _
        simp only [Function.comp_apply, Nat.succ_eq_add_one, later_turn]

/-- The steps of a line. -/
def lineSteps (x1 y1 x2 y2 : Nat) : Int := max |(x2 : Int) - x1| |(y2 : Int) - y1|

/-- The pixel of a step. -/
def linePixel (x1 y1 x2 y2 : Nat) (i : Nat) : Nat × Nat :=
  ((position 256 x1 (x2 - x1) (lineSteps x1 y1 x2 y2) i).toNat,
    (position 256 y1 (y2 - y1) (lineSteps x1 y1 x2 y2) i).toNat)

/-- The pixels of all steps. -/
def stepPixels (x1 y1 x2 y2 : Nat) : List (Nat × Nat) :=
  (List.range (lineSteps x1 y1 x2 y2 + 1).toNat).map (linePixel x1 y1 x2 y2)

section

variable {x1 y1 x2 y2 : Nat}

/-- A side of a line on the screen. -/
theorem stays_side {a b : Nat} {steps : Int} (aSmall : a < 1920) (bSmall : b < 1920)
    (some : 0 < steps) : Stays (increment 256 (b - a) steps) (steps + 1).toNat (a * 256) := by
  intro i inside
  have between := @steps_between 256 (b - a) steps (by decide) some i a (by omega) (by omega)
  omega

theorem lineSteps_pos (differ : (x1, y1) ≠ (x2, y2)) : 0 < lineSteps x1 y1 x2 y2 := by
  rw [lineSteps, lt_max_iff, abs_pos, abs_pos]
  by_contra zero
  push Not at zero
  exact differ (Prod.ext (by omega) (by omega))

/-- The steps as the code computes them. -/
theorem steps_eq (first : InScreen (x1, y1)) (last : InScreen (x2, y2)) :
    (if intAbs (int ((x2 : Int) - x1)) > intAbs (int ((y2 : Int) - y1)) then
      intAbs (int ((x2 : Int) - x1)) else intAbs (int ((y2 : Int) - y1))) =
        lineSteps x1 y1 x2 y2 := by
  have left : x1 < 1920 := first.1
  have right : x2 < 1920 := last.1
  have top : y1 < 1080 := first.2
  have bottom : y2 < 1080 := last.2
  rw [int_of_range (by omega) (by omega), int_of_range (by omega) (by omega),
    intAbs_eq (by omega) (by omega), intAbs_eq (by omega) (by omega), lineSteps]
  split_ifs with longer
  · exact (max_eq_left (le_of_lt longer)).symm
  · exact (max_eq_right (not_lt.mp longer)).symm

/-- An increment as the code computes it. -/
theorem increment_eq {a b : Nat} {steps : Int} (aSmall : a < 1920) (bSmall : b < 1920)
    (some : 0 < steps) (short : |(b : Int) - a| ≤ steps) :
    int ((int (int ((b : Int) - a) * 256)).tdiv steps) = increment 256 (b - a) steps := by
  have length := @abs_increment_le 256 _ _ (by decide) some short
  have distance : int ((b : Int) - a) = b - a := int_of_range (by omega) (by omega)
  have scaled : int (((b : Int) - a) * 256) = (b - a) * 256 := int_of_range (by omega) (by omega)
  rw [abs_le] at length
  rw [distance, scaled]
  change int (increment 256 (b - a) steps) = increment 256 (b - a) steps
  exact int_of_range (by omega) (by omega)

/-- **The pixels of a line** between points of the screen. -/
theorem linePixels_eq (first : InScreen (x1, y1)) (last : InScreen (x2, y2)) :
    linePixels x1 y1 x2 y2 =
      if (x1, y1) = (x2, y2) then none else some (stepPixels x1 y1 x2 y2) := by
  have left : x1 < 1920 := first.1
  have right : x2 < 1920 := last.1
  have top : y1 < 1080 := first.2
  have bottom : y2 < 1080 := last.2
  simp only [linePixels, steps_eq first last]
  split_ifs with zero same same
  · rfl
  · exact absurd zero (lineSteps_pos same).ne'
  · obtain ⟨rfl, rfl⟩ := Prod.mk.inj same
    simp [lineSteps] at zero
  · have some := lineSteps_pos same
    rw [increment_eq left right some (le_max_left _ _),
      increment_eq (top.trans (by decide)) (bottom.trans (by decide)) some (le_max_right _ _),
      int_of_range (by omega) (by omega), int_of_range (by omega) (by omega),
      lineLoop_eq (stays_side left right some)
        (stays_side (top.trans (by decide)) (bottom.trans (by decide)) some)]
    rfl

/-! ## What is to be drawn -/

/-- A pixel in the smallest box that has both points. -/
def InBox (x1 y1 x2 y2 : Nat) (pixel : Nat × Nat) : Prop :=
  (min x1 x2 ≤ pixel.1 ∧ pixel.1 ≤ max x1 x2) ∧ min y1 y2 ≤ pixel.2 ∧ pixel.2 ≤ max y1 y2

/-- Pixels that differ by one at most in either coordinate. -/
def Adjacent (pixel next : Nat × Nat) : Prop :=
  |(next.1 : Int) - pixel.1| ≤ 1 ∧ |(next.2 : Int) - pixel.2| ≤ 1

/-- A line is drawn without a division by zero, both points get its color, no pixel outside
their box is drawn, and the pixels of successive steps are adjacent. -/
def LineRight (x1 y1 x2 y2 : Nat) : Prop :=
  ∃ pixels, linePixels x1 y1 x2 y2 = some pixels ∧
    (∀ color image after, virtioGpuDrawLine x1 y1 x2 y2 color image = some after →
      after (pixelWord (x1, y1)) = color ∧ after (pixelWord (x2, y2)) = color) ∧
    (∀ pixel ∈ pixels, InBox x1 y1 x2 y2 pixel) ∧ pixels.IsChain Adjacent

/-- The steps meet the end of both sides. -/
def MeetsEnd (x1 y1 x2 y2 : Nat) : Prop :=
  Lands 256 (x2 - x1) (lineSteps x1 y1 x2 y2) ∧ Lands 256 (y2 - y1) (lineSteps x1 y1 x2 y2)

instance : Decidable (MeetsEnd x1 y1 x2 y2) := inferInstanceAs (Decidable (_ ∧ _))

theorem position_side {a b : Nat} {steps : Int} (some : 0 < steps) {i : Nat} (inside : i ≤ steps) :
    (min a b : Nat) ≤ position 256 a (b - a) steps i ∧
      position 256 a (b - a) steps i ≤ (max a b : Nat) := by
  have between := @position_between 256 (b - a) steps (by decide) some i a (by omega) inside
  rw [add_sub_cancel] at between
  exact_mod_cast between

theorem linePixel_inBox (some : 0 < lineSteps x1 y1 x2 y2) {i : Nat}
    (inside : i ≤ lineSteps x1 y1 x2 y2) : InBox x1 y1 x2 y2 (linePixel x1 y1 x2 y2 i) := by
  have across := @position_side x1 x2 _ some i inside
  have down := @position_side y1 y2 _ some i inside
  simp only [InBox, linePixel]
  omega

theorem linePixel_adjacent (some : 0 < lineSteps x1 y1 x2 y2) {i : Nat}
    (inside : i < lineSteps x1 y1 x2 y2) :
    Adjacent (linePixel x1 y1 x2 y2 i) (linePixel x1 y1 x2 y2 (i + 1)) := by
  have side {a b : Nat} (short : |(b : Int) - a| ≤ lineSteps x1 y1 x2 y2) :
      |((position 256 a (b - a) (lineSteps x1 y1 x2 y2) (i + 1 : Nat)).toNat : Int) -
        (position 256 a (b - a) (lineSteps x1 y1 x2 y2) i).toNat| ≤ 1 := by
    have here := @position_side a b _ some i (le_of_lt inside)
    have there := @position_side a b _ some (i + 1) (by omega)
    have step := @position_succ 256 _ _ (by decide) some short a i
    rw [Int.toNat_of_nonneg (by omega), Int.toNat_of_nonneg (by omega)]
    exact_mod_cast step
  exact ⟨side (le_max_left _ _), side (le_max_right _ _)⟩

/-- The last point is the pixel of the last step or of none. -/
theorem linePixel_eq_last (some : 0 < lineSteps x1 y1 x2 y2) {i : Nat}
    (inside : i ≤ lineSteps x1 y1 x2 y2) :
    linePixel x1 y1 x2 y2 i = (x2, y2) ↔ i = lineSteps x1 y1 x2 y2 ∧ MeetsEnd x1 y1 x2 y2 := by
  have side {a b : Nat} :
      (position 256 a (b - a) (lineSteps x1 y1 x2 y2) i).toNat = b ↔
        position 256 a (b - a) (lineSteps x1 y1 x2 y2) i = a + (b - a) := by
    have here := @position_side a b _ some i inside
    omega
  have lands {a b : Nat} :
      position 256 a (b - a) (lineSteps x1 y1 x2 y2) (lineSteps x1 y1 x2 y2) = a + (b - a) ↔
        Lands 256 (b - a) (lineSteps x1 y1 x2 y2) :=
    position_last (by decide) some _
  rw [linePixel, Prod.mk.injEq, side, side, MeetsEnd]
  constructor
  · rintro ⟨across, down⟩
    have last : (i : Int) = lineSteps x1 y1 x2 y2 := by
      -- one of the sides has as many pixels as there are steps
      rcases max_choice |(x2 : Int) - x1| |(y2 : Int) - y1| with longer | longer
      · exact eq_steps_of_position (by decide) some longer.symm across
      · exact eq_steps_of_position (by decide) some longer.symm down
    rw [last, lands] at across down
    exact ⟨last, across, down⟩
  · rintro ⟨last, across, down⟩
    rw [last, lands, lands]
    exact ⟨across, down⟩

theorem linePixel_zero : linePixel x1 y1 x2 y2 0 = (x1, y1) := by
  simp [linePixel]

theorem InBox.inScreen {pixel : Nat × Nat} (inside : InBox x1 y1 x2 y2 pixel)
    (first : InScreen (x1, y1)) (last : InScreen (x2, y2)) : InScreen pixel :=
  ⟨inside.1.2.trans_lt (max_lt first.1 last.1), inside.2.2.trans_lt (max_lt first.2 last.2)⟩

theorem stepPixels_inBox (some : 0 < lineSteps x1 y1 x2 y2) :
    ∀ pixel ∈ stepPixels x1 y1 x2 y2, InBox x1 y1 x2 y2 pixel := by
  intro pixel member
  obtain ⟨i, inside, rfl⟩ := List.mem_map.mp member
  rw [List.mem_range] at inside
  exact linePixel_inBox some (by omega)

theorem stepPixels_adjacent (some : 0 < lineSteps x1 y1 x2 y2) :
    (stepPixels x1 y1 x2 y2).IsChain Adjacent := by
  rw [stepPixels, List.isChain_map, List.isChain_range]
  intro i inside
  exact linePixel_adjacent some (by omega)

theorem first_mem_stepPixels (some : 0 < lineSteps x1 y1 x2 y2) :
    (x1, y1) ∈ stepPixels x1 y1 x2 y2 :=
  List.mem_map.mpr ⟨0, List.mem_range.mpr (by omega), linePixel_zero⟩

theorem last_mem_stepPixels (some : 0 < lineSteps x1 y1 x2 y2) :
    (x2, y2) ∈ stepPixels x1 y1 x2 y2 ↔ MeetsEnd x1 y1 x2 y2 := by
  rw [stepPixels, List.mem_map]
  constructor
  · rintro ⟨i, inside, ends⟩
    rw [List.mem_range] at inside
    exact ((linePixel_eq_last some (by omega)).mp ends).2
  · intro meets
    refine ⟨(lineSteps x1 y1 x2 y2).toNat, List.mem_range.mpr (by omega), ?_⟩
    exact (linePixel_eq_last some (by omega)).mpr ⟨Int.toNat_of_nonneg some.le, meets⟩

/-- What is at a pixel of the screen when a line has been drawn. -/
theorem virtioGpuDrawLine_at (first : InScreen (x1, y1)) (last : InScreen (x2, y2))
    {color : Nat} {image after : Image}
    (returned : virtioGpuDrawLine x1 y1 x2 y2 color image = some after) {pixel : Nat × Nat}
    (inside : InScreen pixel) :
    after (pixelWord pixel) =
      if pixel ∈ stepPixels x1 y1 x2 y2 then color else image (pixelWord pixel) := by
  rw [virtioGpuDrawLine, linePixels_eq first last] at returned
  split_ifs at returned with same
  · cases returned
  · obtain rfl := Option.some.inj returned
    have box := stepPixels_inBox (lineSteps_pos same)
    exact drawPixels_at (fun pixel member => (box pixel member).inScreen first last) inside color image

/-- **Lines.** A line is right if its points differ and its steps meet the end. -/
theorem lineRight_iff (first : InScreen (x1, y1)) (last : InScreen (x2, y2)) :
    LineRight x1 y1 x2 y2 ↔ (x1, y1) ≠ (x2, y2) ∧ MeetsEnd x1 y1 x2 y2 := by
  rw [LineRight, linePixels_eq first last]
  by_cases same : (x1, y1) = (x2, y2)
  · rw [if_pos same]
    constructor
    · rintro ⟨pixels, none, -⟩
      cases none
    · rintro ⟨differ, -⟩
      exact absurd same differ
  rw [if_neg same]
  have some := lineSteps_pos same
  constructor
  · rintro ⟨pixels, -, points, -⟩
    refine ⟨same, ?_⟩
    have returned : virtioGpuDrawLine x1 y1 x2 y2 1 (fun _ => 0) =
        Option.some ((stepPixels x1 y1 x2 y2).foldl (virtioGpuDrawPixel 1) fun _ => 0) := by
      rw [virtioGpuDrawLine, linePixels_eq first last, if_neg same]
      rfl
    have color := (points _ _ _ returned).2
    rw [virtioGpuDrawLine_at first last returned last] at color
    by_contra misses
    rw [if_neg (mt (last_mem_stepPixels some).mp misses)] at color
    exact absurd color (by decide)
  · rintro ⟨-, meets⟩
    refine ⟨_, rfl, fun color image after returned => ⟨?_, ?_⟩, stepPixels_inBox some,
      stepPixels_adjacent some⟩
    · rw [virtioGpuDrawLine_at first last returned first, if_pos (first_mem_stepPixels some)]
    · rw [virtioGpuDrawLine_at first last returned last,
        if_pos ((last_mem_stepPixels some).mpr meets)]

end

/-- A line to the left and down, half as high as it is wide. -/
theorem lineRight_down : LineRight 1919 0 1519 200 :=
  (lineRight_iff (by decide) (by decide)).mpr ⟨by decide, by decide⟩

/-- The number of steps from a point to itself is zero. -/
theorem lineRight_point : ¬ LineRight 7 7 7 7 := by
  rintro ⟨pixels, drawn, -⟩
  cases drawn

/-- Three steps to the right end above the pixel below. -/
example : linePixels 0 0 3 1 = some [(0, 0), (1, 0), (2, 0), (3, 0)] := by decide

end NTux.Drivers
