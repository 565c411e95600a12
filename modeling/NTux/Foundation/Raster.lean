import Mathlib.Data.List.Range

/-! # Loops over the pixels of an image

An image is looked at in some state (`view`), and a step of a loop gives one pixel a value that
it computes from the state (`Puts`). Two loops, one over rows and one over the pixels of a row,
then move an image up in place (`shiftRows`) or fill rows of it (`fillRows`). The rows are moved
from the top, so that none is written before it is read.
-/

namespace NTux.Foundation.Raster

section

variable {State Color : Type} (view : State → Nat → Nat → Color) (width height : Nat)

/-- A step that changes one pixel. -/
def Puts (step : State → State) (x y : Nat) (value : State → Color) : Prop :=
  ∀ s, ∀ x' < width, ∀ y' < height,
    view (step s) x' y' = if x' = x ∧ y' = y then value s else view s x' y'

variable {view width height} {step : Nat → Nat → State → State}

/-- The pixels of a row are taken from another row. -/
theorem copyRow {y source : Nat} (inside : source < height)
    (puts : ∀ x < width, Puts view width height (step y x) x y fun s => view s x source)
    {count : Nat} (most : count ≤ width) (s : State) {x' y' : Nat} (xInside : x' < width)
    (yInside : y' < height) :
    view ((List.range count).foldl (fun s x => step y x s) s) x' y' =
      if x' < count ∧ y' = y then view s x' source else view s x' y' := by
  induction count generalizing x' y' with
  | zero => simp
  | succ count ih =>
      have before := @ih (Nat.le_of_succ_le most)
      rw [List.range_succ, List.foldl_append, List.foldl_cons, List.foldl_nil,
        puts count most _ x' xInside y' yInside, before xInside yInside]
      beta_reduce
      rw [before most inside]
      by_cases here : x' = count ∧ y' = y
      · obtain ⟨rfl, rfl⟩ := here
        rw [if_pos ⟨rfl, rfl⟩, if_neg (fun both => absurd both.1 (lt_irrefl _)),
          if_pos ⟨Nat.lt_succ_self _, rfl⟩]
      · have same : (x' < count + 1 ∧ y' = y) ↔ (x' < count ∧ y' = y) := by omega
        rw [if_neg here]
        simp only [same]

/-- **Moving an image up.** Every row is read before it is written. -/
theorem shiftRows {rows : Nat}
    (puts : ∀ y, y + rows < height → ∀ x < width,
      Puts view width height (step y x) x y fun s => view s x (y + rows))
    {count : Nat} (most : count + rows ≤ height) (s : State) {x' y' : Nat} (xInside : x' < width)
    (yInside : y' < height) :
    view ((List.range count).foldl (fun s y =>
        (List.range width).foldl (fun s x => step y x s) s) s) x' y' =
      if y' < count then view s x' (y' + rows) else view s x' y' := by
  induction count generalizing x' y' with
  | zero => simp
  | succ count ih =>
      have before := @ih (by omega)
      have inside : count + rows < height := by omega
      rw [List.range_succ, List.foldl_append, List.foldl_cons, List.foldl_nil,
        copyRow inside (puts count inside) (le_refl width) _ xInside yInside,
        before xInside inside, before xInside yInside]
      by_cases here : y' = count
      · subst here
        rw [if_pos ⟨xInside, rfl⟩, if_neg (by omega), if_pos (Nat.lt_succ_self _)]
      · have same : y' < count + 1 ↔ y' < count := by omega
        rw [if_neg fun both => here both.2]
        simp only [same]

/-- The first pixels of a row get a color. -/
theorem fillRow {y : Nat} {color : Color}
    (puts : ∀ x < width, Puts view width height (step y x) x y fun _ => color) {count : Nat}
    (most : count ≤ width) (s : State) {x' y' : Nat} (xInside : x' < width)
    (yInside : y' < height) :
    view ((List.range count).foldl (fun s x => step y x s) s) x' y' =
      if x' < count ∧ y' = y then color else view s x' y' := by
  induction count with
  | zero => simp
  | succ count ih =>
      rw [List.range_succ, List.foldl_append, List.foldl_cons, List.foldl_nil,
        puts count most _ x' xInside y' yInside, ih (Nat.le_of_succ_le most)]
      by_cases here : x' = count ∧ y' = y
      · rw [if_pos here, if_pos ⟨by omega, here.2⟩]
      · have same : (x' < count + 1 ∧ y' = y) ↔ (x' < count ∧ y' = y) := by omega
        rw [if_neg here]
        simp only [same]

/-- **Filling rows.** -/
theorem fillRows {first : Nat} {color : Color}
    (puts : ∀ y, y < height → ∀ x < width, Puts view width height (step y x) x y fun _ => color)
    {count : Nat} (most : first + count ≤ height) (s : State) {x' y' : Nat} (xInside : x' < width)
    (yInside : y' < height) :
    view ((List.range' first count).foldl (fun s y =>
        (List.range width).foldl (fun s x => step y x s) s) s) x' y' =
      if first ≤ y' ∧ y' < first + count then color else view s x' y' := by
  induction count with
  | zero =>
      rw [if_neg (by omega)]
      rfl
  | succ count ih =>
      rw [List.range'_concat, List.foldl_append, List.foldl_cons, List.foldl_nil, Nat.one_mul,
        fillRow (puts (first + count) (by omega)) (le_refl width) _ xInside yInside,
        ih (by omega)]
      by_cases here : y' = first + count
      · rw [if_pos ⟨xInside, here⟩, if_pos (by omega)]
      · have same : (first ≤ y' ∧ y' < first + (count + 1)) ↔
            (first ≤ y' ∧ y' < first + count) := by omega
        rw [if_neg fun both => here both.2]
        simp only [same]

end

end NTux.Foundation.Raster
