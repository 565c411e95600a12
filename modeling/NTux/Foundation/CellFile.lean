import NTux.Foundation.Queue
import Mathlib.Data.List.Forall2

/-! # Files of cells

A file is a row of cells, of which some are known, a size, and the place where it is read and
written next. A read stops at the size; a write may go behind it, and what is between the two is
not known then.

What was written is read back, whatever else was asked of the file in between that does not write
to the same cells (`read_back`).
-/

namespace NTux.Foundation

universe u

@[ext] structure CellFile (α : Type u) where
  cells : Nat → Option α
  size : Nat
  place : Nat

/-- What is asked of a file. -/
inductive FileRequest (α : Type u) where
  | seek (place : Nat)
  | read (count : Nat)
  | write (items : List α)

namespace CellFile

variable {α : Type u} {f : CellFile α} {items more : List α} {i low high : Nat}

/-- What is known of the cells from a place on. -/
def row (f : CellFile α) (place count : Nat) : List (Option α) :=
  (List.range count).map fun i => f.cells (place + i)

/-- How many cells a read gives. -/
def readable (count : Nat) (f : CellFile α) : Nat := min count (f.size - f.place)

/-- The file at another place. -/
def moved (place : Nat) (f : CellFile α) : CellFile α := { f with place := place }

/-- The items are laid into the cells from the file's place on. -/
def lay (items : List α) (f : CellFile α) : CellFile α where
  cells i := if f.place ≤ i ∧ i < f.place + items.length then items[i - f.place]? else f.cells i
  size := f.size
  place := f.place + items.length

/-- The size reaches to the file's place. -/
def fitted (f : CellFile α) : CellFile α := { f with size := max f.size f.place }

/-- A file answers a request with the number of cells that were read or written, and with what is
known of those that were read. -/
def serve (f : CellFile α) : FileRequest α → (Nat × List (Option α)) × CellFile α
  | .seek place => ((0, []), f.moved place)
  | .read count => ((f.readable count, f.row f.place (f.readable count)),
      f.moved (f.place + f.readable count))
  | .write items => ((items.length, []), (f.lay items).fitted)

/-- Items are what is known of cells, as far as something is. -/
def Tells : List (Option α) → List α → Prop := List.Forall₂ fun known item => ∀ x ∈ known, x = item

/-- Where all is known, it is what there is. -/
theorem tells_map_some {items got : List α} (tells : Tells (items.map some) got) : got = items := by
  have same : List.Forall₂ (· = ·) items got :=
    (List.forall₂_map_left_iff.mp tells).imp fun item _ known => known item rfl
  rw [List.forall₂_eq_eq_eq] at same
  exact same.symm

/-! ## Rows -/

@[simp] theorem length_row (f : CellFile α) (place count : Nat) :
    (f.row place count).length = count := by
  simp [row]

/-- A read says how many cells it gives. -/
theorem serve_read_fst (f : CellFile α) (count : Nat) :
    (f.serve (.read count)).1.1 = (f.serve (.read count)).1.2.length :=
  (length_row f f.place (f.readable count)).symm

theorem row_add (f : CellFile α) (place first second : Nat) :
    f.row place (first + second) = f.row place first ++ f.row (place + first) second := by
  unfold row
  rw [List.range_add, List.map_append, List.map_map]
  refine congrArg _ (List.map_congr_left fun i _ => ?_)
  exact congrArg f.cells (Nat.add_assoc place first i).symm

theorem row_congr {f g : CellFile α} {place count : Nat}
    (same : ∀ i, place ≤ i → i < place + count → f.cells i = g.cells i) :
    f.row place count = g.row place count := by
  refine List.map_congr_left fun i member => ?_
  have less := List.mem_range.mp member
  exact same _ (Nat.le_add_right _ _) (Nat.add_lt_add_left less _)

@[simp] theorem row_moved (f : CellFile α) (place first count : Nat) :
    (f.moved place).row first count = f.row first count := rfl

@[simp] theorem row_fitted (f : CellFile α) (first count : Nat) :
    f.fitted.row first count = f.row first count := rfl

/-! ## Writing -/

theorem cells_lay_of_notMem (outside : i < f.place ∨ f.place + items.length ≤ i) :
    (f.lay items).cells i = f.cells i := if_neg (by omega)

theorem cells_lay_of_mem (low : f.place ≤ i) (high : i < f.place + items.length) :
    (f.lay items).cells i = items[i - f.place]? := if_pos ⟨low, high⟩

/-- Nothing is laid. -/
theorem lay_nil (f : CellFile α) : f.lay [] = f := by
  refine CellFile.ext (funext fun i => ?_) rfl rfl
  refine cells_lay_of_notMem ?_
  rw [List.length_nil]
  omega

/-- Items are laid one part after the other. -/
theorem lay_append (items more : List α) : f.lay (items ++ more) = (f.lay items).lay more := by
  have length : (items ++ more).length = items.length + more.length := List.length_append
  refine CellFile.ext (funext fun i => ?_) rfl ?_
  · by_cases second : f.place + items.length ≤ i ∧ i < f.place + items.length + more.length
    · rw [cells_lay_of_mem (by omega) (by omega),
        cells_lay_of_mem (f := f.lay items) second.1 second.2,
        List.getElem?_append_right (by omega)]
      exact congrArg (more[·]?) (Nat.sub_sub i f.place items.length)
    · rw [@cells_lay_of_notMem _ (f.lay items) more i (by
        change i < f.place + items.length ∨ f.place + items.length + more.length ≤ i
        omega)]
      by_cases first : f.place ≤ i ∧ i < f.place + items.length
      · rw [cells_lay_of_mem first.1 (by omega), cells_lay_of_mem first.1 first.2,
          List.getElem?_append_left (by omega)]
      · rw [cells_lay_of_notMem (by omega), cells_lay_of_notMem (by omega)]
  · change f.place + (items ++ more).length = f.place + items.length + more.length
    rw [length, Nat.add_assoc]

/-- What is laid is there. -/
theorem row_lay (f : CellFile α) (items : List α) :
    (f.lay items).row f.place items.length = items.map some := by
  refine List.ext_getElem (by simp) fun i inside _ => ?_
  have less : i < items.length := by simpa using inside
  simp only [row, List.getElem_map, List.getElem_range]
  rw [cells_lay_of_mem (by omega) (by omega), Nat.add_sub_cancel_left, List.getElem?_eq_getElem less]

/-! ## Runs -/

/-- Requests that follow others are answered in the state behind these. -/
theorem serveAll_append (f : CellFile α) (requests later : List (FileRequest α)) :
    (serveAll serve f (requests ++ later)).2 =
      (serveAll serve (serveAll serve f requests).2 later).2 := by
  induction requests generalizing f with
  | nil => rfl
  | cons request requests ih => exact ih _

/-- The request writes to none of the cells from `low` up to `high`. -/
def Spares (low high : Nat) (f : CellFile α) : FileRequest α → Prop
  | .write items => f.place + items.length ≤ low ∨ high ≤ f.place
  | _ => True

/-- No request of a run writes to these cells. -/
def SparesAll (low high : Nat) : CellFile α → List (FileRequest α) → Prop
  | _, [] => True
  | f, request :: requests =>
      f.Spares low high request ∧ SparesAll low high (f.serve request).2 requests

instance (low high : Nat) (f : CellFile α) (request : FileRequest α) :
    Decidable (f.Spares low high request) :=
  match request with
  | .seek _ => .isTrue trivial
  | .read _ => .isTrue trivial
  | .write items => inferInstanceAs (Decidable (f.place + items.length ≤ low ∨ high ≤ f.place))

/-- Whether a run writes to these cells. -/
instance decidableSparesAll : ∀ (low high : Nat) (f : CellFile α) (requests : List (FileRequest α)),
    Decidable (SparesAll low high f requests)
  | _, _, _, [] => .isTrue trivial
  | low, high, f, request :: requests =>
      have := decidableSparesAll low high (f.serve request).2 requests
      inferInstanceAs (Decidable (f.Spares low high request ∧
        SparesAll low high (f.serve request).2 requests))

theorem serve_cells {request : FileRequest α} (spares : f.Spares low high request)
    (from_low : low ≤ i) (to_high : i < high) : (f.serve request).2.cells i = f.cells i := by
  cases request with
  | seek place => rfl
  | read count => rfl
  | write items =>
      change (f.lay items).cells i = f.cells i
      refine cells_lay_of_notMem ?_
      rcases spares with below | above
      · omega
      · omega

theorem serve_size (f : CellFile α) (request : FileRequest α) :
    f.size ≤ (f.serve request).2.size := by
  cases request with
  | seek place => exact le_rfl
  | read count => exact le_rfl
  | write items => exact le_max_left _ _

/-- **Frame.** Cells that no request writes to are as they were. -/
theorem serveAll_cells {requests : List (FileRequest α)} (spares : SparesAll low high f requests)
    (from_low : low ≤ i) (to_high : i < high) :
    (serveAll serve f requests).2.cells i = f.cells i := by
  induction requests generalizing f with
  | nil => rfl
  | cons request requests ih =>
      exact (ih spares.2).trans (serve_cells spares.1 from_low to_high)

/-- A file gets no smaller. -/
theorem serveAll_size (f : CellFile α) (requests : List (FileRequest α)) :
    f.size ≤ (serveAll serve f requests).2.size := by
  induction requests generalizing f with
  | nil => exact le_rfl
  | cons request requests ih => exact (serve_size f request).trans (ih _)

/-- **Read back.** What was written is read again, where no request in between writes to it. -/
theorem read_back (f : CellFile α) {items : List α} {requests : List (FileRequest α)}
    (spares : SparesAll f.place (f.place + items.length) (f.serve (.write items)).2 requests) :
    ((serveAll serve (f.serve (.write items)).2 (requests ++ [.seek f.place])).2.serve
      (.read items.length)).1.2 = items.map some := by
  obtain ⟨later, reached⟩ : ∃ later,
    (serveAll serve (f.serve (.write items)).2 requests).2 = later := ⟨_, rfl⟩
  have inside : f.place + items.length ≤ later.size :=
    (le_max_right _ _).trans (reached ▸ serveAll_size (f.serve (.write items)).2 requests)
  have all : (later.moved f.place).readable items.length = items.length := by
    change min items.length (later.size - f.place) = items.length
    omega
  rw [serveAll_append, reached]
  change (later.moved f.place).row f.place ((later.moved f.place).readable items.length) = _
  rw [all, row_moved, ← row_lay f items]
  refine row_congr fun i from_low to_high => ?_
  rw [← reached]
  exact serveAll_cells spares from_low to_high

end CellFile

end NTux.Foundation
