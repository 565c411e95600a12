import NTux.Console.Text
import NTux.Foundation.Runs

/-! # Text stays on the screen

A cursor whose cell is on the screen (`Cursor.OnScreen`) stays there when a character is
put at it. A line end does not scroll, so it keeps the cursor on the screen only where there
is another row below (`Print.HasRows`).
-/

namespace NTux.Console

open NTux.Foundation

/-- A number in the range of `int` is its own value. -/
theorem int_of_range {n : Int} (low : -0x80000000 ≤ n) (high : n < 0x80000000) : int n = n := by
  unfold int
  omega

theorem int_le {n : Int} (nonnegative : 0 ≤ n) : int n ≤ n := by
  unfold int
  omega

theorem int_range (n : Int) : -0x80000000 ≤ int n ∧ int n < 0x80000000 := by
  unfold int
  omega

/-- A height less three, unless the difference wraps around to the largest numbers. -/
theorem int_sub_three_le {n : Int} (nonnegative : 0 ≤ n)
    (small : int (int n - 3) + 8 < 0x80000000) : int (int n - 3) ≤ n := by
  have less := int_le nonnegative
  have range := int_range n
  generalize int n = m at *
  by_cases wraps : m - 3 < -0x80000000
  · have wrapped : int (m - 3) = m - 3 + 0x100000000 := by
      unfold int
      omega
    omega
  · rw [int_of_range (not_lt.mp wraps) (by omega)]
    omega

/-! ## The cell of the cursor -/

structure Cursor.OnScreen (cursor : Cursor) : Prop where
  left : 0 ≤ cursor.x
  right : cursor.x + cursor.charWidth ≤ cursor.screenWidth
  top : 0 ≤ cursor.y
  bottom : cursor.y + cursor.charHeight ≤ cursor.screenHeight

/-- The size of the text screen in `int`, with room for a character and for the sums that the
cursor's moves compute. -/
structure Framebuffer.Fits (fb : Framebuffer) : Prop where
  width : 8 ≤ int fb.width ∧ int fb.width + 8 < 0x80000000
  height : 8 ≤ int (int fb.height - 3) ∧ int (int fb.height - 3) + 8 < 0x80000000

/-- The cursor has the sizes that `init_fb` gave it. -/
structure Screen.Sized (s : Screen) (fb : Framebuffer) : Prop where
  buffer : s.fb = fb
  charWidth : s.cursor.charWidth = 8
  charHeight : s.cursor.charHeight = 8
  screenWidth : s.cursor.screenWidth = int fb.width
  screenHeight : s.cursor.screenHeight = int (int fb.height - 3)

/-- The sizes are right and the cursor is on the screen. -/
structure Screen.Placed (s : Screen) (fb : Framebuffer) : Prop where
  sized : s.Sized fb
  onScreen : s.cursor.OnScreen

theorem placed_initFb {fb : Framebuffer} (fits : fb.Fits) (memory : Memory) :
    (initFb fb memory).Placed fb where
  sized := ⟨rfl, rfl, rfl, rfl, rfl⟩
  onScreen := by
    refine ⟨le_refl 0, ?_, le_refl 0, ?_⟩
    · simpa only [initFb, initCursor, Int.zero_add] using fits.width.1
    · simpa only [initFb, initCursor, Int.zero_add] using fits.height.1

/-- Every pixel of a cell on the screen is a pixel of the framebuffer. -/
theorem Screen.Placed.cell {s : Screen} {fb : Framebuffer} (placed : s.Placed fb) (fits : fb.Fits)
    {x y : Int} (member : (x, y) ∈ s.cursor.cell) :
    0 ≤ x ∧ x < fb.width ∧ 0 ≤ y ∧ y < fb.height := by
  obtain ⟨row, rowInside, rest⟩ := List.mem_flatMap.mp member
  obtain ⟨col, colInside, equal⟩ := List.mem_map.mp rest
  obtain ⟨rfl, rfl⟩ := Prod.mk.inj equal
  rw [List.mem_range] at rowInside colInside
  obtain ⟨left, right, top, bottom⟩ := placed.onScreen
  obtain ⟨-, charWidth, charHeight, screenWidth, screenHeight⟩ := placed.sized
  rw [charWidth] at colInside right
  rw [charHeight] at rowInside bottom
  rw [screenWidth] at right
  rw [screenHeight] at bottom
  have widthFits := fits.width
  have heightFits := fits.height
  have wide : int fb.width ≤ fb.width := int_le (Int.natCast_nonneg _)
  have high : int (int fb.height - 3) ≤ fb.height :=
    int_sub_three_le (Int.natCast_nonneg _) heightFits.2
  generalize int (int fb.height - 3) = screenHeight' at *
  generalize int fb.width = screenWidth' at *
  rw [int_of_range (by omega) (by omega), int_of_range (by omega) (by omega)]
  omega

/-! ## Moves of the cursor -/

/-- A move to a cell on the screen. -/
theorem Screen.Placed.move {s t : Screen} {fb : Framebuffer} (placed : s.Placed fb) {x y : Int}
    (sameFb : t.fb = s.fb) (moved : t.cursor = { s.cursor with x := x, y := y }) (left : 0 ≤ x)
    (right : x + 8 ≤ int fb.width) (top : 0 ≤ y) (bottom : y + 8 ≤ int (int fb.height - 3)) :
    t.Placed fb := by
  obtain ⟨buffer, charWidth, charHeight, screenWidth, screenHeight⟩ := placed.sized
  refine ⟨⟨sameFb.trans buffer, ?_, ?_, ?_, ?_⟩, ?_⟩
  · rw [moved, charWidth]
  · rw [moved, charHeight]
  · rw [moved, screenWidth]
  · rw [moved, screenHeight]
  · rw [moved]
    refine ⟨left, ?_, top, ?_⟩
    · rw [charWidth, screenWidth]
      exact right
    · rw [charHeight, screenHeight]
      exact bottom

theorem putCharWithCursor_fb (font : Font) (s : Screen) (c : Byte) (color : Nat) :
    (putCharWithCursor font s c color).fb = s.fb := by
  unfold putCharWithCursor
  dsimp only
  split <;> split <;> rfl

theorem Screen.Placed.putChar {s : Screen} {fb : Framebuffer} (placed : s.Placed fb)
    (fits : fb.Fits) (font : Font) (c : Byte) (color : Nat) :
    (putCharWithCursor font s c color).Placed fb := by
  obtain ⟨-, charWidth, charHeight, screenWidth, screenHeight⟩ := placed.sized
  obtain ⟨left, right, top, bottom⟩ := placed.onScreen
  have widthFits := fits.width
  have heightFits := fits.height
  rw [charWidth, screenWidth] at right
  rw [charHeight, screenHeight] at bottom
  have across : int (s.cursor.x + 8) = s.cursor.x + 8 := int_of_range (by omega) (by omega)
  have further : int (s.cursor.x + 8 + 8) = s.cursor.x + 8 + 8 :=
    int_of_range (by omega) (by omega)
  have down : int (s.cursor.y + 8) = s.cursor.y + 8 := int_of_range (by omega) (by omega)
  have lower : int (s.cursor.y + 8 + 8) = s.cursor.y + 8 + 8 :=
    int_of_range (by omega) (by omega)
  have back : int (s.cursor.y + 8 - 8) = s.cursor.y := by
    rw [Int.add_sub_cancel]
    exact int_of_range (by omega) (by omega)
  have sameFb := putCharWithCursor_fb font s c color
  by_cases wraps : int fb.width < s.cursor.x + 8 + 8
  · by_cases scrolls : int (int fb.height - 3) < s.cursor.y + 8 + 8
    · have moved : (putCharWithCursor font s c color).cursor =
          { s.cursor with x := 0, y := s.cursor.y } := by
        simp only [putCharWithCursor, charWidth, charHeight, screenWidth, screenHeight, across,
          further, gt_iff_lt, if_pos wraps, down, lower, if_pos scrolls, back]
      exact placed.move sameFb moved (le_refl 0) (by omega) top bottom
    · have moved : (putCharWithCursor font s c color).cursor =
          { s.cursor with x := 0, y := s.cursor.y + 8 } := by
        simp only [putCharWithCursor, charWidth, charHeight, screenWidth, screenHeight, across,
          further, gt_iff_lt, if_pos wraps, down, lower, if_neg scrolls]
      exact placed.move sameFb moved (le_refl 0) (by omega) (by omega) (by omega)
  · have stays : ¬ int (int fb.height - 3) < s.cursor.y + 8 := not_lt.mpr bottom
    have moved : (putCharWithCursor font s c color).cursor =
        { s.cursor with x := s.cursor.x + 8, y := s.cursor.y } := by
      simp only [putCharWithCursor, charWidth, charHeight, screenWidth, screenHeight, across,
        further, gt_iff_lt, if_neg wraps, down, if_neg stays]
    exact placed.move sameFb moved (by omega) (by omega) top bottom

/-- There is another row below the cursor if the character is a line end. -/
def Screen.HasRow (s : Screen) (c : Byte) : Prop :=
  c = newline → s.cursor.y + 2 * s.cursor.charHeight ≤ s.cursor.screenHeight

theorem Screen.Placed.printChar {s : Screen} {fb : Framebuffer} (placed : s.Placed fb)
    (fits : fb.Fits) (font : Font) (color : Nat) {c : Byte} (room : s.HasRow c) :
    (printChar font color s c).Placed fb := by
  unfold Console.printChar
  split
  · next isNewline =>
      have row := room isNewline
      have widthFits := fits.width
      have heightFits := fits.height
      have top := placed.onScreen.top
      rw [placed.sized.charHeight, placed.sized.screenHeight] at row
      have down : int (s.cursor.y + 8) = s.cursor.y + 8 := int_of_range (by omega) (by omega)
      have moved : ({ s.cursor with x := 0, y := int (s.cursor.y + s.cursor.charHeight) } : Cursor) =
          { s.cursor with x := 0, y := s.cursor.y + 8 } := by
        rw [placed.sized.charHeight, down]
      exact placed.move rfl moved (le_refl 0) widthFits.1 (by omega) (by omega)
  · exact placed.putChar fits font c color

/-! ## Texts -/

/-- Every line end of a text that is printed finds another row below the cursor. -/
def TextHasRows (font : Font) (color : Nat) : List Byte → Screen → Prop
  | [], _ => True
  | c :: rest, s =>
      c ≠ 0 → s.HasRow c ∧ TextHasRows font color rest (printChar font color s c)

theorem Screen.Placed.printText {s : Screen} {fb : Framebuffer} (placed : s.Placed fb)
    (fits : fb.Fits) {font : Font} {color : Nat} {text : List Byte}
    (rows : TextHasRows font color text s) : (printText font color text s).Placed fb := by
  induction text generalizing s with
  | nil => exact placed
  | cons c rest ih =>
      rw [Console.printText]
      split
      · exact placed
      · next more =>
          obtain ⟨room, later⟩ := rows more
          exact ih (placed.printChar fits font color room) later

/-- Every line end of the call finds another row below the cursor. -/
def Print.HasRows (font : Font) (s : Screen) (print : Print) : Prop :=
  TextHasRows font print.color print.text s

/-- The cursor is on the screen, and its cell in the framebuffer. -/
structure Screen.Shows (s : Screen) : Prop where
  onScreen : s.cursor.OnScreen
  cell : ∀ x y, (x, y) ∈ s.cursor.cell → 0 ≤ x ∧ x < s.fb.width ∧ 0 ≤ y ∧ y < s.fb.height

/-- **The console.** As long as no line ends on the last row, the cursor stays on the screen
and its cell in the framebuffer. -/
theorem print_onScreen {font : Font} {fb : Framebuffer} {memory : Memory} {prints : List Print}
    {s : Screen} (fits : fb.Fits)
    (run : Run (Guarded (Print.HasRows font) (PrintStep font)) (initFb fb memory) prints s) :
    s.Shows := by
  have kept : ∀ source print target, source.Placed fb →
      Guarded (Print.HasRows font) (PrintStep font) source print target → target.Placed fb := by
    rintro source print target placed ⟨rows, rfl⟩
    exact placed.printText fits rows
  have placed := run.invariant kept (placed_initFb fits memory)
  refine ⟨placed.onScreen, ?_⟩
  rw [placed.sized.buffer]
  exact fun _ _ => placed.cell fits

/-! ## A line end on the only row -/

/-- A framebuffer of eight by eleven pixels of four bytes. -/
def sampleFb : Framebuffer := ⟨0xA0000, 8, 11, 32, 32⟩

/-- A framebuffer with room for two rows. -/
def tallFb : Framebuffer := ⟨0xA0000, 8, 19, 32, 32⟩

def samplePrint : Print := ⟨[newline, 0], 0xFFFFFFFF⟩

theorem print_onScreen_tallFb :
    (samplePrint.call (fun _ _ => 0) (initFb tallFb fun _ => 0)).Shows := by
  have fits : tallFb.Fits := ⟨by decide, by decide⟩
  have rows : samplePrint.HasRows (fun _ _ => 0) (initFb tallFb fun _ => 0) :=
    fun _ => ⟨fun _ => by decide, fun again => absurd rfl again⟩
  exact print_onScreen fits (.single ⟨rows, rfl⟩)

/-- On a framebuffer with one row, a line end moves the cursor off the screen. -/
theorem print_offScreen_sampleFb :
    ∃ s, Run (PrintStep fun _ _ => 0) (initFb sampleFb fun _ => 0) [samplePrint] s ∧
      ¬ s.cursor.OnScreen := by
  refine ⟨_, .single rfl, fun onScreen => ?_⟩
  exact absurd onScreen.bottom (by decide)

end NTux.Console
