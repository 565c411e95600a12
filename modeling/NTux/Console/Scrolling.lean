import NTux.Console.OnScreen
import NTux.Foundation.Raster

/-! # Characters and scrolling

A character changes the pixels of its cell only, and where the text has come to its end the
image moves up by a row of characters (`putCharWithCursor_right`). Every store is one of 32
bits, so this holds of framebuffers with such pixels; in one with smaller pixels the store
reaches into the next pixel (`putCharWithCursor_limits`).
-/

namespace NTux.Console

open NTux.Foundation

/-! ## Images -/

/-- The bytes of a pixel. -/
def Framebuffer.bytes (fb : Framebuffer) (x y : Nat) : Set Nat :=
  Memory.block (fb.wide x y) (fb.bpp / 8)

/-- What a pixel shows. -/
def Framebuffer.image (fb : Framebuffer) (memory : Memory) (x y : Nat) : Nat :=
  memory.readLE (fb.wide x y) (fb.bpp / 8)

/-- A framebuffer of pixels of 32 bits, with its rows one after the other in the address space
and with no more of them, and of bytes in each, than `int` has numbers for. -/
structure Framebuffer.Plain (fb : Framebuffer) : Prop where
  deep : fb.bpp / 8 = 4
  rows : fb.width * 4 ≤ fb.pitch
  inside : fb.address + fb.height * fb.pitch ≤ 0x10000000000000000
  wide : fb.width * 4 ≤ 0x80000000
  high : fb.height + 8 < 0x80000000

/-- The cell of the cursor is on its screen, which is on the framebuffer. -/
structure Cursor.InRange (cursor : Cursor) (fb : Framebuffer) : Prop where
  onScreen : cursor.OnScreen
  charWidth : cursor.charWidth = 8
  charHeight : cursor.charHeight = 8
  across : cursor.screenWidth ≤ fb.width
  down : cursor.screenHeight ≤ fb.height

def Cursor.InCell (cursor : Cursor) (x y : Nat) : Prop :=
  (cursor.x ≤ x ∧ x < cursor.x + cursor.charWidth) ∧
    cursor.y ≤ y ∧ y < cursor.y + cursor.charHeight

/-- There is no room for another character, neither to the right nor below. -/
def Cursor.AtEnd (cursor : Cursor) : Prop :=
  cursor.screenWidth < cursor.x + cursor.charWidth + cursor.charWidth ∧
    cursor.screenHeight < cursor.y + cursor.charHeight + cursor.charHeight

instance (cursor : Cursor) : Decidable cursor.AtEnd := inferInstanceAs (Decidable (_ ∧ _))

/-- Memory when the character has been drawn at the cursor. -/
def drawn (font : Font) (s : Screen) (c : Byte) (color : Nat) : Memory :=
  drawChar font s.fb s.cursor.x s.cursor.y c color s.memory

/-- What putting a character is to do to the image and to the cursor. -/
structure PutRight (font : Font) (s : Screen) (c : Byte) (color : Nat) : Prop where
  kept : ¬ s.cursor.AtEnd → ∀ address,
    (∀ x y, s.cursor.InCell x y → address ∉ s.fb.bytes x y) →
      (putCharWithCursor font s c color).memory address = s.memory address
  shifted : s.cursor.AtEnd → ∀ x < s.fb.width, ∀ y,
    y + s.cursor.charHeight.toNat < s.fb.height →
      s.fb.image (putCharWithCursor font s c color).memory x y =
        s.fb.image (drawn font s c color) x (y + s.cursor.charHeight.toNat)
  black : s.cursor.AtEnd → ∀ x < s.fb.width, ∀ y < s.fb.height,
    s.fb.height ≤ y + s.cursor.charHeight.toNat →
      s.fb.image (putCharWithCursor font s c color).memory x y = colorBlack
  inRange : (putCharWithCursor font s c color).cursor.InRange s.fb

/-! ## Pixels of 32 bits -/

/-- A number that an unsigned type has is itself in it. -/
theorem uint64_eq {n : Int} {m : Nat} (same : n = m) (small : m < 0x10000000000000000) :
    uint64 n = m := by
  unfold uint64
  omega

namespace Framebuffer.Plain

variable {fb : Framebuffer} {x y : Nat}

theorem end_le (plain : fb.Plain) (xInside : x < fb.width) (yInside : y < fb.height) :
    fb.address + y * fb.pitch + x * 4 + 4 ≤ 0x10000000000000000 := by
  have rows := plain.rows
  have inside := plain.inside
  have below : (y + 1) * fb.pitch ≤ fb.height * fb.pitch := Nat.mul_le_mul_right _ yInside
  rw [Nat.succ_mul] at below
  omega

theorem wide_eq (plain : fb.Plain) (xInside : x < fb.width) (yInside : y < fb.height) :
    fb.wide x y = fb.address + y * fb.pitch + x * 4 := by
  have bound := plain.end_le xInside yInside
  rw [Framebuffer.wide, plain.deep]
  exact Nat.mod_eq_of_lt (by omega)

/-- Both ways to compute the place of a pixel. -/
theorem pixel_eq (plain : fb.Plain) (xInside : x < fb.width) (yInside : y < fb.height) :
    fb.pixel x y = fb.wide x y := by
  have narrow := plain.wide
  have low := plain.high
  have row : uint64 (y : Int) = y := uint64_eq rfl (by omega)
  have column : uint64 (int ((x : Int) * (4 : Nat))) = x * 4 := by
    rw [int_of_range (by omega) (by omega)]
    exact uint64_eq (by omega) (by omega)
  rw [Framebuffer.pixel, Framebuffer.wide, plain.deep, row, column]

/-- Pixels do not overlap. -/
theorem disjoint (plain : fb.Plain) {x' y' : Nat} (xInside : x < fb.width)
    (yInside : y < fb.height) (xInside' : x' < fb.width) (yInside' : y' < fb.height)
    (differ : ¬ (x' = x ∧ y' = y)) :
    Disjoint (Memory.block (fb.wide x' y') 4) (Memory.block (fb.wide x y) 4) := by
  have rows := plain.rows
  have above {a b : Nat} (before : a < b) : a * fb.pitch + fb.pitch ≤ b * fb.pitch := by
    rw [← Nat.succ_mul]
    exact Nat.mul_le_mul_right _ before
  rw [plain.wide_eq xInside yInside, plain.wide_eq xInside' yInside']
  apply Memory.block_disjoint
  rcases Nat.lt_trichotomy y y' with before | rfl | behind
  · have := above before
    omega
  · omega
  · have := above behind
    omega

/-- The image after a store to a pixel. -/
theorem image_write (plain : fb.Plain) (memory : Memory) {value : Nat} (small : value < 0x100000000)
    {x' y' : Nat} (xInside : x < fb.width) (yInside : y < fb.height) (xInside' : x' < fb.width)
    (yInside' : y' < fb.height) :
    fb.image (memory.writeLE (fb.wide x y) 4 value) x' y' =
      if x' = x ∧ y' = y then value else fb.image memory x' y' := by
  rw [image, image, plain.deep]
  split_ifs with same
  · obtain ⟨rfl, rfl⟩ := same
    rw [Memory.readLE_writeLE]
    exact Nat.mod_eq_of_lt small
  · exact Memory.readLE_congr
      (memory.store_eqOn _ (plain.disjoint xInside yInside xInside' yInside' same))

theorem putPixel_eq (plain : fb.Plain) (xInside : x < fb.width) (yInside : y < fb.height)
    (color : Nat) (memory : Memory) :
    putPixel fb x y color memory = memory.writeLE (fb.wide x y) 4 color := by
  have narrow := plain.wide
  have low := plain.high
  have onScreen : ¬ (fb.width ≤ uint64 x ∨ fb.height ≤ uint64 y) := by
    rw [uint64_eq rfl (by omega), uint64_eq rfl (by omega)]
    omega
  rw [putPixel, if_neg (by omega), if_neg onScreen, plain.pixel_eq xInside yInside]

/-- **The image after scrolling.** -/
theorem image_scroll (plain : fb.Plain) (rows : 8 ≤ fb.height) (memory : Memory)
    (xInside : x < fb.width) (yInside : y < fb.height) :
    fb.image (scroll fb 8 memory) x y =
      if y + 8 < fb.height then fb.image memory x (y + 8) else colorBlack := by
  have narrow := plain.wide
  have low := plain.high
  have kept : uint64 ((fb.height : Int) - 8) = fb.height - 8 :=
    uint64_eq (by omega) (by omega)
  have left : fb.height - (fb.height - 8) = 8 := by omega
  have moves : ∀ y, y + 8 < fb.height → ∀ x < fb.width,
      Raster.Puts fb.image fb.width fb.height
        (fun memory => memory.writeLE (fb.wide x y) 4
          (memory.readLE (fb.wide x (uint64 ((y : Int) + 8))) 4)) x y
        fun memory => fb.image memory x (y + 8) := by
    intro y yInside x xInside memory x' xInside' y' yInside'
    have source : uint64 ((y : Int) + 8) = y + 8 := uint64_eq rfl (by omega)
    have word : fb.image memory x (y + 8) = memory.readLE (fb.wide x (y + 8)) 4 := by
      rw [image, plain.deep]
    beta_reduce
    rw [source, plain.image_write memory (Memory.readLE_lt _ _ 4) xInside (by omega) xInside'
      yInside', word]
  have blackens : ∀ y, y < fb.height → ∀ x < fb.width,
      Raster.Puts fb.image fb.width fb.height
        (fun memory => putPixel fb (int x) (int y) colorBlack memory) x y fun _ => colorBlack := by
    intro y yInside x xInside memory x' xInside' y' yInside'
    beta_reduce
    rw [int_of_range (by omega) (by omega), int_of_range (by omega) (by omega),
      plain.putPixel_eq xInside yInside,
      plain.image_write memory (by decide) xInside yInside xInside' yInside']
  simp only [scroll, kept, left]
  rw [Raster.fillRows blackens (by omega) _ xInside yInside,
    Raster.shiftRows moves (by omega) _ xInside yInside]
  by_cases above : y + 8 < fb.height
  · rw [if_neg (by omega), if_pos (by omega), if_pos above]
  · rw [if_pos (by omega), if_neg above]

end Framebuffer.Plain

/-! ## The character and the cursor -/

/-- A loop none of whose turns changes a byte. -/
theorem foldl_kept {α : Type} {turn : Memory → α → Memory} {list : List α} {address : Nat}
    (turns : ∀ memory, ∀ a ∈ list, turn memory a address = memory address) (memory : Memory) :
    list.foldl turn memory address = memory address := by
  induction list generalizing memory with
  | nil => rfl
  | cons head rest ih =>
      rw [List.foldl_cons, ih fun memory a member => turns memory a (List.mem_cons_of_mem _ member)]
      exact turns memory head List.mem_cons_self

section

variable {s : Screen}

/-- A character is drawn in its cell. -/
theorem drawn_kept (plain : s.fb.Plain) (inRange : s.cursor.InRange s.fb) (font : Font) (c : Byte)
    (color : Nat) {address : Nat}
    (outside : ∀ x y, s.cursor.InCell x y → address ∉ s.fb.bytes x y) :
    drawn font s c color address = s.memory address := by
  obtain ⟨⟨left, right, top, bottom⟩, charWidth, charHeight, across, down⟩ := inRange
  have narrow := plain.wide
  have low := plain.high
  rw [charWidth] at right
  rw [charHeight] at bottom
  apply foldl_kept
  intro memory row rowInside
  apply foldl_kept
  intro memory col colInside
  rw [List.mem_range] at rowInside colInside
  split_ifs
  · obtain ⟨x, atX⟩ := Int.eq_ofNat_of_zero_le left
    obtain ⟨y, atY⟩ := Int.eq_ofNat_of_zero_le top
    have column : int (s.cursor.x + col) = (x + col : Nat) := by
      rw [int_of_range (by omega) (by omega)]
      omega
    have line : int (s.cursor.y + row) = (y + row : Nat) := by
      rw [int_of_range (by omega) (by omega)]
      omega
    have inCell : s.cursor.InCell (x + col) (y + row) := by
      rw [Cursor.InCell, charWidth, charHeight]
      omega
    rw [column, line, plain.putPixel_eq (by omega) (by omega)]
    apply Memory.store_of_notMem
    have apart := outside _ _ inCell
    rw [Framebuffer.bytes, plain.deep] at apart
    exact apart
  · rfl

/-- What putting a character does, without sums that wrap around. -/
theorem putCharWithCursor_eq (plain : s.fb.Plain) (inRange : s.cursor.InRange s.fb) (font : Font)
    (c : Byte) (color : Nat) :
    putCharWithCursor font s c color =
      if s.cursor.AtEnd then
        { s with cursor := { s.cursor with x := 0 }, memory := scroll s.fb 8 (drawn font s c color) }
      else
        { s with
          cursor :=
            if s.cursor.screenWidth < s.cursor.x + 8 + 8 then
              { s.cursor with x := 0, y := s.cursor.y + 8 }
            else { s.cursor with x := s.cursor.x + 8 }
          memory := drawn font s c color } := by
  obtain ⟨⟨left, right, top, bottom⟩, charWidth, charHeight, across, down⟩ := inRange
  have narrow := plain.wide
  have low := plain.high
  rw [charWidth] at right
  rw [charHeight] at bottom
  have next : int (s.cursor.x + 8) = s.cursor.x + 8 := int_of_range (by omega) (by omega)
  have further : int (s.cursor.x + 8 + 8) = s.cursor.x + 8 + 8 :=
    int_of_range (by omega) (by omega)
  have line : int (s.cursor.y + 8) = s.cursor.y + 8 := int_of_range (by omega) (by omega)
  have below : int (s.cursor.y + 8 + 8) = s.cursor.y + 8 + 8 :=
    int_of_range (by omega) (by omega)
  have back : int (s.cursor.y + 8 - 8) = s.cursor.y := by
    rw [Int.add_sub_cancel]
    exact int_of_range (by omega) (by omega)
  have atEnd : s.cursor.AtEnd ↔ s.cursor.screenWidth < s.cursor.x + 8 + 8 ∧
      s.cursor.screenHeight < s.cursor.y + 8 + 8 := by
    rw [Cursor.AtEnd, charWidth, charHeight]
  by_cases wraps : s.cursor.screenWidth < s.cursor.x + 8 + 8
  · by_cases scrolls : s.cursor.screenHeight < s.cursor.y + 8 + 8
    · rw [if_pos (atEnd.mpr ⟨wraps, scrolls⟩)]
      simp only [putCharWithCursor, charWidth, charHeight, next, further, if_pos wraps, line, below,
        if_pos scrolls, back]
      rfl
    · rw [if_neg fun atIt => scrolls (atEnd.mp atIt).2]
      simp only [putCharWithCursor, charWidth, charHeight, next, further, if_pos wraps, line, below,
        if_neg scrolls]
      rfl
  · have onRow : ¬ s.cursor.screenHeight < s.cursor.y + 8 := not_lt.mpr bottom
    rw [if_neg fun atIt => wraps (atEnd.mp atIt).1]
    simp only [putCharWithCursor, charWidth, charHeight, next, further, if_neg wraps, line,
      if_neg onRow]
    rfl

/-- **Characters and scrolling.** -/
theorem putCharWithCursor_right (plain : s.fb.Plain) (inRange : s.cursor.InRange s.fb)
    (font : Font) (c : Byte) (color : Nat) : PutRight font s c color := by
  have spec := putCharWithCursor_eq plain inRange font c color
  have kept := @drawn_kept s plain inRange font c color
  obtain ⟨⟨left, right, top, bottom⟩, charWidth, charHeight, across, down⟩ := inRange
  have rows : 8 ≤ s.fb.height := by omega
  have height : s.cursor.charHeight.toNat = 8 := by rw [charHeight]; rfl
  refine ⟨fun more address outside => ?_, fun atEnd x xInside y above => ?_,
    fun atEnd x xInside y yInside last => ?_, ?_⟩
  · rw [spec, if_neg more]
    exact kept outside
  · rw [height] at above ⊢
    rw [spec, if_pos atEnd, plain.image_scroll rows _ xInside (by omega), if_pos above]
  · rw [height] at last
    rw [spec, if_pos atEnd, plain.image_scroll rows _ xInside yInside, if_neg (by omega)]
  · rw [charWidth] at right
    rw [spec]
    split_ifs with atEnd wraps
    · refine ⟨⟨le_refl 0, ?_, top, bottom⟩, charWidth, charHeight, across, down⟩
      change 0 + s.cursor.charWidth ≤ s.cursor.screenWidth
      omega
    · have room : s.cursor.y + 8 + 8 ≤ s.cursor.screenHeight := by
        by_contra full
        refine atEnd ⟨?_, ?_⟩
        · rw [charWidth]
          exact wraps
        · rw [charHeight]
          exact not_le.mp full
      refine ⟨⟨le_refl 0, ?_, ?_, ?_⟩, charWidth, charHeight, across, down⟩
      · change 0 + s.cursor.charWidth ≤ s.cursor.screenWidth
        omega
      · change 0 ≤ s.cursor.y + 8
        omega
      · change s.cursor.y + 8 + s.cursor.charHeight ≤ s.cursor.screenHeight
        omega
    · refine ⟨⟨?_, ?_, top, bottom⟩, charWidth, charHeight, across, down⟩
      · change 0 ≤ s.cursor.x + 8
        omega
      · change s.cursor.x + 8 + s.cursor.charWidth ≤ s.cursor.screenWidth
        omega

end

/-- The cursor of the console is in range on such a framebuffer. -/
theorem Screen.Placed.inRange {s : Screen} {fb : Framebuffer} (placed : s.Placed fb)
    (fits : fb.Fits) : s.cursor.InRange fb := by
  obtain ⟨-, charWidth, charHeight, screenWidth, screenHeight⟩ := placed.sized
  refine ⟨placed.onScreen, charWidth, charHeight, ?_, ?_⟩
  · rw [screenWidth]
    exact int_le (Int.natCast_nonneg _)
  · rw [screenHeight]
    exact int_sub_three_le (Int.natCast_nonneg _) fits.height.2

/-- The console on a framebuffer with nothing between its rows. -/
def plainScreen (width height bpp : Nat) (x y : Int) : Screen where
  fb := { address := 0x100000, width, height, pitch := width * (bpp / 8), bpp }
  cursor := { initCursor width height with x, y }
  memory := fun _ => 0x55

/-- `font8x8_basic`, but for what is not in `'_'`. -/
def underscoreFont : Font := fun c row => if c = 0x5F ∧ row = 7 then 0xFF else 0

/-- The cursor is in range if its cell is on the framebuffer. -/
theorem plainScreen_inRange {width height bpp : Nat} {x y : Int} (left : 0 ≤ x)
    (right : x + 8 ≤ width) (top : 0 ≤ y) (bottom : y + 8 ≤ height) :
    (plainScreen width height bpp x y).cursor.InRange (plainScreen width height bpp x y).fb :=
  ⟨⟨left, right, top, bottom⟩, rfl, rfl, le_refl _, le_refl _⟩

/-- A character in the last cell of a screen of two. -/
theorem putCharWithCursor_twoCells :
    PutRight underscoreFont (plainScreen 16 8 32 8 0) 0x5F 0xFFFFFFFF :=
  putCharWithCursor_right ⟨by decide, by decide, by decide, by decide, by decide⟩
    (plainScreen_inRange (by decide) (by decide) (by decide) (by decide)) _ _ _

/-- A pixel of 24 bits does not hold a store of 32 bits. -/
def shallowScreen : Screen := plainScreen 16 16 24 0 0

/-- In rows of more than 2³¹ bytes the place of a pixel is not a number of `int`. -/
def wideScreen : Screen := plainScreen 0x20000008 16 32 0x20000000 0

/-- There is no number of `int` for the end of a cell below the last one. -/
def highScreen : Screen := plainScreen 8 0x7FFFFFF8 32 0 0x7FFFFFF0

theorem putCharWithCursor_shallow : ¬ PutRight underscoreFont shallowScreen 0x5F 0xFFFFFFFF := by
  intro right
  have outside : ∀ x y, shallowScreen.cursor.InCell x y →
      0x100168 ∉ shallowScreen.fb.bytes x y := by
    rintro x y ⟨across, down⟩ inside
    simp only [shallowScreen, plainScreen, initCursor] at across down
    have place : (0x100000 + y * 48 + x * 3) % 2 ^ 64 = 0x100000 + y * 48 + x * 3 :=
      Nat.mod_eq_of_lt (by omega)
    change (0x100000 + y * 48 + x * 3) % 2 ^ 64 ≤ _ ∧
      _ < (0x100000 + y * 48 + x * 3) % 2 ^ 64 + 3 at inside
    omega
  have kept := right.kept (by decide) 0x100168 outside
  revert kept
  decide

theorem putCharWithCursor_wide : ¬ PutRight underscoreFont wideScreen 0x5F 0xFFFFFFFF := by
  intro right
  have outside : ∀ x y, wideScreen.cursor.InCell x y →
      0x3001000E0 ∉ wideScreen.fb.bytes x y := by
    rintro x y ⟨across, down⟩ inside
    simp only [wideScreen, plainScreen, initCursor] at across down
    have place : (0x100000 + y * 0x80000020 + x * 4) % 2 ^ 64 = 0x100000 + y * 0x80000020 + x * 4 :=
      Nat.mod_eq_of_lt (by omega)
    change (0x100000 + y * 0x80000020 + x * 4) % 2 ^ 64 ≤ _ ∧
      _ < (0x100000 + y * 0x80000020 + x * 4) % 2 ^ 64 + 4 at inside
    omega
  have kept := right.kept (by decide) 0x3001000E0 outside
  revert kept
  decide

/-- The cursor is in range on these framebuffers, and no character is put as it should be. -/
theorem putCharWithCursor_limits :
    (shallowScreen.cursor.InRange shallowScreen.fb ∧
      ¬ PutRight underscoreFont shallowScreen 0x5F 0xFFFFFFFF) ∧
    (wideScreen.cursor.InRange wideScreen.fb ∧
      ¬ PutRight underscoreFont wideScreen 0x5F 0xFFFFFFFF) ∧
    highScreen.cursor.InRange highScreen.fb ∧
      ¬ PutRight underscoreFont highScreen 0x5F 0xFFFFFFFF := by
  refine ⟨⟨?_, putCharWithCursor_shallow⟩, ⟨?_, putCharWithCursor_wide⟩, ?_, fun right => ?_⟩
  · exact plainScreen_inRange (by decide) (by decide) (by decide) (by decide)
  · exact plainScreen_inRange (by decide) (by decide) (by decide) (by decide)
  · exact plainScreen_inRange (by decide) (by decide) (by decide) (by decide)
  · have bottom := right.inRange.onScreen.bottom
    revert bottom
    decide

end NTux.Console
