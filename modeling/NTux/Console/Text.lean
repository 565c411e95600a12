import NTux.Foundation.Memory
import Mathlib.Data.Int.Init

/-! # The text console

`drivers/framebuffer`: characters of eight by eight pixels at a cursor that moves through
the framebuffer, and scrolling at its end. `int` and `uint64_t` wrap around, a `char` is
signed, and a string is the bytes from its first on.

The font is a parameter, for any index: what memory holds at `font8x8_basic[c][row]`.
-/

namespace NTux.Console

open NTux.Foundation

/-- The `int` that is congruent to a number. -/
def int (n : Int) : Int := (n + 0x80000000) % 0x100000000 - 0x80000000

/-- The `uint64_t` that is congruent to a number. -/
def uint64 (n : Int) : Nat := (n % 0x10000000000000000).toNat

/-- `struct limine_framebuffer`. -/
structure Framebuffer where
  address : Nat
  width : Nat
  height : Nat
  pitch : Nat
  bpp : Nat

/-- `cursor_t`. -/
structure Cursor where
  x : Int
  y : Int
  charWidth : Int
  charHeight : Int
  screenWidth : Int
  screenHeight : Int
  deriving DecidableEq, Repr

/-- `font8x8_basic`. -/
abbrev Font : Type := Int → Nat → Byte

def colorBlack : Nat := 0xFF000000

/-- `'\n'`. -/
def newline : Byte := 0x0A

/-- `init_cursor`. -/
def initCursor (screenWidth screenHeight : Int) : Cursor where
  x := 0
  y := 0
  charWidth := 8
  charHeight := 8
  screenWidth := screenWidth
  screenHeight := screenHeight

/-! ## Pixels -/

/-- Where a pixel with `int` coordinates is in memory. -/
def Framebuffer.pixel (fb : Framebuffer) (x y : Int) : Nat :=
  (fb.address + uint64 y * fb.pitch + uint64 (int (x * (fb.bpp / 8 : Nat)))) % 2 ^ 64

/-- `put_pixel_lim`. -/
def putPixel (fb : Framebuffer) (x y : Int) (color : Nat) (memory : Memory) : Memory :=
  if x < 0 ∨ y < 0 then memory
  else if fb.width ≤ uint64 x ∨ fb.height ≤ uint64 y then memory
  else memory.writeLE (fb.pixel x y) 4 color

/-- `draw_char_lim`. -/
def drawChar (font : Font) (fb : Framebuffer) (x y : Int) (c : Byte) (color : Nat)
    (memory : Memory) : Memory :=
  (List.range 8).foldl (fun memory (row : Nat) =>
    (List.range 8).foldl (fun memory (col : Nat) =>
      if (font c.toInt row).getLsbD col then
        putPixel fb (int (x + col)) (int (y + row)) color memory
      else memory) memory) memory

/-- The pixel that is copied while scrolling, with `uint64_t` coordinates. -/
def Framebuffer.wide (fb : Framebuffer) (x y : Nat) : Nat :=
  (fb.address + y * fb.pitch + x * (fb.bpp / 8)) % 2 ^ 64

/-- The two loops that scroll by some rows of pixels. -/
def scroll (fb : Framebuffer) (rowPixels : Int) (memory : Memory) : Memory :=
  let kept := uint64 (fb.height - rowPixels)
  let moved := (List.range kept).foldl (fun memory (y : Nat) =>
    (List.range fb.width).foldl (fun memory (x : Nat) =>
      memory.writeLE (fb.wide x y) 4
        (memory.readLE (fb.wide x (uint64 (y + rowPixels))) 4)) memory) memory
  (List.range' kept (fb.height - kept)).foldl (fun memory (y : Nat) =>
    (List.range fb.width).foldl (fun memory (x : Nat) =>
      putPixel fb (int x) (int y) colorBlack memory) memory) moved

/-! ## The cursor -/

/-- A cursor, and the framebuffer that it moves through. -/
structure Screen where
  fb : Framebuffer
  cursor : Cursor
  memory : Memory

/-- `put_char_with_cursor_lim`. -/
def putCharWithCursor (font : Font) (s : Screen) (c : Byte) (color : Nat) : Screen :=
  let memory := drawChar font s.fb s.cursor.x s.cursor.y c color s.memory
  let cursor := { s.cursor with x := int (s.cursor.x + s.cursor.charWidth) }
  let cursor :=
    if int (cursor.x + cursor.charWidth) > cursor.screenWidth then
      { cursor with x := 0, y := int (cursor.y + cursor.charHeight) }
    else cursor
  if int (cursor.y + cursor.charHeight) > cursor.screenHeight then
    { s with cursor := { cursor with y := int (cursor.y - cursor.charHeight) }
             memory := scroll s.fb cursor.charHeight memory }
  else { s with cursor := cursor, memory := memory }

/-- The pixels of the cell that the cursor is at, in the order of the loops. -/
def Cursor.cell (cursor : Cursor) : List (Int × Int) :=
  (List.range cursor.charHeight.toNat).flatMap fun (y : Nat) =>
    (List.range cursor.charWidth.toNat).map fun (x : Nat) =>
      (int (cursor.x + x), int (cursor.y + y))

/-- `render_cursor_lim`. -/
def renderCursor (s : Screen) (color : Nat) : Screen :=
  { s with memory := s.cursor.cell.foldl (fun memory (x, y) =>
      memory.writeLE (s.fb.pixel x y) 4 color) s.memory }

/-- `clear_cursor_lim`. -/
def clearCursor (s : Screen) : Screen := renderCursor s colorBlack

/-! ## Printing -/

/-- What `kprint` and `kprintcolor` do with a character. -/
def printChar (font : Font) (color : Nat) (s : Screen) (c : Byte) : Screen :=
  if c = newline then
    { s with cursor := { s.cursor with x := 0, y := int (s.cursor.y + s.cursor.charHeight) } }
  else putCharWithCursor font s c color

/-- Their loop. -/
def printText (font : Font) (color : Nat) : List Byte → Screen → Screen
  | [], s => s
  | c :: rest, s => if c = 0 then s else printText font color rest (printChar font color s c)

/-- A call of `kprintcolor`, or of `kprint`, whose color is the one of `g_printer`. -/
structure Print where
  text : List Byte
  color : Nat

def Print.call (font : Font) (print : Print) (s : Screen) : Screen :=
  printText font print.color print.text s

def PrintStep (font : Font) (s : Screen) (print : Print) (t : Screen) : Prop :=
  t = print.call font s

/-- The console that `init_fb` sets up on a framebuffer. -/
def initFb (fb : Framebuffer) (memory : Memory) : Screen where
  fb := fb
  cursor := initCursor (int fb.width) (int (int fb.height - 3))
  memory := memory

end NTux.Console
