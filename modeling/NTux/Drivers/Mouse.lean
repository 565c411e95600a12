import NTux.Console.Text
import Mathlib.Data.List.Induction

/-! # The mouse

`drivers/ps2/mouse.c`: `mouse_poll` collects packets of four bytes and moves the position,
`draw_mouse_cursor` notes the size of the framebuffer and draws a cross. The position is
moved into the screen from below and then from above, by the size noted last, and that size
is zero until the first drawing: the position is on the screen after a packet exactly when
the largest coordinates come out as numbers that are not negative (`mouse_onScreen_iff`).
-/

namespace NTux.Drivers

open NTux.Foundation
open NTux.Console (Framebuffer int putPixel)

/-! ## The driver -/

/-- The variables of `mouse.c`, with its own `fb_width` and `fb_height`; a packet is the first
four `bytes`. -/
structure Mouse where
  cycle : Nat
  bytes : Nat → Byte
  x : Int
  y : Int
  scroll : Int
  left : Nat
  right : Nat
  fbWidth : Int
  fbHeight : Int

/-- The variables at boot. -/
def Mouse.boot : Mouse where
  cycle := 0
  bytes := fun _ => 0
  x := 100
  y := 100
  scroll := 0
  left := 0
  right := 0
  fbWidth := 0
  fbHeight := 0

/-- `if(mouse_X < 0) mouse_X = 0;` -/
def clampLow (position : Int) : Int := if position < 0 then 0 else position

/-- `if(mouse_X > fb_width-1) mouse_X = fb_width-1;` -/
def clampHigh (size position : Int) : Int :=
  if position > int (size - 1) then int (size - 1) else position

/-- What `mouse_poll` does with a packet. -/
def Mouse.packet (m : Mouse) : Mouse :=
  let dx := (m.bytes 1).toInt
  let dy := (m.bytes 2).toInt
  let dz := (m.bytes 3).toInt
  { m with
    x := clampHigh m.fbWidth (clampLow (int (m.x + dx)))
    y := clampHigh m.fbHeight (clampLow (int (m.y - dy)))
    left := (m.bytes 0 &&& 1).toNat
    right := (m.bytes 0 &&& 2).toNat
    scroll := dz }

/-- `mouse_poll`, with what the ports 0x64 and 0x60 hold. -/
def mousePoll (status data : Byte) (m : Mouse) : Mouse :=
  if status &&& 1 = 0 then m
  else match m.cycle with
    | 0 =>
        if data &&& 0x08 = 0 then m
        else { m with bytes := Function.update m.bytes 0 data, cycle := 1 }
    | 1 => { m with bytes := Function.update m.bytes 1 data, cycle := 2 }
    | 2 => { m with bytes := Function.update m.bytes 2 data, cycle := 3 }
    | 3 => { m with bytes := Function.update m.bytes 3 data, cycle := 0 }.packet
    | _ => m

/-- Note a size. -/
def Mouse.note (m : Mouse) (width height : Int) : Mouse :=
  { m with fbWidth := width, fbHeight := height }

@[simp] theorem Mouse.note_fbWidth (m : Mouse) (width height : Int) :
    (m.note width height).fbWidth = width := rfl

@[simp] theorem Mouse.note_fbHeight (m : Mouse) (width height : Int) :
    (m.note width height).fbHeight = height := rfl

/-- `draw_mouse_cursor`. -/
def drawMouseCursor (fb : Framebuffer) (m : Mouse) (memory : Memory) : Mouse × Memory :=
  let m := m.note (int fb.width) (int fb.height)
  let memory := putPixel fb m.x m.y 0xFFFFFF memory
  let memory := putPixel fb (int (m.x + 1)) m.y 0xFFFFFF memory
  let memory := putPixel fb (int (m.x - 1)) m.y 0xFFFFFF memory
  let memory := putPixel fb m.x (int (m.y + 1)) 0xFFFFFF memory
  let memory := putPixel fb m.x (int (m.y - 1)) 0xFFFFFF memory
  (m, memory)

/-! ## Runs -/

/-- A framebuffer of positive size. -/
structure Screen extends Framebuffer where
  width_pos : 0 < width
  height_pos : 0 < height

/-- A call, and what the ports hold or what is drawn on. -/
inductive MouseEvent where
  | poll (status data : Byte)
  | draw (screen : Screen)

def mouseStep (state : Mouse × Memory) : MouseEvent → Mouse × Memory
  | .poll status data => (mousePoll status data state.1, state.2)
  | .draw screen => drawMouseCursor screen.toFramebuffer state.1 state.2

/-- The variables after the events, from boot on. -/
def mouseAfter (memory : Memory) (events : List MouseEvent) : Mouse :=
  (events.foldl mouseStep (.boot, memory)).1

/-- The screen drawn on last. -/
def currentScreen (events : List MouseEvent) : Option Screen :=
  (events.filterMap fun
    | .draw screen => some screen
    | .poll _ _ => none).getLast?

/-- The position is not negative and inside the screen, if there is one. -/
structure Mouse.OnScreen (m : Mouse) (screen : Option Screen) : Prop where
  left : 0 ≤ m.x
  top : 0 ≤ m.y
  right : ∀ current ∈ screen, m.x ≤ (current.width : Int) - 1
  bottom : ∀ current ∈ screen, m.y ≤ (current.height : Int) - 1

/-- A poll that ends a packet. -/
def Mouse.Completes (m : Mouse) (status : Byte) : Prop :=
  status &&& 1 ≠ 0 ∧ m.cycle = 3

/-- The largest coordinate of a screen is not negative as an `int`. -/
def FitsInt (size : Nat) : Prop := (size - 1) % 2 ^ 32 < 2 ^ 31

/-- The largest coordinates of the screen drawn on last are not negative, and there is one. -/
def Usable (screen : Option Screen) : Prop :=
  ∃ current ∈ screen, FitsInt current.width ∧ FitsInt current.height

/-- After every packet the position is on the screen. -/
def StaysOnScreen (memory : Memory) (events : List MouseEvent) : Prop :=
  ∀ before status data later, events = before ++ .poll status data :: later →
    (mouseAfter memory before).Completes status →
    (mouseAfter memory (before ++ [.poll status data])).OnScreen (currentScreen before)

/-- Every packet ends with a usable screen. -/
def ScreenFirst (memory : Memory) (events : List MouseEvent) : Prop :=
  ∀ before status data later, events = before ++ .poll status data :: later →
    (mouseAfter memory before).Completes status → Usable (currentScreen before)

/-! ## One packet -/

theorem int_pred (size : Nat) (positive : 0 < size) :
    int (int size - 1) = int ((size - 1 : Nat) : Int) := by
  simp only [int]
  omega

theorem int_nonneg_iff (n : Nat) : 0 ≤ int n ↔ n % 2 ^ 32 < 2 ^ 31 := by
  simp only [int]
  omega

theorem int_le (n : Nat) (nonneg : 0 ≤ int n) : int n ≤ n := by
  simp only [int] at *
  omega

/-- **The two clamps.** The result is inside a screen whose largest coordinate is not
negative; otherwise it is that coordinate, which is negative. -/
theorem clamp_iff (size : Nat) (positive : 0 < size) (position : Int) :
    0 ≤ clampHigh (int size) (clampLow position) ∧
        clampHigh (int size) (clampLow position) ≤ (size : Int) - 1 ↔
      FitsInt size := by
  have low : 0 ≤ clampLow position := by
    rw [clampLow]
    split <;> omega
  have sign := int_nonneg_iff (size - 1)
  rw [FitsInt, ← sign, clampHigh, int_pred size positive]
  constructor
  · rintro ⟨nonneg, -⟩
    split at nonneg <;> omega
  · intro fits
    have bound := int_le (size - 1) fits
    split <;> omega

/-- Before the first drawing the clamps give -1. -/
theorem clamp_zero (position : Int) : clampHigh 0 (clampLow position) = -1 := by
  have low : 0 ≤ clampLow position := by
    rw [clampLow]
    split <;> omega
  have high : int (0 - 1) = -1 := by decide
  rw [clampHigh, high, if_pos (by omega)]

/-- The driver has noted the size of this screen, or none. -/
structure Mouse.Notes (m : Mouse) (screen : Option Screen) : Prop where
  width : m.fbWidth = screen.elim 0 fun current => int current.width
  height : m.fbHeight = screen.elim 0 fun current => int current.height

/-- Where a packet leaves the position. -/
theorem Mouse.Completes.position {m : Mouse} {status : Byte} (completes : m.Completes status)
    (data : Byte) : ∃ x y, (mousePoll status data m).x = clampHigh m.fbWidth (clampLow x) ∧
      (mousePoll status data m).y = clampHigh m.fbHeight (clampLow y) := by
  rw [mousePoll, if_neg completes.1, completes.2]
  exact ⟨_, _, rfl, rfl⟩

/-- **One packet.** -/
theorem Mouse.Completes.onScreen_iff {m : Mouse} {status : Byte} (completes : m.Completes status)
    {screen : Option Screen} (notes : m.Notes screen) (data : Byte) :
    (mousePoll status data m).OnScreen screen ↔ Usable screen := by
  obtain ⟨x, y, atX, atY⟩ := completes.position data
  rw [notes.width] at atX
  rw [notes.height] at atY
  cases screen with
  | none =>
      rw [Option.elim_none, clamp_zero] at atX
      constructor
      · intro inside
        have := inside.left
        omega
      · rintro ⟨current, member, -⟩
        cases member
  | some current =>
      have columns := clamp_iff current.width current.width_pos x
      have rows := clamp_iff current.height current.height_pos y
      rw [Option.elim_some] at atX atY
      rw [← atX] at columns
      rw [← atY] at rows
      constructor
      · intro inside
        exact ⟨current, rfl, columns.mp ⟨inside.left, inside.right current rfl⟩,
          rows.mp ⟨inside.top, inside.bottom current rfl⟩⟩
      · rintro ⟨usable, member, fitsWidth, fitsHeight⟩
        obtain rfl := Option.some.inj member
        exact
          { left := (columns.mpr fitsWidth).1
            top := (rows.mpr fitsHeight).1
            right := fun other same => Option.some.inj same ▸ (columns.mpr fitsWidth).2
            bottom := fun other same => Option.some.inj same ▸ (rows.mpr fitsHeight).2 }

/-! ## Every run -/

theorem mouseAfter_poll (memory : Memory) (events : List MouseEvent) (status data : Byte) :
    mouseAfter memory (events ++ [.poll status data]) =
      mousePoll status data (mouseAfter memory events) := by
  rw [mouseAfter, List.foldl_append]
  rfl

/-- A poll keeps the size. -/
theorem mousePoll_notes {m : Mouse} {screen : Option Screen} (notes : m.Notes screen)
    (status data : Byte) : (mousePoll status data m).Notes screen := by
  rw [mousePoll]
  split
  · exact notes
  · split
    · split <;> exact ⟨notes.width, notes.height⟩
    all_goals exact ⟨notes.width, notes.height⟩

/-- A drawing notes the size of its screen. -/
theorem drawMouseCursor_notes (screen : Screen) (m : Mouse) (memory : Memory) :
    (drawMouseCursor screen.toFramebuffer m memory).1.Notes (some screen) := by
  have noted : (drawMouseCursor screen.toFramebuffer m memory).1 =
      m.note (int screen.width) (int screen.height) := rfl
  rw [noted]
  constructor
  · rw [Option.elim_some, Mouse.note_fbWidth]
  · rw [Option.elim_some, Mouse.note_fbHeight]

/-- The driver has noted the size of the screen drawn on last. -/
theorem mouseAfter_notes (memory : Memory) (events : List MouseEvent) :
    (mouseAfter memory events).Notes (currentScreen events) := by
  induction events using List.reverseRecOn with
  | nil => exact ⟨rfl, rfl⟩
  | append_singleton events event ih =>
      cases event with
      | poll status data =>
          rw [mouseAfter_poll]
          have same : currentScreen (events ++ [.poll status data]) = currentScreen events := by
            simp [currentScreen]
          rw [same]
          exact mousePoll_notes ih status data
      | draw screen =>
          have drawn : currentScreen (events ++ [.draw screen]) = some screen := by
            simp [currentScreen]
          rw [drawn, mouseAfter, List.foldl_append]
          exact drawMouseCursor_notes screen _ _

/-- **The position stays on the screen** after every packet of a run if and only if every
packet ends with a framebuffer drawn before whose largest coordinates are `int`s that are not
negative. -/
theorem mouse_onScreen_iff (memory : Memory) (events : List MouseEvent) :
    StaysOnScreen memory events ↔ ScreenFirst memory events := by
  constructor
  · intro stays before status data later split completes
    have inside := stays before status data later split completes
    rw [mouseAfter_poll] at inside
    exact (completes.onScreen_iff (mouseAfter_notes memory before) data).mp inside
  · intro first before status data later split completes
    rw [mouseAfter_poll]
    exact (completes.onScreen_iff (mouseAfter_notes memory before) data).mpr
      (first before status data later split completes)

/-- A packet that moves the mouse by nothing, with the data waiting. -/
def stillPacket : List MouseEvent :=
  [.poll 0x21 0x08, .poll 0x21 0, .poll 0x21 0, .poll 0x21 0]

/-- Before the first drawing a packet leaves the position at -1. -/
theorem stillPacket_leaves : ¬ StaysOnScreen (fun _ => 0) stillPacket := by
  intro stays
  have cycle : (mouseAfter (fun _ => 0)
      [.poll 0x21 0x08, .poll 0x21 0, .poll 0x21 0]).cycle = 3 := rfl
  have completes : (mouseAfter (fun _ => 0)
      [.poll 0x21 0x08, .poll 0x21 0, .poll 0x21 0]).Completes 0x21 := ⟨by decide, cycle⟩
  have inside := stays _ 0x21 0 [] rfl completes
  rw [mouseAfter_poll] at inside
  obtain ⟨screen, none, -⟩ := (completes.onScreen_iff (mouseAfter_notes _ _) 0).mp inside
  cases none

end NTux.Drivers
