import NTux.Drivers.RingBuffer
import Mathlib.Data.List.Induction

/-! # The keyboard

`drivers/ps2/keyboard.c` with the tables of `scancode_table_de.h`. `keyboard_poll` reads
scancodes as long as the controller has one, keeps a flag for every modifier and puts the
characters of the keys pressed into the ring buffer.

One flag stands for both shift keys. It says whether one of them is held as long as no shift
key is released while the other one is held (`shiftTracked_iff`).
-/

namespace NTux.Drivers

open NTux.Foundation

/-! ## The tables -/

/-- The characters of a text. -/
def chars (text : String) : List Byte := text.toList.map fun c => BitVec.ofNat 8 c.toNat

/-- `scancode_ascii`, without the zeros it ends in. -/
def scancodeAscii : List Byte :=
  [0, 27] ++ chars "1234567890" ++ [0xDF, 0xB4, 8, 9] ++
  chars "qwertzuiop" ++ [0xFC] ++ chars "+\n" ++ [0] ++ chars "as" ++
  chars "dfghjkl" ++ [0xF6, 0xE4] ++ chars "^" ++ [0] ++ chars "\\yxcv" ++
  chars "bnm,.-" ++ [0] ++ chars "*" ++ [0] ++ chars " "

/-- `scancode_ascii_shift`, without the zeros it ends in. -/
def scancodeAsciiShift : List Byte :=
  [0, 27] ++ chars "!\"" ++ [0xA7] ++ chars "$%&/()=?`" ++ [8, 9] ++
  chars "QWERTZUIOP" ++ [0xDC] ++ chars "*\n" ++ [0] ++ chars "AS" ++
  chars "DFGHJKL" ++ [0xD6, 0xC4, 0xB0, 0] ++ chars "|YXCV" ++
  chars "BNM;:_" ++ [0] ++ chars "*" ++ [0] ++ chars " "

/-- The character of a key, with or without shift. -/
def scancodeChar (shift : Bool) (key : Byte) : Byte :=
  if shift then scancodeAsciiShift.getD key.toNat 0 else scancodeAscii.getD key.toNat 0

/-- `SCANCODE_LEFT_SHIFT`. -/
def scancodeLeftShift : Byte := 0x2A

/-- `SCANCODE_RIGHT_SHIFT`. -/
def scancodeRightShift : Byte := 0x36

/-- `SCANCODE_CTRL`. -/
def scancodeCtrl : Byte := 0x1D

/-- `SCANCODE_ALT`. -/
def scancodeAlt : Byte := 0x38

/-! ## The driver -/

/-- `kb_buffer` and the flags of the modifiers. -/
structure Keyboard where
  kbBuffer : RingBuffer
  shiftPressed : Bool
  ctrlPressed : Bool
  altPressed : Bool

/-- The key of a scancode. -/
def keyOf (scancode : Byte) : Byte := scancode &&& 0x7F

/-- Whether a scancode tells of a release. -/
def isRelease (scancode : Byte) : Bool := scancode &&& 0x80 ≠ 0

/-- Put a character into the ring, unless it is 0. -/
def putChar (rb : RingBuffer) (c : Byte) : RingBuffer :=
  if c ≠ 0 then (rbPut rb c).2 else rb

namespace Keyboard

/-- `keyboard_init`. -/
def init (k : Keyboard) : Keyboard := { k with kbBuffer := rbInit k.kbBuffer.buffer }

/-- The modifiers after a scancode. -/
def modify (k : Keyboard) (scancode : Byte) : Keyboard :=
  let released := isRelease scancode
  let key := keyOf scancode
  let k := if key = 0x2A ∨ key = 0x36 then { k with shiftPressed := !released } else k
  let k := if key = 0x1D then { k with ctrlPressed := !released } else k
  if key = 0x38 then { k with altPressed := !released } else k

/-- One turn of the loop of `keyboard_poll`. -/
def read (k : Keyboard) (scancode : Byte) : Keyboard :=
  let k := k.modify scancode
  if !isRelease scancode then
    { k with kbBuffer := putChar k.kbBuffer (scancodeChar k.shiftPressed (keyOf scancode)) }
  else k

/-- `keyboard_poll`, with what the ports 0x64 and 0x60 hold turn by turn. -/
def poll (k : Keyboard) : List (Byte × Byte) → Keyboard
  | [] => k
  | (status, scancode) :: reads =>
      if status &&& 1 ≠ 0 then (k.read scancode).poll reads else k

/-- `keyboard_getchar`, for what it leaves behind. -/
def getchar (k : Keyboard) (c : Byte) : Keyboard :=
  { k with kbBuffer := (rbGet k.kbBuffer c).2.2 }

/-- `keyboard_is_key_pressed`. -/
def isKeyPressed (k : Keyboard) (key : Byte) : Bool :=
  if key = scancodeLeftShift ∨ key = scancodeRightShift then k.shiftPressed
  else if key = scancodeCtrl then k.ctrlPressed
  else if key = scancodeAlt then k.altPressed
  else scancodeChar k.shiftPressed key ≠ 0

end Keyboard

/-! ## Runs -/

/-- A scancode is read, a character is taken out, or the ring is emptied. -/
inductive KeyboardEvent where
  | scancode (scancode : Byte)
  | getchar (c : Byte)
  | init

def Keyboard.step (k : Keyboard) : KeyboardEvent → Keyboard
  | .scancode scancode => k.read scancode
  | .getchar c => k.getchar c
  | .init => k.init

def Keyboard.run (k : Keyboard) (events : List KeyboardEvent) : Keyboard :=
  events.foldl Keyboard.step k

/-- The scancodes that were read. -/
def scancodes (events : List KeyboardEvent) : List Byte :=
  events.filterMap fun
    | .scancode scancode => some scancode
    | _ => none

/-- The scancodes that `keyboard_poll` reads: those up to the first status without data. -/
def polled (reads : List (Byte × Byte)) : List Byte :=
  (reads.takeWhile fun turn => turn.1 &&& 1 ≠ 0).map Prod.snd

/-- A poll is a run of its scancodes. -/
theorem Keyboard.poll_run (k : Keyboard) (reads : List (Byte × Byte)) :
    k.poll reads = k.run ((polled reads).map .scancode) := by
  induction reads generalizing k with
  | nil => rfl
  | cons turn reads ih =>
      by_cases data : turn.1 &&& 1 ≠ 0
      · rw [poll, if_pos data, ih]
        simp only [polled, List.takeWhile_cons, decide_eq_true data, ↓reduceIte]
        rfl
      · rw [poll, if_neg data]
        simp only [polled, List.takeWhile_cons, decide_eq_false data, Bool.false_eq_true,
          ↓reduceIte]
        rfl

/-! ## What the scancodes say about the shift keys -/

/-- The last event of a key was a press. -/
def keyDown (key : Byte) (history : List Byte) : Bool :=
  ((history.filter fun scancode => keyOf scancode = key).getLast?).any fun scancode =>
    !isRelease scancode

/-- A shift key is held. -/
def shiftHeld (history : List Byte) : Bool :=
  keyDown scancodeLeftShift history || keyDown scancodeRightShift history

/-- A shift key is released while the other one is held. -/
def OtherStaysHeld (history : List Byte) (scancode : Byte) : Prop :=
  isRelease scancode = true ∧
    (keyOf scancode = scancodeLeftShift ∧ keyDown scancodeRightShift history = true ∨
      keyOf scancode = scancodeRightShift ∧ keyDown scancodeLeftShift history = true)

instance (history : List Byte) (scancode : Byte) : Decidable (OtherStaysHeld history scancode) :=
  inferInstanceAs (Decidable (_ ∧ _))

theorem keyDown_snoc (key : Byte) (history : List Byte) (scancode : Byte) :
    keyDown key (history ++ [scancode]) =
      if keyOf scancode = key then !isRelease scancode else keyDown key history := by
  by_cases own : keyOf scancode = key
  · simp [keyDown, List.filter_append, own]
  · simp [keyDown, List.filter_append, own]

/-- **What a scancode says about shift.** -/
theorem shiftHeld_snoc (history : List Byte) (scancode : Byte) :
    shiftHeld (history ++ [scancode]) = true ↔
      if keyOf scancode = scancodeLeftShift ∨ keyOf scancode = scancodeRightShift then
        isRelease scancode = false ∨ OtherStaysHeld history scancode
      else shiftHeld history = true := by
  have differ : scancodeLeftShift ≠ scancodeRightShift := by decide
  rw [shiftHeld, keyDown_snoc, keyDown_snoc]
  by_cases left : keyOf scancode = scancodeLeftShift
  · have notRight : keyOf scancode ≠ scancodeRightShift := left ▸ differ
    cases pressed : isRelease scancode <;> simp [left, differ, OtherStaysHeld, pressed]
  · by_cases right : keyOf scancode = scancodeRightShift
    · cases pressed : isRelease scancode <;>
        simp [right, differ.symm, OtherStaysHeld, pressed]
    · simp [left, right, shiftHeld]

/-! ## The flag -/

theorem Keyboard.read_shiftPressed (k : Keyboard) (scancode : Byte) :
    (k.read scancode).shiftPressed =
      if keyOf scancode = scancodeLeftShift ∨ keyOf scancode = scancodeRightShift then
        !isRelease scancode
      else k.shiftPressed := by
  have flag : (k.read scancode).shiftPressed = (k.modify scancode).shiftPressed := by
    rw [read]
    split <;> rfl
  rw [flag, modify, scancodeLeftShift, scancodeRightShift]
  split <;> split <;> split <;> rfl

/-- A press offers the character of its key, a release none. -/
theorem Keyboard.read_kbBuffer (k : Keyboard) (scancode : Byte) :
    (k.read scancode).kbBuffer =
      if isRelease scancode then k.kbBuffer
      else putChar k.kbBuffer (scancodeChar (k.read scancode).shiftPressed (keyOf scancode)) := by
  have kept : (k.modify scancode).kbBuffer = k.kbBuffer := by
    rw [modify]
    split <;> split <;> split <;> rfl
  cases released : isRelease scancode
  · simp only [read, released, kept, Bool.not_false, ↓reduceIte, Bool.false_eq_true]
  · simp only [read, released, kept, Bool.not_true, ↓reduceIte, Bool.false_eq_true]

theorem Keyboard.run_snoc (k : Keyboard) (events : List KeyboardEvent) (event : KeyboardEvent) :
    k.run (events ++ [event]) = (k.run events).step event :=
  List.foldl_append.trans rfl

theorem scancodes_snoc (events : List KeyboardEvent) (scancode : Byte) :
    scancodes (events ++ [.scancode scancode]) = scancodes events ++ [scancode] := by
  simp [scancodes]

theorem scancodes_other {events : List KeyboardEvent} {event : KeyboardEvent}
    (other : ∀ scancode, event ≠ .scancode scancode) :
    scancodes (events ++ [event]) = scancodes events := by
  cases event with
  | scancode scancode => exact absurd rfl (other scancode)
  | getchar c => simp [scancodes]
  | init => simp [scancodes]

/-- After this scancode the flag says whether a shift key is held, and what the scancode puts
into the ring is the character of its key with the shift keys as they are. -/
structure TracksShift (k : Keyboard) (events : List KeyboardEvent) (scancode : Byte) : Prop where
  flag : (k.run (events ++ [.scancode scancode])).shiftPressed =
    shiftHeld (scancodes events ++ [scancode])
  put : (k.run (events ++ [.scancode scancode])).kbBuffer =
    if isRelease scancode then (k.run events).kbBuffer
    else putChar (k.run events).kbBuffer
      (scancodeChar (shiftHeld (scancodes events ++ [scancode])) (keyOf scancode))

/-- So it is after every scancode of a run. -/
def ShiftTracked (k : Keyboard) (events : List KeyboardEvent) : Prop :=
  ∀ before scancode later, events = before ++ .scancode scancode :: later →
    TracksShift k before scancode

/-- No shift key is released while the other one is held. -/
def ShiftsApart (events : List KeyboardEvent) : Prop :=
  ∀ before scancode later, events = before ++ .scancode scancode :: later →
    ¬ OtherStaysHeld (scancodes before) scancode

theorem ShiftsApart.before {events later : List KeyboardEvent}
    (apart : ShiftsApart (events ++ later)) : ShiftsApart events := by
  rintro first scancode rest rfl
  exact apart first scancode (rest ++ later) (by simp)

/-- One scancode: the flag stays right unless the other shift key stays held. -/
theorem Keyboard.read_flag_iff {k : Keyboard} {history : List Byte}
    (right : k.shiftPressed = shiftHeld history) (scancode : Byte) :
    (k.read scancode).shiftPressed = shiftHeld (history ++ [scancode]) ↔
      ¬ OtherStaysHeld history scancode := by
  rw [Bool.eq_iff_iff, shiftHeld_snoc, read_shiftPressed]
  by_cases shift : keyOf scancode = scancodeLeftShift ∨ keyOf scancode = scancodeRightShift
  · rw [if_pos shift, if_pos shift]
    cases released : isRelease scancode
    · simp [OtherStaysHeld, released]
    · simp
  · have notShift : ¬ OtherStaysHeld history scancode := by
      rintro ⟨-, ⟨left, -⟩ | ⟨right, -⟩⟩
      · exact shift (.inl left)
      · exact shift (.inr right)
    rw [if_neg shift, if_neg shift, right]
    exact ⟨fun _ => notShift, fun _ => Iff.rfl⟩

/-- While no shift key was released with the other one held, the flag is right. -/
theorem Keyboard.run_flag {k : Keyboard} (initially : k.shiftPressed = false)
    (events : List KeyboardEvent)
    (apart : ShiftsApart events) : (k.run events).shiftPressed = shiftHeld (scancodes events) := by
  induction events using List.reverseRecOn with
  | nil => exact initially
  | append_singleton events event ih =>
      have before := ih apart.before
      cases event with
      | scancode scancode =>
          rw [run_snoc, scancodes_snoc]
          exact (read_flag_iff before scancode).mpr (apart events scancode [] rfl)
      | getchar c =>
          rw [run_snoc, scancodes_other fun _ => KeyboardEvent.noConfusion]
          exact before
      | init =>
          rw [run_snoc, scancodes_other fun _ => KeyboardEvent.noConfusion]
          exact before

/-- **The shift flag.** From a state in which the flag is clear, whatever is read and taken
out: the flag and the characters put into the ring follow the shift keys after every scancode
if and only if no shift key is released while the other one is held. -/
theorem shiftTracked_iff (k : Keyboard) (initially : k.shiftPressed = false)
    (events : List KeyboardEvent) : ShiftTracked k events ↔ ShiftsApart events := by
  constructor
  · intro tracked before scancode later split stays
    have flag := (tracked before scancode later split).flag
    have shift : keyOf scancode = scancodeLeftShift ∨ keyOf scancode = scancodeRightShift :=
      stays.2.imp And.left And.left
    have held : shiftHeld (scancodes before ++ [scancode]) = true := by
      rw [shiftHeld_snoc, if_pos shift]
      exact .inr stays
    rw [held, Keyboard.run_snoc, Keyboard.step, Keyboard.read_shiftPressed, if_pos shift,
      stays.1] at flag
    cases flag
  · rintro apart before scancode later rfl
    have right := Keyboard.run_flag initially before apart.before
    have flag := (Keyboard.read_flag_iff right scancode).mpr (apart before scancode later rfl)
    constructor
    · rw [Keyboard.run_snoc]
      exact flag
    · rw [Keyboard.run_snoc, ← flag]
      exact Keyboard.read_kbBuffer _ scancode

/-- The keyboard at boot. -/
def Keyboard.boot : Keyboard := ⟨rbInit fun _ => 0, false, false, false⟩

/-- Left shift down, right shift down, left shift up. -/
def bothShifts : List KeyboardEvent := [.scancode 0x2A, .scancode 0x36, .scancode 0xAA]

/-- The flag is cleared while right shift is held. -/
theorem bothShifts_lost : ¬ ShiftTracked .boot bothShifts := by
  intro tracked
  have flag := (tracked [.scancode 0x2A, .scancode 0x36] 0xAA [] rfl).flag
  revert flag
  decide

/-- With one shift key the flag follows. -/
theorem leftShift_tracked : ShiftTracked .boot [.scancode 0x2A, .scancode 0xAA] := by
  refine (shiftTracked_iff .boot rfl _).mpr ?_
  intro before scancode later split
  cases before with
  | nil =>
      obtain ⟨rfl, -⟩ : 0x2A = scancode ∧ _ := by simpa using split
      decide
  | cons first before =>
      obtain ⟨rfl, rest⟩ := List.cons.inj split
      cases before with
      | nil =>
          obtain ⟨rfl, -⟩ : 0xAA = scancode ∧ _ := by simpa using rest
          decide
      | cons second before => simp at rest

end NTux.Drivers
