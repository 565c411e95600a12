import NTux.Console.LineEditing
import NTux.Drivers.Keyboard

/-! # The main loop

The loop of `kmain` polls the keyboard, hands the shell at most one character of the ring, lets
the cursor blink, and halts until the next interrupt. What is typed goes from the scancodes
through the ring to the line: as long as the ring has room for what a poll brings, the shell
executes the lines that are typed, one turn for each character (`typed_executed`).
-/

namespace NTux.Console

open NTux.Foundation NTux.Drivers

/-! ## The loop -/

/-- What the loop works on: the keyboard, the shell and `last_blink_tick`. -/
structure Machine where
  keyboard : Keyboard
  shell : Shell
  lastBlinkTick : Int

/-- What a turn meets: the ports 0x64 and 0x60 at each look of the poll, what stands in `c`
before, and the ticks that `get_tick_count` returns, call by call. -/
structure Turn where
  reads : List (Byte × Byte)
  stale : Byte
  ticks : Nat × Nat × Nat

namespace Machine

/-- `update_cursor_blink`. -/
def updateCursorBlink (ticks : Nat × Nat × Nat) (m : Machine) : Machine :=
  let (first, second, third) := ticks
  if 20 ≤ uint64 (first - m.lastBlinkTick) then
    let m := { m with lastBlinkTick := int second }
    let shell :=
      if m.shell.cursorVisible then
        { m.shell with
          terminal := { m.shell.terminal with screen := clearCursor m.shell.terminal.screen }
          cursorVisible := false }
      else { m.shell with terminal := m.shell.terminal.render, cursorVisible := true }
    { m with shell := shell, lastBlinkTick := int third }
  else m

/-- `keyboard_getchar` and `shell_handle_key`, if there is a character. -/
def handleChar (parts : ShellParts) (stale : Byte) (m : Machine) : Machine :=
  let (got, c, rb) := rbGet m.keyboard.kbBuffer stale
  let m := { m with keyboard := { m.keyboard with kbBuffer := rb } }
  if got ≠ 0 then { m with shell := m.shell.handleKey parts c } else m

/-- A turn of the loop of `kmain`. -/
def turn (parts : ShellParts) (turn : Turn) (m : Machine) : Machine :=
  ({ m with keyboard := m.keyboard.poll turn.reads }.handleChar parts turn.stale).updateCursorBlink
    turn.ticks

/-- The characters that wait in the ring. -/
def waiting (m : Machine) : List Byte := m.keyboard.kbBuffer.queue.items

end Machine

def MachineStep (parts : ShellParts) (m : Machine) (turn : Turn) (m' : Machine) : Prop :=
  m' = m.turn parts turn

/-! ## What scancodes type -/

/-- Whether the driver takes shift as held behind a scancode. -/
def shiftAfter (shift : Bool) (scancode : Byte) : Bool :=
  if keyOf scancode = scancodeLeftShift ∨ keyOf scancode = scancodeRightShift then
    !isRelease scancode
  else shift

/-- The character of a scancode, if it has one. -/
def typedBy (shift : Bool) (scancode : Byte) : List Byte :=
  let c := scancodeChar (shiftAfter shift scancode) (keyOf scancode)
  if isRelease scancode ∨ c = 0 then [] else [c]

/-- The characters that scancodes type. -/
def typed : Bool → List Byte → List Byte
  | _, [] => []
  | shift, scancode :: later => typedBy shift scancode ++ typed (shiftAfter shift scancode) later

theorem typed_append (shift : Bool) (scancodes later : List Byte) :
    typed shift (scancodes ++ later) =
      typed shift scancodes ++ typed (scancodes.foldl shiftAfter shift) later := by
  induction scancodes generalizing shift with
  | nil => rfl
  | cons scancode scancodes ih =>
      rw [List.cons_append, typed, ih, typed, List.append_assoc, List.foldl_cons]

theorem putChar_items {rb : RingBuffer} {c : Byte} (real : c ≠ 0)
    (room : rb.queue.items.length < ringbufferSize - 1) :
    (Drivers.putChar rb c).queue.items = rb.queue.items ++ [c] := by
  unfold Drivers.putChar
  rw [if_pos real, (rbPut_queue rb c).2, BoundedQueue.put, dif_pos room]

/-- A scancode types its character, if there is room for it. -/
theorem Keyboard.read_types (k : Keyboard) {scancode : Byte}
    (room : k.kbBuffer.queue.items.length + (typedBy k.shiftPressed scancode).length ≤
      ringbufferSize - 1) :
    (k.read scancode).shiftPressed = shiftAfter k.shiftPressed scancode ∧
      (k.read scancode).kbBuffer.queue.items =
        k.kbBuffer.queue.items ++ typedBy k.shiftPressed scancode := by
  have shift : (k.read scancode).shiftPressed = shiftAfter k.shiftPressed scancode :=
    k.read_shiftPressed scancode
  refine ⟨shift, ?_⟩
  rw [k.read_kbBuffer, shift]
  unfold typedBy at room ⊢
  dsimp only at room ⊢
  by_cases released : isRelease scancode = true
  · rw [if_pos released, if_pos (.inl released), List.append_nil]
  · rw [if_neg released]
    by_cases none : scancodeChar (shiftAfter k.shiftPressed scancode) (keyOf scancode) = 0
    · rw [if_pos (.inr none), List.append_nil, none]
      rfl
    · have neither : ¬ (isRelease scancode = true ∨
          scancodeChar (shiftAfter k.shiftPressed scancode) (keyOf scancode) = 0) := by
        rintro (release | zero)
        · exact released release
        · exact none zero
      rw [if_neg neither] at room ⊢
      exact putChar_items none room

/-- A poll types the characters of its scancodes. -/
theorem Keyboard.run_types (scancodes : List Byte) : ∀ {k : Keyboard},
    k.kbBuffer.queue.items.length + (typed k.shiftPressed scancodes).length ≤ ringbufferSize - 1 →
    (k.run (scancodes.map .scancode)).shiftPressed = scancodes.foldl shiftAfter k.shiftPressed ∧
      (k.run (scancodes.map .scancode)).kbBuffer.queue.items =
        k.kbBuffer.queue.items ++ typed k.shiftPressed scancodes := by
  induction scancodes with
  | nil => exact fun _ => ⟨rfl, (List.append_nil _).symm⟩
  | cons scancode scancodes ih =>
      intro k room
      rw [typed, List.length_append] at room
      obtain ⟨shift, items⟩ := @Keyboard.read_types k scancode (by omega)
      obtain ⟨shift', items'⟩ := @ih (k.read scancode) (by
        rw [shift, items, List.length_append]
        omega)
      rw [shift] at shift' items'
      rw [items, List.append_assoc] at items'
      exact ⟨shift', items'⟩

/-! ## The line that is typed -/

/-- A key as the shell takes it: a backspace removes two characters. -/
def strikeLine (line : List Byte) (key : Byte) : List Byte :=
  if key = backspace then line.dropLast.dropLast else editLine line key

def Editor.strike (editor : Editor) (key : Byte) : Editor :=
  if key = newline then ⟨[], editor.entered ++ [editor.line]⟩
  else { editor with line := strikeLine editor.line key }

/-- The editor behind some keys. -/
def Editor.behind (keys : List Byte) : Editor := keys.foldl Editor.strike ⟨[], []⟩

/-- A line with fewer characters. -/
theorem Refines.take {s t : Shell} {editor : Editor} (refines : Refines s editor) {count : Nat}
    (fewer : t.inputLen = count) (less : count ≤ editor.line.length)
    (buffer : ∀ i < count, t.inputBuffer i = s.inputBuffer i)
    (executed : t.executed = s.executed) :
    Refines t { editor with line := editor.line.take count } := by
  have length : (editor.line.take count).length = count := List.length_take_of_le less
  refine ⟨fewer.trans length.symm, ?_, ?_, ?_, executed.trans refines.executed⟩
  · exact length.trans_lt (less.trans_lt refines.room)
  · intro i inside
    dsimp only at inside ⊢
    rw [length] at inside
    rw [buffer i inside, refines.held i (inside.trans_le less), List.getElem_take]
  · exact fun c member => refines.real c (List.mem_of_mem_take member)

/-- Both removals of a backspace. -/
theorem Refines.backspace {s : Shell} {editor : Editor} (refines : Refines s editor)
    (parts : ShellParts) (held : 0 < s.inputLen) :
    Refines (s.editKey parts Console.backspace)
      { editor with line := editor.line.dropLast.dropLast } := by
  have length := refines.length
  have two : editor.line.dropLast.dropLast = editor.line.take (s.inputLen - 2) := by
    rw [List.dropLast_eq_take, List.dropLast_eq_take, List.take_take, List.length_take, length]
    congr 1
    omega
  have differs : Console.backspace ≠ newline := by decide
  rw [two]
  unfold Shell.editKey
  rw [if_neg differs, if_pos rfl, if_pos held]
  unfold Shell.shellBackspace
  dsimp only
  by_cases one : s.inputLen - 1 = 0
  · rw [if_pos one]
    refine refines.take ?_ (by omega) ?_ rfl
    · change s.inputLen - 1 = s.inputLen - 2
      omega
    · intro i inside
      omega
  · rw [if_neg one]
    refine refines.take ?_ (by omega) ?_ rfl
    · change s.inputLen - 1 - 1 = s.inputLen - 2
      omega
    · intro i inside
      change Function.update (Function.update s.inputBuffer (s.inputLen - 1) 0)
        (s.inputLen - 1 - 1) 0 i = _
      rw [Function.update_of_ne (by omega), Function.update_of_ne (by omega)]

/-- **A key** does to the shell what it does to the line. -/
theorem Refines.strike {s : Shell} {editor : Editor} (refines : Refines s editor)
    (parts : ShellParts) (key : Byte) : Refines (s.handleKey parts key) (editor.strike key) := by
  have hidden : s.hideCursor.inputBuffer = s.inputBuffer ∧ s.hideCursor.inputLen = s.inputLen ∧
      s.hideCursor.executed = s.executed := by
    unfold Shell.hideCursor
    split <;> exact ⟨rfl, rfl, rfl⟩
  have before := refines.congr hidden.1 hidden.2.1 hidden.2.2
  have edited : Refines (s.hideCursor.editKey parts key) (editor.strike key) := by
    by_cases erases : key = Console.backspace ∧ 0 < s.hideCursor.inputLen
    · have differs : Console.backspace ≠ newline := by decide
      rw [erases.1, Editor.strike, if_neg differs, strikeLine, if_pos rfl]
      exact before.backspace parts erases.2
    · have single : SingleErase s.hideCursor key := fun same => by
        have none := mt (And.intro same) erases
        omega
      have same : editor.strike key = editor.press key := by
        unfold Editor.strike Editor.press strikeLine
        by_cases same : key = Console.backspace
        · have none := mt (And.intro same) erases
          have empty : editor.line = [] := List.eq_nil_of_length_eq_zero (by
            rw [← before.length]
            omega)
          rw [if_pos same, empty, editLine, if_pos same]
          rfl
        · rw [if_neg same]
      rw [same]
      exact before.edit parts single
  exact edited.congr rfl rfl rfl

/-! ## Turns -/

/-- The shell has taken the first characters that were typed, and the others wait. -/
structure Machine.Follows (text : List Byte) (m : Machine) : Prop where
  handled : ∃ keys, text = keys ++ m.waiting ∧ Refines m.shell (.behind keys)

/-- The cursor blinks, and nothing else changes. -/
theorem Machine.Follows.updateCursorBlink {m : Machine} {text : List Byte} (follows : m.Follows text)
    (ticks : Nat × Nat × Nat) : (m.updateCursorBlink ticks).Follows text ∧
      (m.updateCursorBlink ticks).keyboard = m.keyboard := by
  obtain ⟨keys, split, refines⟩ := follows.handled
  obtain ⟨first, second, third⟩ := ticks
  unfold Machine.updateCursorBlink
  dsimp only
  split
  · split
    · exact ⟨⟨keys, split, refines.congr rfl rfl rfl⟩, rfl⟩
    · exact ⟨⟨keys, split, refines.congr rfl rfl rfl⟩, rfl⟩
  · exact ⟨follows, rfl⟩

/-- The shell takes a character, if one waits. -/
theorem Machine.Follows.handleChar {m : Machine} {text : List Byte} (follows : m.Follows text)
    (parts : ShellParts) (stale : Byte) : (m.handleChar parts stale).Follows text ∧
      (m.handleChar parts stale).waiting = m.waiting.tail ∧
      (m.handleChar parts stale).keyboard.shiftPressed = m.keyboard.shiftPressed := by
  obtain ⟨keys, split, refines⟩ := follows.handled
  obtain ⟨got, char, rest⟩ := rbGet_queue m.keyboard.kbBuffer stale
  unfold Machine.handleChar
  generalize rbGet m.keyboard.kbBuffer stale = answer at got char rest ⊢
  obtain ⟨got', c, rb⟩ := answer
  dsimp only at got char rest ⊢
  cases waits : m.keyboard.kbBuffer.queue.items with
  | nil =>
      rw [BoundedQueue.get_nil waits] at got rest
      have zero : ¬ got' ≠ 0 := not_not.mpr got
      have same : rb.queue.items = m.waiting := congrArg BoundedQueue.items rest
      have none : m.waiting = [] := waits
      rw [if_neg zero]
      refine ⟨⟨keys, ?_, refines⟩, ?_, rfl⟩
      · exact split.trans (congrArg (keys ++ ·) same.symm)
      · exact same.trans (by rw [none]; rfl)
  | cons key later =>
      obtain ⟨front, behind⟩ := BoundedQueue.get_cons waits
      rw [front] at got char
      have one : got' ≠ 0 := by
        rw [got]
        exact Nat.one_ne_zero
      have same : rb.queue.items = later := (congrArg BoundedQueue.items rest).trans behind
      have some : m.waiting = key :: later := waits
      rw [if_pos one]
      refine ⟨⟨keys ++ [key], ?_, ?_⟩, ?_, rfl⟩
      · change text = keys ++ [key] ++ rb.queue.items
        rw [same, split, some, List.append_assoc]
        rfl
      · rw [Editor.behind, List.foldl_append]
        change Refines (m.shell.handleKey parts c) _
        rw [char]
        exact refines.strike parts key
      · change rb.queue.items = _
        rw [same, some]
        rfl

/-- The scancodes that the poll of a turn reads. -/
def Turn.scancodes (turn : Turn) : List Byte := polled turn.reads

/-- The ring has room for what a turn's poll brings. -/
def Turn.Fits (m : Machine) (turn : Turn) : Prop :=
  m.waiting.length + (typed m.keyboard.shiftPressed turn.scancodes).length ≤ ringbufferSize - 1

instance (m : Machine) (turn : Turn) : Decidable (turn.Fits m) :=
  inferInstanceAs (Decidable (_ ≤ _))

/-- **A turn** types the characters of its scancodes, and the shell takes one. -/
theorem Machine.Follows.turn {m : Machine} {text : List Byte} (follows : m.Follows text)
    (parts : ShellParts) {turn : Turn} (fits : turn.Fits m) :
    (m.turn parts turn).Follows (text ++ typed m.keyboard.shiftPressed turn.scancodes) ∧
      (m.turn parts turn).waiting =
        (m.waiting ++ typed m.keyboard.shiftPressed turn.scancodes).tail ∧
      (m.turn parts turn).keyboard.shiftPressed =
        turn.scancodes.foldl shiftAfter m.keyboard.shiftPressed := by
  obtain ⟨keys, split, refines⟩ := follows.handled
  obtain ⟨shift, items⟩ := Keyboard.run_types turn.scancodes fits
  rw [Turn.scancodes, ← Keyboard.poll_run] at shift items
  have polled : Machine.Follows (text ++ typed m.keyboard.shiftPressed turn.scancodes)
      { m with keyboard := m.keyboard.poll turn.reads } := by
    refine ⟨keys, ?_, refines⟩
    rw [split, List.append_assoc]
    exact congrArg (keys ++ ·) items.symm
  obtain ⟨handled, waiting, shift'⟩ := polled.handleChar parts turn.stale
  obtain ⟨blinked, same⟩ := handled.updateCursorBlink turn.ticks
  refine ⟨blinked, ?_, ?_⟩
  · unfold Machine.waiting Machine.turn
    rw [same]
    exact waiting.trans (congrArg List.tail items)
  · unfold Machine.turn
    rw [same, shift']
    exact shift

/-- The scancodes of some turns. -/
def scancodesOf (turns : List Turn) : List Byte := turns.flatMap Turn.scancodes

/-- Turns for which there is room type their scancodes. -/
theorem Machine.Follows.run {parts : ShellParts} {s t : Machine} {turns : List Turn}
    {text : List Byte} (follows : s.Follows text)
    (run : Run (Guarded (fun m turn => turn.Fits m) (MachineStep parts)) s turns t) :
    t.Follows (text ++ typed s.keyboard.shiftPressed (scancodesOf turns)) := by
  induction run generalizing text with
  | nil state =>
      change state.Follows (text ++ [])
      rwa [List.append_nil]
  | cons taken _ ih =>
      obtain ⟨fits, rfl⟩ := taken
      obtain ⟨after, -, shift⟩ := follows.turn parts fits
      have rest := ih after
      rw [shift, List.append_assoc, ← typed_append] at rest
      exact rest

/-- A turn without a scancode. -/
def Turn.Quiet (turn : Turn) : Prop := turn.scancodes = []

/-- Each turn without a scancode takes one of the characters that wait. -/
theorem Machine.Follows.quiet {parts : ShellParts} {s t : Machine} {turns : List Turn}
    {text : List Byte} (follows : s.Follows text)
    (run : Run (Guarded (fun _ turn => turn.Quiet) (MachineStep parts)) s turns t) :
    t.Follows text ∧ t.waiting.length = s.waiting.length - turns.length := by
  induction run with
  | nil state => exact ⟨follows, rfl⟩
  | @cons m next target turn turns taken _ ih =>
      obtain ⟨quiet, rfl⟩ := taken
      have none : typed m.keyboard.shiftPressed turn.scancodes = [] := by
        rw [quiet]
        rfl
      have fits : turn.Fits m := by
        unfold Turn.Fits
        rw [none]
        exact m.keyboard.kbBuffer.queue.bounded
      obtain ⟨after, waiting, -⟩ := follows.turn parts fits
      rw [none, List.append_nil] at after waiting
      obtain ⟨follows', length⟩ := ih after
      refine ⟨follows', ?_⟩
      rw [length, waiting, List.length_tail, List.length_cons]
      omega

/-- **What is typed is executed.** From an empty ring and an empty line on, after any turns whose
polls find room in the ring and as many turns without a scancode as there are characters waiting
then, the shell has executed the lines that were typed and holds the one that was begun. -/
theorem typed_executed {parts : ShellParts} {s t u : Machine} {turns idle : List Turn}
    (ring : s.waiting = []) (line : s.shell.inputLen = 0) (fresh : s.shell.executed = [])
    (run : Run (Guarded (fun m turn => turn.Fits m) (MachineStep parts)) s turns t)
    (rest : Run (Guarded (fun _ turn => turn.Quiet) (MachineStep parts)) t idle u)
    (long : t.waiting.length ≤ idle.length) :
    Refines u.shell (.behind (typed s.keyboard.shiftPressed (scancodesOf turns))) ∧
      u.waiting = [] := by
  have start : s.Follows [] := by
    refine ⟨[], ring.symm, ?_⟩
    have refines := refines_empty line
    rw [fresh] at refines
    exact refines
  obtain ⟨follows, left⟩ := (start.run run).quiet rest
  obtain ⟨keys, split, refines⟩ := follows.handled
  have none : u.waiting = [] := List.eq_nil_of_length_eq_zero (by omega)
  rw [none, List.append_nil, List.nil_append] at split
  rw [split]
  exact ⟨refines, none⟩

/-! ### A letter, a backspace and a line -/

def sampleMachine : Machine := ⟨Keyboard.boot, sampleShell, 0⟩

/-- Pressed are shift and `a`, and the keys for a backspace, `b` and the end of the line. -/
def sampleTurn : Turn where
  reads := [(1, 0x2A), (1, 0x1E), (1, 0x9E), (1, 0xAA), (1, 0x0E), (1, 0x30), (1, 0x1C), (0, 0)]
  stale := 0
  ticks := (0, 0, 0)

def quietTurn : Turn := ⟨[(0, 0)], 0, (0, 0, 0)⟩

/-- The machine after the turn of the sample and some without a scancode. -/
def sampleAfter : Nat → Machine
  | 0 => sampleMachine.turn sampleParts sampleTurn
  | count + 1 => (sampleAfter count).turn sampleParts quietTurn

theorem typed_executed_sample :
    Run (MachineStep sampleParts) sampleMachine [sampleTurn] (sampleAfter 0) ∧
      Run (MachineStep sampleParts) (sampleAfter 0) [quietTurn, quietTurn, quietTurn]
        (sampleAfter 3) ∧
      (sampleAfter 3).shell.executed = [chars "b"] := by
  have turn : MachineStep sampleParts sampleMachine sampleTurn (sampleAfter 0) := rfl
  have quiet (count : Nat) :
      MachineStep sampleParts (sampleAfter count) quietTurn (sampleAfter (count + 1)) := rfl
  have silent : quietTurn.Quiet := rfl
  refine ⟨.single turn, .cons (quiet 0) (.cons (quiet 1) (.single (quiet 2))), ?_⟩
  have executed := @typed_executed sampleParts sampleMachine _ _ _ _ rfl rfl rfl
    (.single ⟨by decide, turn⟩)
    (.cons ⟨silent, quiet 0⟩ (.cons ⟨silent, quiet 1⟩ (.single ⟨silent, quiet 2⟩))) (by decide)
  exact executed.1.executed

end NTux.Console
