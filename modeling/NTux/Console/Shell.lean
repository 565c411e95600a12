import NTux.Console.Text
import Mathlib.Logic.Function.Basic

/-! # The shell's keys

`main.c`: the shell collects the characters of a command in a buffer and hands it to
`shell_execute_command` at the end of the line. What a command does is a parameter. No
command writes to the input buffer, so the parameter changes the screen only.
-/

namespace NTux.Console

open NTux.Foundation

/-- `SHELL_MAX_INPUT`. -/
abbrev shellMaxInput : Nat := 128

/-- `'\b'`. -/
def backspace : Byte := 0x08

/-- What the shell draws on: `back_buffer`, `shell_cursor`, `fb_width` and `color`. -/
structure Terminal where
  screen : Screen
  fbWidth : Int
  color : Nat

/-- The static variables of the shell, and the strings that `shell_execute_command` got. -/
structure Shell where
  terminal : Terminal
  inputBuffer : Nat → Byte
  inputLen : Nat
  cursorVisible : Bool
  executed : List (List Byte)

/-- What the font and the commands do. -/
structure ShellParts where
  font : Font
  execute : List Byte → Terminal → Terminal

/-- The string in the first `size` bytes of a buffer. -/
def cString (buffer : Nat → Byte) (size : Nat) : List Byte :=
  ((List.range size).map buffer).takeWhile (· ≠ 0)

/-- `<NTux-OS> :` -/
def prompt : List Byte :=
  [0x3C, 0x4E, 0x54, 0x75, 0x78, 0x2D, 0x4F, 0x53, 0x3E, 0x20, 0x3A]

namespace Terminal

def putChar (parts : ShellParts) (c : Byte) (t : Terminal) : Terminal :=
  { t with screen := putCharWithCursor parts.font t.screen c t.color }

def render (t : Terminal) : Terminal := { t with screen := renderCursor t.screen t.color }

/-- `shell_print_prompt`. -/
def printPrompt (parts : ShellParts) (t : Terminal) : Terminal :=
  prompt.foldl (fun t c => t.putChar parts c) t

/-- The drawing of `shell_backspace`: the cursor moves back, and `draw_char_lim` gets the
width of the screen for `x`, the cursor's `x` for `y` and its `y` for the character. -/
def erase (parts : ShellParts) (t : Terminal) : Terminal :=
  let cursor := t.screen.cursor
  let cursor :=
    if cursor.charWidth ≤ cursor.x then { cursor with x := int (cursor.x - cursor.charWidth) }
    else if 0 < cursor.y then
      { cursor with x := int (t.fbWidth - cursor.charWidth)
                    y := int (cursor.y - cursor.charHeight) }
    else cursor
  let memory := drawChar parts.font t.screen.fb t.fbWidth cursor.x (BitVec.ofInt 8 cursor.y)
    colorBlack t.screen.memory
  render { t with screen := { t.screen with cursor := cursor, memory := memory } }

end Terminal

namespace Shell

/-- `shell_backspace`. -/
def shellBackspace (parts : ShellParts) (s : Shell) : Shell :=
  if s.inputLen = 0 then s
  else
    { s with inputLen := s.inputLen - 1
             inputBuffer := Function.update s.inputBuffer (s.inputLen - 1) 0
             terminal := s.terminal.erase parts
             cursorVisible := true }

/-- `shell_clear_input`. -/
def clearInput (s : Shell) : Shell :=
  { s with inputLen := 0, inputBuffer := Function.update s.inputBuffer 0 0 }

/-- `shell_handle_key` at the end of a line. -/
def handleNewline (parts : ShellParts) (s : Shell) : Shell :=
  let buffer := Function.update s.inputBuffer s.inputLen 0
  let command := cString buffer shellMaxInput
  let screen := printText parts.font s.terminal.color [newline, 0] s.terminal.screen
  let s := clearInput
    { s with inputBuffer := buffer
             executed := s.executed ++ [command]
             terminal := parts.execute command { s.terminal with screen := screen } }
  { s with terminal := s.terminal.printPrompt parts }

/-- `shell_handle_key` up to the drawing of the cursor. -/
def editKey (parts : ShellParts) (s : Shell) (c : Byte) : Shell :=
  if c = newline then s.handleNewline parts
  else if c = backspace then
    if 0 < s.inputLen then
      shellBackspace parts
        { s with inputLen := s.inputLen - 1
                 inputBuffer := Function.update s.inputBuffer (s.inputLen - 1) 0 }
    else s
  else if 32 ≤ c.toInt ∧ c.toInt < 127 then
    if s.inputLen < shellMaxInput - 1 then
      { s with inputBuffer := Function.update s.inputBuffer s.inputLen c
               inputLen := s.inputLen + 1
               terminal := s.terminal.putChar parts c }
    else s
  else s

/-- The cursor is cleared where it can be seen. -/
def hideCursor (s : Shell) : Shell :=
  if s.cursorVisible then
    { s with terminal := { s.terminal with screen := clearCursor s.terminal.screen } }
  else s

/-- `shell_handle_key`. -/
def handleKey (parts : ShellParts) (s : Shell) (c : Byte) : Shell :=
  let s := s.hideCursor.editKey parts c
  { s with cursorVisible := true, terminal := s.terminal.render }

end Shell

def ShellStep (parts : ShellParts) (s : Shell) (key : Byte) (t : Shell) : Prop :=
  t = s.handleKey parts key

end NTux.Console
