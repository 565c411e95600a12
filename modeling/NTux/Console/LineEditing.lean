import NTux.Console.Shell
import NTux.Foundation.Runs

/-! # The shell as a line editor

An abstract line editor holds the characters of the line and the lines that were entered.
The shell's buffer refines it key by key (`Refines`), as long as a backspace meets at most
one character: `shell_handle_key` removes a character and so does `shell_backspace`.
-/

namespace NTux.Console

open NTux.Foundation

/-! ## The editor -/

/-- The line being edited, and the lines that were entered. -/
structure Editor where
  line : List Byte
  entered : List (List Byte)

def printable (key : Byte) : Prop := 32 ≤ key.toInt ∧ key.toInt ≤ 126

instance (key : Byte) : Decidable (printable key) := inferInstanceAs (Decidable (_ ∧ _))

/-- A key other than the end of a line. -/
def editLine (line : List Byte) (key : Byte) : List Byte :=
  if key = backspace then line.dropLast
  else if printable key then
    if line.length < shellMaxInput - 1 then line ++ [key] else line
  else line

def Editor.press (editor : Editor) (key : Byte) : Editor :=
  if key = newline then ⟨[], editor.entered ++ [editor.line]⟩
  else { editor with line := editLine editor.line key }

/-- The keys of each line that was entered, folded over an empty line. -/
def linesOf (keys : List Byte) : List (List Byte) :=
  (keys.foldl Editor.press ⟨[], []⟩).entered

/-! ## The buffer -/

/-- The shell holds the editor's line in its buffer and has executed the editor's lines. -/
structure Refines (s : Shell) (editor : Editor) : Prop where
  length : s.inputLen = editor.line.length
  room : editor.line.length < shellMaxInput
  held : ∀ (i : Nat) (inside : i < editor.line.length), s.inputBuffer i = editor.line[i]
  real : ∀ c ∈ editor.line, c ≠ 0
  executed : s.executed = editor.entered

theorem cString_of_prefix {buffer : Nat → Byte} {text : List Byte} {size : Nat}
    (room : text.length < size)
    (held : ∀ (i : Nat) (inside : i < text.length), buffer i = text[i])
    (real : ∀ c ∈ text, c ≠ 0) (ends : buffer text.length = 0) : cString buffer size = text := by
  obtain ⟨rest, rfl⟩ : ∃ rest, size = text.length + (1 + rest) := ⟨size - text.length - 1, by omega⟩
  have first : (List.range text.length).map buffer = text := by
    apply List.ext_getElem
    · rw [List.length_map, List.length_range]
    · intro i inside inside'
      rw [List.getElem_map, List.getElem_range, held i inside']
  unfold cString
  rw [List.range_add, List.map_append, first, List.range_add, List.map_append, List.map_append]
  have stop : List.map buffer (List.map (text.length + ·) (List.range 1)) = [0] := by
    simp only [List.range_one, List.map_cons, List.map_nil, Nat.add_zero, ends]
  rw [stop, List.takeWhile_append_of_pos fun c member => decide_eq_true (real c member)]
  simp

/-- A key below the backspace's second removal. -/
def SingleErase (s : Shell) (key : Byte) : Prop := key = backspace → s.inputLen ≤ 1

/-- A shell with the same input. -/
theorem Refines.congr {s t : Shell} {editor : Editor} (refines : Refines s editor)
    (buffer : t.inputBuffer = s.inputBuffer) (length : t.inputLen = s.inputLen)
    (executed : t.executed = s.executed) : Refines t editor where
  length := length.trans refines.length
  room := refines.room
  held i inside := by rw [buffer, refines.held i inside]
  real := refines.real
  executed := executed.trans refines.executed

theorem refines_empty {s : Shell} (empty : s.inputLen = 0) : Refines s ⟨[], s.executed⟩ where
  length := empty
  room := Nat.zero_lt_succ _
  held _ inside := absurd inside (Nat.not_lt_zero _)
  real _ member := absurd member List.not_mem_nil
  executed := rfl

theorem Refines.enter {s : Shell} {editor : Editor} (refines : Refines s editor)
    (parts : ShellParts) : Refines (s.handleNewline parts) ⟨[], editor.entered ++ [editor.line]⟩ := by
  have command : cString (Function.update s.inputBuffer s.inputLen 0) shellMaxInput =
      editor.line := by
    apply cString_of_prefix refines.room
    · intro i inside
      have differ : i ≠ s.inputLen := by
        rw [refines.length]
        exact ne_of_lt inside
      rw [Function.update_of_ne differ, refines.held i inside]
    · exact refines.real
    · rw [← refines.length, Function.update_self]
  have executed : (s.handleNewline parts).executed = editor.entered ++ [editor.line] := by
    change s.executed ++ [cString _ shellMaxInput] = _
    rw [command, refines.executed]
  rw [← executed]
  exact refines_empty rfl

/-- The end of a line without its last character. -/
theorem Refines.erase {s t : Shell} {editor : Editor} (refines : Refines s editor)
    (short : s.inputLen ≤ 1) (empty : t.inputLen = 0) (executed : t.executed = s.executed) :
    Refines t { editor with line := editor.line.dropLast } := by
  have nothing : editor.line.dropLast = [] := by
    apply List.eq_nil_of_length_eq_zero
    rw [List.length_dropLast, ← refines.length]
    omega
  rw [nothing, ← refines.executed, ← executed]
  exact refines_empty empty

/-- A character behind the line. -/
theorem Refines.append {s t : Shell} {editor : Editor} {key : Byte} (refines : Refines s editor)
    (room : s.inputLen < shellMaxInput - 1) (real : key ≠ 0)
    (buffer : t.inputBuffer = Function.update s.inputBuffer s.inputLen key)
    (length : t.inputLen = s.inputLen + 1) (executed : t.executed = s.executed) :
    Refines t { editor with line := editor.line ++ [key] } := by
  refine ⟨?_, ?_, ?_, ?_, executed.trans refines.executed⟩
  · rw [length, refines.length, List.length_append, List.length_singleton]
  · rw [List.length_append, List.length_singleton, ← refines.length]
    omega
  · intro i inside
    dsimp only at inside ⊢
    rw [List.length_append, List.length_singleton] at inside
    rw [buffer]
    by_cases last : i = s.inputLen
    · subst last
      rw [Function.update_self]
      simp only [refines.length, List.getElem_concat_length]
    · have old : i < editor.line.length := by
        rw [← refines.length] at inside ⊢
        omega
      rw [Function.update_of_ne last, refines.held i old, List.getElem_append_left old]
  · intro c member
    rcases List.mem_append.mp member with old | last
    · exact refines.real c old
    · exact List.mem_singleton.mp last ▸ real

theorem Refines.edit {s : Shell} {editor : Editor} (refines : Refines s editor)
    (parts : ShellParts) {key : Byte} (single : SingleErase s key) :
    Refines (s.editKey parts key) (editor.press key) := by
  unfold Shell.editKey Editor.press
  by_cases ends : key = newline
  · rw [if_pos ends, if_pos ends]
    exact refines.enter parts
  · rw [if_neg ends, if_neg ends, editLine]
    by_cases erases : key = backspace
    · rw [if_pos erases, if_pos erases]
      have short := single erases
      by_cases held : 0 < s.inputLen
      · rw [if_pos held, Shell.shellBackspace]
        have last : s.inputLen - 1 = 0 := by omega
        rw [if_pos last]
        exact refines.erase short last rfl
      · rw [if_neg held]
        exact refines.erase short (by omega) rfl
    · rw [if_neg erases, if_neg erases]
      by_cases prints : 32 ≤ key.toInt ∧ key.toInt < 127
      · have prints' : printable key := ⟨prints.1, by omega⟩
        rw [if_pos prints, if_pos prints', ← refines.length]
        by_cases room : s.inputLen < shellMaxInput - 1
        · rw [if_pos room, if_pos room]
          have real : key ≠ 0 := by
            rintro rfl
            exact absurd prints.1 (by decide)
          exact refines.append room real rfl rfl rfl
        · rw [if_neg room, if_neg room]
          exact refines
      · have silent : ¬ printable key := fun both =>
          prints ⟨both.1, Int.lt_of_le_of_lt both.2 (by decide)⟩
        rw [if_neg prints, if_neg silent]
        exact refines

theorem Refines.step {s t : Shell} {editor : Editor} {parts : ShellParts} {key : Byte}
    (refines : Refines s editor) (single : SingleErase s key) (step : ShellStep parts s key t) :
    Refines t (editor.press key) := by
  obtain rfl := step
  have hidden : s.hideCursor.inputBuffer = s.inputBuffer ∧ s.hideCursor.inputLen = s.inputLen ∧
      s.hideCursor.executed = s.executed := by
    unfold Shell.hideCursor
    split <;> exact ⟨rfl, rfl, rfl⟩
  have before := refines.congr hidden.1 hidden.2.1 hidden.2.2
  have edited := before.edit parts fun erases => hidden.2.1 ▸ single erases
  exact edited.congr rfl rfl rfl

theorem Refines.run {s t : Shell} {editor : Editor} {parts : ShellParts} {keys : List Byte}
    (refines : Refines s editor) (run : Run (Guarded SingleErase (ShellStep parts)) s keys t) :
    Refines t (keys.foldl Editor.press editor) := by
  induction run generalizing editor with
  | nil => exact refines
  | cons taken _ ih => exact ih (refines.step taken.1 taken.2)

/-- **Line editing.** From an empty line on, the shell executes the lines that the editor
makes of the keys, as long as every backspace meets at most one character. -/
theorem shell_executes_lines {parts : ShellParts} {s t : Shell} {keys : List Byte}
    (empty : s.inputLen = 0) (fresh : s.executed = [])
    (run : Run (Guarded SingleErase (ShellStep parts)) s keys t) : t.executed = linesOf keys := by
  have refines := refines_empty empty
  rw [fresh] at refines
  exact (refines.run run).executed

/-! ## Two characters and a backspace -/

def sampleParts : ShellParts := ⟨fun _ _ => 0, fun _ t => t⟩

/-- The shell before its first key, without a screen. -/
def sampleShell : Shell where
  terminal := ⟨⟨⟨0, 0, 0, 0, 0⟩, initCursor 640 480, fun _ => 0⟩, 640, 0xFFFFFFFF⟩
  inputBuffer := fun _ => 0
  inputLen := 0
  cursorVisible := false
  executed := []

/-- `'a'`. -/
def letterA : Byte := 0x61

def sampleRun (keys : List Byte) : Shell := keys.foldl (Shell.handleKey sampleParts) sampleShell

theorem shell_executes_oneErase :
    (sampleRun [letterA, backspace, newline]).executed = linesOf [letterA, backspace, newline] := by
  have first : SingleErase sampleShell letterA := fun erases => absurd erases (by decide)
  have second : SingleErase (sampleRun [letterA]) backspace := fun _ => by decide
  have third : SingleErase (sampleRun [letterA, backspace]) newline :=
    fun erases => absurd erases (by decide)
  have empty : sampleShell.inputLen = 0 := rfl
  exact shell_executes_lines empty rfl
    (.cons ⟨first, rfl⟩ (.cons ⟨second, rfl⟩ (.single ⟨third, rfl⟩)))

/-- A backspace behind two characters removes both. -/
theorem shell_erases_two :
    ∃ t, Run (ShellStep sampleParts) sampleShell [letterA, letterA, backspace, newline] t ∧
      t.executed ≠ linesOf [letterA, letterA, backspace, newline] := by
  refine ⟨sampleRun [letterA, letterA, backspace, newline], ?_, by decide⟩
  exact .cons rfl (.cons rfl (.cons rfl (.single rfl)))

end NTux.Console
