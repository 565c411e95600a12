import NTux.Console.Numerals
import NTux.Fat32.PathObjects

/-! # Listing a directory

`fat_ls` reads one entry of a directory and prints a line for that entry at every slot from it
on, behind the end of the entries too. In the line `kprintf` takes the address of the name for
the size, and the flags and widths of its format are printed as they stand. So a listing is
right only where there is nothing to be listed (`lsRight_iff`).
-/

namespace NTux.Fat32

open NTux.Foundation Command NTux.Console

/-! ## `fat_ls` -/

/-- `"%-20s  size=%u  attr=0x%02X\n"` -/
def lsFormat : List Byte :=
  [0x25, 0x2D, 0x32, 0x30, 0x73, 0x20, 0x20, 0x73, 0x69, 0x7A, 0x65, 0x3D, 0x25, 0x75, 0x20, 0x20,
    0x61, 0x74, 0x74, 0x72, 0x3D, 0x30, 0x78, 0x25, 0x30, 0x32, 0x58, 0x0A]

/-- `"ls: error opening '%s': %s\n"` -/
def lsErrorFormat : List Byte :=
  [0x6C, 0x73, 0x3A, 0x20, 0x65, 0x72, 0x72, 0x6F, 0x72, 0x20, 0x6F, 0x70, 0x65, 0x6E, 0x69, 0x6E,
    0x67, 0x20, 0x27, 0x25, 0x73, 0x27, 0x3A, 0x20, 0x25, 0x73, 0x0A]

/-- The loop of `fat_ls`, with the address of `info.name`: the calls of `kprint`. -/
def lsLoop (name : Nat) (info : DirInfo) : Nat → DirM (List Text)
  | 0 => stop .running
  | turns + 1 =>
    match kprintfTexts lsFormat [.string name, .unsigned info.size, .unsigned info.attr] with
    | none => stop .undefined
    | some line => do
      match ← attempt fatDirNext with
      | .ok () =>
        let rest ← lsLoop name info turns
        pure (line ++ rest)
      | .error (.code _) => pure line
      | .error other => stop other

/-- `fat_ls` of a directory that is open. -/
def lsFrom (fuel name : Nat) : DirM (List Text) := do
  match ← attempt (fatDirRead fuel) with
  | .ok info => lsLoop name info fuel
  | .error (.code _) => pure []
  | .error other => stop other

/-- `fat_ls` behind the name of the volume, with the addresses of its strings. -/
def fatLsFrom (fuel name path error : Nat) : DirM (List Text) := do
  match ← attempt (dirOpenFrom fuel) with
  | .ok () => lsFrom fuel name
  | .error (.code _) =>
    match printf lsErrorFormat [.string path, .string error] with
    | none => stop .undefined
    | some pieces => pure (pieces.flatMap Piece.texts)
  | .error other => stop other

/-! ## What there is to be listed -/

/-- What there is in the slot at the directory's place, or in a long name and the slot behind
it; there is nothing in a free slot. -/
def nextInfo : DirM (Option DirInfo) := do
  updateDir
  let s ← gets id
  if s.slot.isLast then fail errEof
  else if s.slot.isFree then return none
  else
    readName
    let info ← gets OpenDir.info
    return some info

/-- The entries from a place of a directory on, up to the end or to what cannot be read. -/
inductive Lists : OpenDir → List DirInfo → Prop where
  | ends {s t : OpenDir} {err : Int} : nextInfo.run s = (.error (.code err), t) → Lists s []
  | last {s t u : OpenDir} {found : Option DirInfo} {err : Int} :
      nextInfo.run s = (.ok found, t) → dirNext.run t = (.error (.code err), u) →
        Lists s found.toList
  | more {s t u : OpenDir} {found : Option DirInfo} {infos : List DirInfo} :
      nextInfo.run s = (.ok found, t) → dirNext.run t = (.ok (), u) → Lists u infos →
        Lists s (found.toList ++ infos)

/-- The character of a digit in an upper-case numeral. -/
def upperDigit (digit : Nat) : Byte :=
  if digit < 10 then BitVec.ofNat 8 (0x30 + digit) else BitVec.ofNat 8 (0x37 + digit)

/-- The line of an entry: its name in twenty columns, its size, and two digits for its
attributes. -/
def lsLine (info : DirInfo) : List Byte :=
  info.name ++ List.replicate (20 - info.name.length) 0x20 ++
    [0x20, 0x20, 0x73, 0x69, 0x7A, 0x65, 0x3D] ++ numeralOf 10 info.size ++
    [0x20, 0x20, 0x61, 0x74, 0x74, 0x72, 0x3D, 0x30, 0x78] ++
    [upperDigit (info.attr / 16 % 16), upperDigit (info.attr % 16), newline]

/-- The characters that are printed, with the strings in memory. -/
def printedBy (strings : Nat → List Byte) (texts : List Text) : List Byte :=
  texts.flatMap fun
    | .chars text => text
    | .string address => strings address

/-- The listing is right: it has the lines of the entries, in their order. -/
def LsRight (s : OpenDir) : Prop :=
  ∀ infos name strings, Lists s infos →
    ∃ fuel texts t, (lsFrom fuel name).run s = (.ok texts, t) ∧
      printedBy strings texts = infos.flatMap lsLine

/-! ## What is printed -/

/-- The texts of a format that has no conversion. -/
def plainTexts (chars : List Byte) : List Text := chars.map fun c => .chars [c]

@[simp] theorem printedBy_append (strings : Nat → List Byte) (first second : List Text) :
    printedBy strings (first ++ second) = printedBy strings first ++ printedBy strings second :=
  List.flatMap_append

@[simp] theorem printedBy_plainTexts (strings : Nat → List Byte) (chars : List Byte) :
    printedBy strings (plainTexts chars) = chars := by
  rw [printedBy, plainTexts, List.flatMap_map]
  exact List.flatMap_singleton' chars

/-- The calls of `kprint` for a line, whatever the entry is. -/
def lsTexts (name : Nat) : List Text :=
  plainTexts [0x25, 0x2D, 0x32, 0x30, 0x73, 0x20, 0x20, 0x73, 0x69, 0x7A, 0x65, 0x3D] ++
    [.chars (itoaUnsigned (name % 2 ^ 64 % 2 ^ 32) 10)] ++
    plainTexts [0x20, 0x20, 0x61, 0x74, 0x74, 0x72, 0x3D, 0x30, 0x78, 0x25, 0x30, 0x32, 0x58, 0x0A]

/-- The only conversion that is known is the one of the size, and its argument is the name. -/
theorem kprintfTexts_lsFormat (name : Nat) (info : DirInfo) :
    kprintfTexts lsFormat [.string name, .unsigned info.size, .unsigned info.attr] =
      some (lsTexts name) := by
  rfl

/-- A line is printed once for every slot that the loop comes to. -/
theorem lsLoop_texts {name : Nat} {info : DirInfo} {turns : Nat} {texts : List Text} :
    ∀ {s t : OpenDir}, (lsLoop name info turns).run s = (.ok texts, t) →
      ∃ count, texts = (List.replicate (count + 1) (lsTexts name)).flatten := by
  induction turns generalizing texts with
  | zero => exact fun done => nomatch (congrArg Prod.fst done)
  | succ turns ih =>
      intro s t done
      rw [lsLoop, kprintfTexts_lsFormat, run_bind, run_attempt] at done
      generalize fatDirNext.run s = moved at done
      obtain ⟨(_ | _ | _) | ⟨⟩, u⟩ := moved
      · cases done
        exact ⟨0, by simp⟩
      · cases done
      · cases done
      · dsimp only at done
        obtain ⟨rest, w, later, joined⟩ := of_run_bind_ok done
        obtain ⟨count, rfl⟩ := ih later
        cases joined
        exact ⟨count + 1, by rw [List.replicate_succ (n := count + 1), List.flatten_cons]⟩

/-- A line ends in the letter of a conversion. -/
theorem printedBy_lsTexts (strings : Nat → List Byte) (name : Nat) :
    ∃ front, printedBy strings (lsTexts name) = front ++ [0x58, newline] := by
  refine ⟨[0x25, 0x2D, 0x32, 0x30, 0x73, 0x20, 0x20, 0x73, 0x69, 0x7A, 0x65, 0x3D] ++
    itoaUnsigned (name % 2 ^ 64 % 2 ^ 32) 10 ++
    [0x20, 0x20, 0x61, 0x74, 0x74, 0x72, 0x3D, 0x30, 0x78, 0x25, 0x30, 0x32], ?_⟩
  rw [lsTexts, printedBy_append, printedBy_append, printedBy_plainTexts, printedBy_plainTexts,
    List.append_assoc _ _ [0x58, newline], printedBy, List.flatMap_singleton]
  rfl

/-- What is printed is nothing, or it ends in the letter of a conversion. -/
theorem lsFrom_printed {fuel name : Nat} {texts : List Text} {s t : OpenDir}
    (done : (lsFrom fuel name).run s = (.ok texts, t)) (strings : Nat → List Byte) :
    texts = [] ∨ ∃ front, printedBy strings texts = front ++ [0x58, newline] := by
  rw [lsFrom, run_bind, run_attempt] at done
  generalize (fatDirRead fuel).run s = read at done
  obtain ⟨(_ | _ | _) | info, u⟩ := read
  · cases done
    exact .inl rfl
  · cases done
  · cases done
  · obtain ⟨count, rfl⟩ := lsLoop_texts done
    right
    obtain ⟨front, ends⟩ := printedBy_lsTexts strings name
    rw [List.replicate_succ', List.flatten_concat, printedBy_append, ends, ← List.append_assoc]
    exact ⟨_, rfl⟩

theorem upperDigit_ne {digit : Nat} (small : digit < 16) : upperDigit digit ≠ 0x58 := by
  revert digit
  decide

/-- The lines of entries end in a digit. -/
theorem lsLines_end {infos : List DirInfo} (some : infos ≠ []) :
    ∃ front digit, infos.flatMap lsLine = front ++ [upperDigit digit, newline] ∧ digit < 16 := by
  obtain ⟨rest, info, rfl⟩ := (List.eq_nil_or_concat' infos).resolve_left some
  rw [List.flatMap_append, List.flatMap_singleton, lsLine, List.append_cons,
    ← List.append_assoc]
  exact ⟨_, info.attr % 16, rfl, Nat.mod_lt _ (by decide)⟩

/-- A right listing is one of nothing. -/
theorem LsRight.nil {s : OpenDir} (right : LsRight s) {infos : List DirInfo}
    (lists : Lists s infos) : infos = [] := by
  by_contra some
  obtain ⟨fuel, texts, t, done, same⟩ := right infos 0 (fun _ => []) lists
  obtain ⟨front, digit, lines, small⟩ := lsLines_end some
  rw [lines] at same
  rcases lsFrom_printed done fun _ => [] with rfl | ⟨text, printed⟩
  · exact absurd same.symm (by simp [printedBy])
  · rw [printed] at same
    have ends := (List.append_inj' same rfl).2
    exact upperDigit_ne small (List.cons.inj ends).1.symm

/-- A turn of `fat_dir_read`. -/
theorem readEntry_turn (turns : Nat) (s : OpenDir) :
    (readEntry (turns + 1)).run s =
      match nextInfo.run s with
      | (.ok none, t) => (dirNext >>= fun _ => readEntry turns).run t
      | (.ok (some info), t) => (.ok info, t)
      | (.error stopped, t) => (.error stopped, t) := by
  rw [readEntry, nextInfo, run_bind, run_bind]
  generalize updateDir.run s = moved
  obtain ⟨stopped | ⟨⟩, t⟩ := moved
  · rfl
  dsimp only
  rw [run_gets_bind, run_gets_bind, id]
  split
  · rfl
  split
  · rfl
  rw [run_bind, run_bind]
  generalize readName.run t = read
  obtain ⟨stopped | ⟨⟩, u⟩ := read <;> rfl

/-- Where there is nothing to be listed, nothing is read. -/
theorem fatDirRead_of_lists {s : OpenDir} (lists : Lists s []) :
    ∃ fuel err t, (fatDirRead fuel).run s = (.error (.code err), t) := by
  generalize nothing : ([] : List DirInfo) = infos at lists
  induction lists with
  | @ends s t err read =>
      refine ⟨1, err, t, ?_⟩
      rw [fatDirRead, readEntry_turn, read]
  | @last s t u found err read moved =>
      cases found with
      | some info => cases nothing
      | none =>
          refine ⟨1, err, u, ?_⟩
          rw [fatDirRead, readEntry_turn, read]
          exact run_bind_error moved
  | @more s t u found infos read moved rest ih =>
      cases found with
      | some info => cases nothing
      | none =>
          obtain ⟨fuel, err, w, later⟩ := ih nothing
          refine ⟨fuel + 1, err, w, ?_⟩
          rw [fatDirRead, readEntry_turn, read]
          exact (run_bind_ok moved).trans later

/-- A directory that can be opened is listed as it is then. -/
theorem fatLsFrom_opened {fuel name path error : Nat} {s t : OpenDir}
    (opened : (dirOpenFrom fuel).run s = (.ok (), t)) :
    (fatLsFrom fuel name path error).run s = (lsFrom fuel name).run t := by
  rw [fatLsFrom, run_bind, run_attempt, opened]

/-- **Listings** are right of directories without an entry. -/
theorem lsRight_iff (s : OpenDir) : LsRight s ↔ ∀ infos, Lists s infos → infos = [] := by
  constructor
  · exact fun right infos lists => right.nil lists
  · intro nothing infos name strings lists
    obtain rfl := nothing infos lists
    obtain ⟨fuel, err, t, read⟩ := fatDirRead_of_lists lists
    refine ⟨fuel, [], t, ?_, rfl⟩
    rw [lsFrom, run_bind, run_attempt, read]
    rfl

/-- A directory with a file of the name `A` in its first slot, which is in the buffer. -/
def singleDir : OpenDir where
  volume := { sampleVolume 2 with
    fat := { (sampleVolume 2).fat with
      sect := 1056
      buf := Memory.store (fun _ => 0) 0 12 (inMemory (0x41 :: List.replicate 10 sfnPad ++ [0x20])) } }
  dir := ⟨2, 2, 1056, 0⟩
  loc := none
  path := []
  gBuf := fun _ => 0
  gLen := 0
  gCrc := 0

/-- There is a file to be listed. -/
theorem singleDir_lists : ∃ info, Lists singleDir [info] :=
  ⟨_, @Lists.more _ _ _ (some _) [] rfl rfl (.ends rfl)⟩

/-- The line of a file is not printed. -/
theorem lsRight_single : ¬ LsRight singleDir := by
  intro right
  obtain ⟨info, lists⟩ := singleDir_lists
  exact absurd (right.nil lists) (List.cons_ne_nil _ _)

end NTux.Fat32
