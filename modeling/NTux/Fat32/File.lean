import NTux.Fat32.Slots
import NTux.Fat32.Volume

/-! # Open files

`fat_file_seek`, `fat_file_read`, `fat_file_write` and `fat_file_sync` on a file of a
volume. A file has a buffer of its own, for the sector of its offset. What the caller passes
in and gets back, the bytes and their number, is part of the state.

The sector that the buffer was last filled from (`home`) is recorded, which the source does
not do.
-/

namespace NTux.Fat32

open NTux.Foundation Command

/-- The flags of an open file that are looked at after it has been opened. -/
structure FileFlags where
  write : Bool
  read : Bool
  accessed : Bool
  modified : Bool
  fileDirty : Bool
  deriving DecidableEq, Repr

/-- `File`; `fat` is the place of the volume in `g_fat_list`. -/
structure File where
  fat : Option Nat
  dirSect : Nat
  sclust : Nat
  clust : Nat
  sect : Nat
  size : Nat
  offset : Nat
  dirIdx : Nat
  attr : Nat
  flags : FileFlags
  buf : Sector

/-- A file, its volume, the caller's `bytes`, the caller's buffer as far as it was filled, and
the sector whose bytes `buf` began with. -/
structure OpenFile where
  volume : Volume
  file : File
  bytes : Nat
  out : List Byte
  home : Option Nat

abbrev FileM : Type → Type := Command OpenFile Stop

namespace OpenFile

def withVolume (v : Volume) (s : OpenFile) : OpenFile := { s with volume := v }

def withFile (f : File → File) (s : OpenFile) : OpenFile := { s with file := f s.file }

end OpenFile

/-- What the volume does for a file. -/
def onVolume {α : Type} (c : FatM α) : FileM α := zoom (·.volume) OpenFile.withVolume c

def modifyFile (f : File → File) : FileM Unit := modify (OpenFile.withFile f)

theorem run_modifyFile_bind {α : Type} (f : File → File) (rest : Unit → FileM α) (s : OpenFile) :
    (modifyFile f >>= rest).run s = (rest ()).run (s.withFile f) := rfl

/-! ## Seeking -/

/-- The origin of an offset: `FAT_SEEK_START`, `FAT_SEEK_CURR`, `FAT_SEEK_END`. -/
inductive Seek where
  | start
  | curr
  | fromEnd
  deriving DecidableEq, Repr

/-- What is added to the offset that is passed. -/
def Seek.base (file : File) : Seek → Nat
  | start => 0
  | curr => file.offset
  | fromEnd => file.size

/-- `512 << clust_shift`. -/
def Geometry.clustSize (g : Geometry) : Nat := u32 (512 * 2 ^ g.clustShift)

/-- Back to the first cluster. -/
def rewind (g : Geometry) (file : File) : File :=
  { file with clust := file.sclust, sect := g.clustToSect file.sclust, offset := 0 }

/-- A turn of the loop of `fat_file_seek`: one link of the chain, which is stretched where it
ends. -/
def followLink (fuel : Nat) : FileM Unit := do
  let file ← gets (·.file)
  let (next, flags) ← onVolume (getFat file.clust)
  if flags = .bad ∨ flags = .free then fail errBroken
  else if flags = .last then
    let next ← onVolume (stretchChain fuel file.clust)
    modifyFile fun file => { file with clust := next }
  else modifyFile fun file => { file with clust := next }

/-- The loop of `fat_file_seek`. -/
def followChain (fuel : Nat) : Nat → FileM Unit
  | 0 => pure ()
  | count + 1 => do
    followLink fuel
    followChain fuel count

/-- The buffer is written back to the sector where the file was. -/
def flushFile (ssect : Nat) : FileM Unit := do
  let file ← gets (·.file)
  if file.flags.fileDirty then
    onVolume (diskWrite file.buf ssect)
    modifyFile fun file => { file with flags := { file.flags with fileDirty := false } }
  else pure ()

/-- What was read to the buffer. -/
def OpenFile.fill (ok : Bool) (buf : Sector) (s : OpenFile) : OpenFile :=
  { s.withFile fun file => { file with buf := buf } with
    home := if ok then some s.file.sect else none }

/-- The buffer is read from the sector where the file is. -/
def fillFile : FileM Unit := do
  let file ← gets (·.file)
  let (ok, buf) ← onVolume (diskRead file.sect)
  modify (OpenFile.fill ok buf)
  if ok then pure () else fail errIo

/-- The buffer follows the file to another sector. -/
def moveFile (ssect : Nat) : FileM Unit := do
  let file ← gets (·.file)
  if file.sect ≠ ssect then
    flushFile ssect
    fillFile
  else pure ()

/-- `fat_file_seek`. -/
def fatFileSeek (fuel : Nat) (offset : Int) (seek : Seek) : FileM Unit := do
  let file ← gets (·.file)
  if file.fat = none then fail errParam
  else
    let off64 : Int := seek.base file + offset
    if off64 < 0 ∨ 0xffffffff < off64 then fail errEof
    else
      let off := off64.toNat
      let g ← gets (·.volume.fat.geometry)
      let dstClust := off / g.clustSize
      let srcClust := file.offset / g.clustSize
      modifyFile fun file => if dstClust < srcClust then rewind g file else file
      followChain fuel (if dstClust < srcClust then dstClust else dstClust - srcClust)
      modifyFile fun file =>
        { file with sect := u32 (g.clustToSect file.clust + ((off / 512) &&& g.clustMsk))
                    offset := off }
      moveFile file.sect

/-! ## Opening -/

/-- The flags that `fat_file_open` is given. -/
structure OpenFlags where
  write : Bool
  read : Bool
  append : Bool
  trunc : Bool
  deriving DecidableEq, Repr

/-- The file of an entry, as `fat_file_open` begins with it. -/
def File.ofEntry (fat dirSect dirIdx : Nat) (flags : OpenFlags) (sfn : Slot) (buf : Sector) : File where
  fat := some fat
  dirSect := dirSect
  sclust := sfn.cluster
  clust := sfn.cluster
  sect := 0xffffffff
  size := if flags.trunc then 0 else sfn.size
  offset := 0
  dirIdx := dirIdx
  attr := sfn.attr
  flags := { write := flags.write, read := flags.read, accessed := false,
             modified := sfn.size ≠ 0 && flags.trunc, fileDirty := false }
  buf := buf

/-- `fat_file_open` from the entry of the file on. -/
def openEntry (fuel fat dirSect dirIdx : Nat) (flags : OpenFlags) (sfn : Slot) : FileM Unit := do
  modifyFile fun file => File.ofEntry fat dirSect dirIdx flags sfn file.buf
  fatFileSeek fuel 0 (if flags.append then .fromEnd else .start)

/-! ## Reading and writing -/

/-- A number of `int` as one of `uint32_t`. -/
def uint32 (n : Int) : Nat := (n % 2 ^ 32).toNat

/-- How many bytes a turn of `fat_file_read` copies: `LIMIT(len, LIMIT(512 - idx, size -
offset))`, where a negative `len` counts as a large number. -/
def readCount (len : Int) (file : File) : Nat :=
  let inner := min (512 - file.offset % 512) (sub32 file.size file.offset)
  if uint32 len < inner then uint32 len else inner

/-- The bytes of a file's buffer from its offset on. -/
def File.bytesAt (file : File) (count : Nat) : List Byte :=
  (List.range count).map fun i => file.buf (file.offset % 512 + i)

/-- The caller gets the next bytes. -/
def OpenFile.deliver (cnt : Nat) (s : OpenFile) : OpenFile :=
  { s with bytes := s.bytes + cnt, out := s.out ++ s.file.bytesAt cnt }

/-- The loop of `fat_file_read`, for a number of turns. -/
def readLoop (fuel : Nat) : Nat → Int → FileM Unit
  | 0, _ => stop .running
  | turns + 1, len => do
    let file ← gets (·.file)
    if len = 0 ∨ file.size ≤ file.offset then pure ()
    else
      let cnt := readCount len file
      modify (OpenFile.deliver cnt)
      fatFileSeek fuel cnt .curr
      readLoop fuel turns (len - cnt)

/-- `fat_file_read`. -/
def fatFileRead (fuel : Nat) (len : Int) : FileM Unit := do
  modify fun s => { s with bytes := 0, out := [] }
  let file ← gets (·.file)
  if file.fat = none then fail errParam
  else if !file.flags.read then fail errDenied
  else
    modifyFile fun file => { file with flags := { file.flags with accessed := true } }
    readLoop fuel fuel len

/-- The buffer of a file with other bytes from its offset on. -/
def File.put (src : List Byte) (file : File) : File :=
  { file with
    buf := file.buf.store (file.offset % 512) src.length fun i => src.getD i 0
    flags := { file.flags with fileDirty := true } }

/-- The caller's next bytes are taken. -/
def OpenFile.accept (src : List Byte) (cnt : Nat) (s : OpenFile) : OpenFile :=
  { s.withFile (File.put (src.take cnt)) with bytes := s.bytes + cnt }

/-- The loop of `fat_file_write`: it ends where seeking fails, and the code of that is dropped,
as it is in a variable of the loop's body. A negative number of bytes is a large one for
`memcpy`. -/
def writeLoop (fuel : Nat) : Nat → List Byte → Int → FileM Unit
  | 0, _, _ => stop .running
  | turns + 1, src, len => do
    let file ← gets (·.file)
    if len = 0 then pure ()
    else
      let cnt := min len (512 - file.offset % 512 : Nat)
      if cnt < 0 then stop .undefined
      else
        modify (OpenFile.accept src cnt.toNat)
        match ← attempt (fatFileSeek fuel cnt .curr) with
        | .ok () => writeLoop fuel turns (src.drop cnt.toNat) (len - cnt)
        | .error (.code _) => onVolume (note .lost)
        | .error other => stop other

/-- A turn of `fat_file_write`. -/
theorem writeLoop_turn (fuel turns : Nat) (src : List Byte) {len : Int} (s : OpenFile)
    (positive : 0 < len) :
    (writeLoop fuel (turns + 1) src len).run s =
      let cnt := min len.toNat (512 - s.file.offset % 512)
      match (fatFileSeek fuel cnt .curr).run (s.accept src cnt) with
      | (.ok (), t) => (writeLoop fuel turns (src.drop cnt) (len - cnt)).run t
      | (.error (.code _), t) => (.ok (), t.withVolume (t.volume.note .lost))
      | (.error other, t) => (.error other, t) := by
  have count : min len ((512 - s.file.offset % 512 : Nat) : Int) =
      (min len.toNat (512 - s.file.offset % 512) : Nat) := by omega
  rw [writeLoop, run_gets_bind, if_neg positive.ne', count]
  dsimp only
  rw [if_neg (by omega), run_modify_bind, run_bind, run_attempt, Int.toNat_natCast]
  generalize min len.toNat (512 - s.file.offset % 512) = cnt
  generalize (fatFileSeek fuel cnt .curr).run (s.accept src cnt) = ended
  obtain ⟨(_ | _ | _) | _, t⟩ := ended <;> rfl

theorem writeLoop_done (fuel turns : Nat) (src : List Byte) (s : OpenFile) :
    (writeLoop fuel (turns + 1) src 0).run s = (.ok (), s) := rfl

/-- `fat_file_write`. -/
def fatFileWrite (fuel : Nat) (src : List Byte) (len : Int) : FileM Unit := do
  modify fun s => { s with bytes := 0 }
  let file ← gets (·.file)
  if file.fat = none then fail errParam
  else if !file.flags.write then fail errDenied
  else
    modifyFile fun file =>
      { file with flags := { file.flags with modified := true, accessed := true } }
    writeLoop fuel fuel src len
    modifyFile fun file => { file with size := max file.size file.offset }

/-! ## Synchronizing -/

/-- The entry of a file with the file's size and dates. -/
def File.touchEntry (file : File) (sfn : Slot) : Slot :=
  let (date, time) := encodeTimestamp
  let sfn := if file.flags.accessed then sfn.writeLE 18 2 date else sfn
  if file.flags.modified then
    (((sfn.writeLE 11 1 (Slot.attr sfn ||| attrArchive)).writeLE 28 4 file.size).writeLE 24 2
      date).writeLE 22 2 time
  else sfn

/-- The entry of the file is brought up to date, if something was done to the file. -/
def syncEntry : FileM Unit := do
  let file ← gets (·.file)
  if file.flags.accessed ∨ file.flags.modified then
    onVolume (updateBuf file.dirSect)
    onVolume (editBuf (Sector.putSlot file.dirIdx file.touchEntry))
  else pure ()

/-- `fat_file_sync`. -/
def fatFileSync : FileM Unit := do
  let file ← gets (·.file)
  if file.fat = none then fail errParam
  else
    onVolume (diskWrite file.buf file.sect)
    syncEntry
    onVolume syncFs
    modifyFile fun file =>
      { file with flags := { file.flags with modified := false, accessed := false } }

end NTux.Fat32
