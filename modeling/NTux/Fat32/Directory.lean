import NTux.Fat32.Slots
import NTux.Fat32.Volume

/-! # Directories

The walk over the slots of a directory, the search for a name, and how entries are added,
removed and read. Names are collected in a buffer that all walks share (`gBuf`, `gLen`,
`gCrc`).
-/

namespace NTux.Fat32

open NTux.Foundation Command

/-- `Dir` without its volume. -/
structure Dir where
  sclust : Nat
  clust : Nat
  sect : Nat
  idx : Nat
  deriving DecidableEq, Repr

/-- `Loc`. -/
structure Loc where
  sect : Nat
  idx : Nat
  deriving DecidableEq, Repr

/-- A directory of a volume, the place of an entry, the rest of a path, and the name buffer. -/
structure OpenDir where
  volume : Volume
  dir : Dir
  loc : Option Loc
  path : List Byte
  gBuf : Memory
  gLen : Nat
  gCrc : Byte

abbrev DirM : Type → Type := Command OpenDir Stop

namespace OpenDir

def withVolume (v : Volume) (s : OpenDir) : OpenDir := { s with volume := v }

def withDir (f : Dir → Dir) (s : OpenDir) : OpenDir := { s with dir := f s.dir }

/-- `dir_ptr`: the slot at the directory's place, in the buffer as it is. -/
def slot (s : OpenDir) : Slot := s.volume.fat.buf.slot s.dir.idx

end OpenDir

/-- What the volume does for a directory. -/
def onFat {α : Type} (c : FatM α) : DirM α := zoom (·.volume) OpenDir.withVolume c

def modifyDir (f : Dir → Dir) : DirM Unit := modify (OpenDir.withDir f)

/-! ## Walking -/

/-- `dir_at_clust`. -/
def dirAtClust (g : Geometry) (clust : Nat) (dir : Dir) : Dir :=
  { dir with clust := clust, sect := g.clustToSect clust, idx := 0 }

/-- `dir_enter`; the parent of a directory of the root has no number. -/
def dirEnter (g : Geometry) (clust : Nat) (dir : Dir) : Dir :=
  let clust := if clust = 0 then g.rootClust else clust
  dirAtClust g clust { dir with sclust := clust }

/-- The end of a cluster in `dir_next`. -/
def dirNextClust : DirM Unit := do
  let dir ← gets (·.dir)
  let (next, flags) ← onFat (getFat dir.clust)
  if flags = .bad ∨ flags = .free then fail errBroken
  else if flags = .last then fail errEof
  else
    let g ← gets (·.volume.fat.geometry)
    modifyDir (dirAtClust g next)

/-- `dir_next`. -/
def dirNext : DirM Unit := do
  modifyDir fun dir => { dir with idx := dir.idx + 32 }
  let dir ← gets (·.dir)
  if dir.idx < 512 then pure ()
  else
    modifyDir fun dir => { dir with idx := 0, sect := u32 (dir.sect + 1) }
    let dir ← gets (·.dir)
    let g ← gets (·.volume.fat.geometry)
    if dir.sect &&& g.clustMsk ≠ 0 then pure () else dirNextClust

/-- `dir_advance`. -/
def dirAdvance : Nat → DirM Unit
  | 0 => pure ()
  | cnt + 1 => do
    dirNext
    dirAdvance cnt

/-- A new cluster behind the last one of a directory, in `dir_next_stretch`. -/
def dirStretch (fuel : Nat) : DirM Unit := do
  let dir ← gets (·.dir)
  let next ← onFat (stretchChain fuel dir.clust)
  let g ← gets (·.volume.fat.geometry)
  modifyDir (dirAtClust g next)
  onFat (clustClear next)

/-- `dir_next_stretch`. -/
def dirNextStretch (fuel : Nat) : DirM Unit := do
  match ← attempt dirNext with
  | .ok () => pure ()
  | .error (.code err) => if err = errEof then dirStretch fuel else fail err
  | .error other => stop other

/-- The sector of the directory's place is brought into the buffer. -/
def updateDir : DirM Unit := do
  let dir ← gets (·.dir)
  onFat (updateBuf dir.sect)

/-- A change of the slot at the directory's place. -/
def editSlot (edit : Slot → Slot) : DirM Unit := do
  let dir ← gets (·.dir)
  onFat (editBuf (Sector.putSlot dir.idx edit))

/-! ## Names -/

/-- The characters of a fragment at their place in the name buffer. -/
def OpenDir.collect (cnt : Nat) (chars : List Byte) (s : OpenDir) : OpenDir :=
  { s with gBuf := s.gBuf.store (13 * cnt) chars.length fun i => chars.getD i 0
           gLen := (s.gLen + chars.length) % 2 ^ 16 }

/-- The loop of `parse_lfn_name`. A character of `0xff` does not stop it, as it is negative
where it is compared. -/
def parseFrags : Nat → DirM Unit
  | 0 => pure ()
  | cnt + 1 => do
    let s ← gets id
    if s.slot.attr ≠ attrLfn ∨ s.slot.crc ≠ s.gCrc then fail errBroken
    else
      modify (OpenDir.collect cnt s.slot.lfnChars)
      dirNext
      updateDir
      parseFrags cnt

/-- `parse_lfn_name`. -/
def parseLfnName : DirM Unit := do
  updateDir
  let lfn ← gets OpenDir.slot
  modify fun s => { s with gCrc := lfn.crc, gLen := 0 }
  if lfn.seq &&& lfnHeadMsk = 0 then fail errBroken
  else if 20 < lfn.seq &&& lfnSeqMsk then fail errBroken
  else
    parseFrags (lfn.seq &&& lfnSeqMsk)
    let gLen ← gets (·.gLen)
    if gLen ≤ 255 then pure () else fail errBroken

/-- `memcmp` of the kernel's own library. -/
def memcmp (s1 s2 : Nat → Byte) : Nat → Bool
  | 0 => true
  | len + 1 => if s1 0 ≠ s2 0 then false else memcmp (fun i => s1 (i + 1)) (fun i => s2 (i + 1)) len

/-- A list of bytes in memory. -/
def inMemory (bytes : List Byte) : Nat → Byte := fun i => bytes.getD i 0

/-! ## Searching -/

/-- What `dir_search` compares at an entry: its long name if there is one in front of it, else
the short name. -/
def matchEntry (name : List Byte) : DirM Bool := do
  let sfn ← gets OpenDir.slot
  if sfn.isLfn then
    parseLfnName
    let s ← gets id
    if s.slot.isFree ∨ s.slot.isLfn ∨ s.gCrc ≠ getCrc s.slot.name then fail errBroken
    else return s.gLen = name.length && !memcmp s.gBuf (inMemory name) name.length
  else return !memcmp (inMemory (putSfnName name)) sfn 11

/-- The loop of `dir_search`. -/
def searchLoop (name : List Byte) : Nat → DirM Unit
  | 0 => stop .running
  | turns + 1 => do
    updateDir
    let s ← gets id
    if s.slot.isLast then fail errEof
    else if s.slot.isFree then
      dirNext
      searchLoop name turns
    else
      modify fun s => { s with loc := some ⟨s.dir.sect, s.dir.idx⟩ }
      if ← matchEntry name then pure ()
      else
        dirNext
        searchLoop name turns

/-- `dir_search`. -/
def dirSearch (fuel : Nat) (name : List Byte) : DirM Unit := do
  let g ← gets (·.volume.fat.geometry)
  modifyDir fun dir => dirAtClust g dir.sclust dir
  searchLoop name fuel

/-! ## Removing and adding -/

/-- The loop of `remove_entries`, up to a slot. -/
def removeSlots (last : Loc) : Nat → DirM Unit
  | 0 => stop .running
  | turns + 1 => do
    updateDir
    editSlot (Slot.setFirst sfnFree)
    let dir ← gets (·.dir)
    if dir.sect = last.sect ∧ dir.idx = last.idx then pure ()
    else
      dirNext
      removeSlots last turns

/-- The directory at another slot. -/
def moveTo (g : Geometry) (loc : Loc) (dir : Dir) : Dir :=
  { dir with clust := g.sectToClust loc.sect, sect := loc.sect, idx := loc.idx }

/-- `remove_entries`. -/
def removeEntries (fuel : Nat) (loc : Loc) : DirM Unit := do
  let dir ← gets (·.dir)
  let g ← gets (·.volume.fat.geometry)
  modifyDir (moveTo g loc)
  removeSlots ⟨dir.sect, dir.idx⟩ fuel

/-- The loop of `dir_add` that looks for room: it gives whether it has met the end, and the
first slot of the room. -/
def findRoom (fuel need : Nat) : Nat → Nat → Bool → Loc → DirM (Bool × Loc)
  | 0, _, _, _ => stop .running
  | turns + 1, cnt, eod, loc =>
    if need ≤ cnt then pure (eod, loc)
    else do
      updateDir
      let s ← gets id
      let isFree := eod || s.slot.isFree
      let loc := if isFree && cnt = 0 then ⟨s.dir.sect, s.dir.idx⟩ else loc
      dirNextStretch fuel
      findRoom fuel need turns (if isFree then cnt + 1 else 0) (eod || s.slot.isLast) loc

/-- The new end of the directory. -/
def putEnd (eod : Bool) : DirM Unit :=
  if eod then do
    updateDir
    editSlot (Slot.setFirst 0)
  else pure ()

/-- A slot with a fragment of a long name. -/
def lfnSlot (frag : List Byte) (seq : Nat) (crc : Byte) (lfn : Slot) : Slot :=
  let lfn := (Memory.writeLE (putLfnNameFrag frag lfn) 11 1 attrLfn).writeLE 0 1 seq
  Memory.writeLE (Function.update lfn 13 crc) 12 1 0 |>.writeLE 26 2 0

/-- A slot with a short entry. -/
def sfnSlot (name : List Byte) (attr clust : Nat) (sfn : Slot) : Slot :=
  let (date, time) := encodeTimestamp
  let sfn := (sfn.store 0 11 (inMemory name)).writeLE 11 1 attr
  let sfn := ((Slot.setCluster clust sfn).writeLE 12 1 0).writeLE 13 1 0
  ((((((sfn.writeLE 14 2 time).writeLE 22 2 time).writeLE 16 2 date).writeLE 24 2 date).writeLE
    18 2 date).writeLE 28 4 0)

/-- The loop of `dir_add` that writes the long name, the last fragment first. -/
def putFrags (name : List Byte) (crc : Byte) : Nat → Nat → DirM Unit
  | 0, _ => pure ()
  | i + 1, mask => do
    updateDir
    editSlot (lfnSlot ((name.drop (13 * i)).take 13) (mask ||| (i + 1)) crc)
    dirNext
    putFrags name crc i 0

/-- `dir_add`. -/
def dirAdd (fuel : Nat) (name : List Byte) (attr clust : Nat) : DirM Unit := do
  if name = [] ∨ 255 < name.length then fail errParam
  else
    let lfns := (name.length + 12) / 13
    let g ← gets (·.volume.fat.geometry)
    modifyDir fun dir => dirEnter g dir.sclust dir
    let (eod, loc) ← findRoom fuel (lfns + 1) fuel 0 false ⟨0, 0⟩
    putEnd eod
    modifyDir (moveTo g loc)
    putFrags name (getCrc (putSfnName name)) lfns lfnHeadMsk
    updateDir
    editSlot (sfnSlot (putSfnName name) attr clust)

/-! ## Reading -/

structure DirInfo where
  created : Timestamp
  modified : Timestamp
  size : Nat
  attr : Nat
  name : List Byte
  deriving DecidableEq

/-- What `fat_dir_read` takes from an entry. -/
def OpenDir.info (s : OpenDir) : DirInfo where
  created := decodeTimestamp (s.slot.readLE 16 2) (s.slot.readLE 14 2)
  modified := decodeTimestamp (s.slot.readLE 24 2) (s.slot.readLE 22 2)
  size := s.slot.size
  attr := s.slot.attr
  name := (List.range s.gLen).map s.gBuf

/-- The name of the entry at the directory's place is put into the name buffer. -/
def readName : DirM Unit := do
  let sfn ← gets OpenDir.slot
  if sfn.isLfn then
    parseLfnName
    updateDir
    let s ← gets id
    if s.slot.isFree ∨ s.gCrc ≠ getCrc s.slot.name then fail errBroken else pure ()
  else
    let name := parseSfnName (Slot.name sfn)
    modify fun s => { s with gBuf := s.gBuf.store 0 name.length (inMemory name)
                             gLen := name.length }

/-- The loop of `fat_dir_read`. -/
def readEntry : Nat → DirM DirInfo
  | 0 => stop .running
  | turns + 1 => do
    updateDir
    let s ← gets id
    if s.slot.isLast then fail errEof
    else if s.slot.isFree then
      dirNext
      readEntry turns
    else
      readName
      gets OpenDir.info

/-- `fat_dir_read` of a directory that has a volume. -/
def fatDirRead (fuel : Nat) : DirM DirInfo := readEntry fuel

/-- `fat_dir_next` of a directory that has a volume. -/
def fatDirNext : DirM Unit := dirNext

end NTux.Fat32
