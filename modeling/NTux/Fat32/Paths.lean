import NTux.Fat32.Directory

/-! # Paths

`/volume/directory/.../name`: the first part is the name of a mounted volume, the others are
searched for one after the other. `fat_unlink` and `fat_dir_create` on the mounted volumes,
each of which is on a disk of its own.
-/

namespace NTux.Fat32

open NTux.Foundation Command

/-- The volumes of `g_fat_list` and the name buffer. -/
structure Driver where
  volumes : List Volume
  gBuf : Memory
  gLen : Nat
  gCrc : Byte

/-! ## The parts of a path -/

/-- `/` -/
def slash : Byte := 0x2f

/-- `subpath_len`. -/
def subpathLen (path : List Byte) : Nat :=
  (path.takeWhile fun c => c ≠ 0 ∧ c ≠ slash).length

/-- `last_subpath_len`. -/
def lastSubpathLen (path : List Byte) : Nat :=
  let len := subpathLen path
  if ((path.drop len).dropWhile (· = slash)).headD 0 = 0 then len else 0

/-- `find_fat_volume`: the place of the volume in the list. -/
def findFatVolume (name : List Byte) : List Fat → Option Nat
  | [] => none
  | it :: next =>
    if name.length = it.name.length ∧ !memcmp (inMemory name) (inMemory it.name) name.length
    then some 0
    else (findFatVolume name next).map (· + 1)

/-- The loop of `follow_path`, from a directory that has to be one. -/
def followLoop (fuel : Nat) : Nat → Nat → Bool → DirM Unit
  | 0, _, _ => stop .running
  | turns + 1, dirClust, dirEnterable => do
    modify fun s => { s with path := s.path.dropWhile (· = slash) }
    let path ← gets (·.path)
    let len := subpathLen path
    if len = 0 then pure ()
    else if !dirEnterable then fail errPath
    else
      let g ← gets (·.volume.fat.geometry)
      modifyDir (dirEnter g dirClust)
      dirSearch fuel (path.take len)
      modify fun s => { s with path := path.drop len }
      let sfn ← gets OpenDir.slot
      followLoop fuel turns sfn.cluster (sfn.attr &&& attrDir ≠ 0)

/-- `follow_path` behind the name of the volume. -/
def followPath (fuel : Nat) : DirM Unit := do
  let g ← gets (·.volume.fat.geometry)
  modifyDir (dirEnter g g.rootClust)
  let dir ← gets (·.dir)
  followLoop fuel fuel dir.clust true

namespace Driver

/-- A directory of a volume, before a path is followed. -/
def enter (w : Driver) (v : Volume) (dir : Dir) (path : List Byte) : OpenDir where
  volume := v
  dir := dir
  loc := none
  path := path
  gBuf := w.gBuf
  gLen := w.gLen
  gCrc := w.gCrc

/-- After what was done in a directory of a volume. -/
def leave (w : Driver) (i : Nat) (s : OpenDir) : Driver where
  volumes := w.volumes.set i s.volume
  gBuf := s.gBuf
  gLen := s.gLen
  gCrc := s.gCrc

/-- The part of `follow_path` that finds the volume. -/
def volumeOf (w : Driver) (path : List Byte) : Option Nat :=
  if path.headD 0 ≠ slash then none
  else
    let str := path.drop 1
    let len := subpathLen str
    if len = 0 then none else findFatVolume (str.take len) (w.volumes.map (·.fat))

end Driver

/-- What is done on the volume of a path, behind its name. -/
def onPath {α : Type} (path : List Byte) (dir : Dir) (c : DirM α) : Command Driver Stop α := fun w =>
  match w.volumeOf path with
  | none => (.error (.code errPath), w)
  | some i => match w.volumes[i]? with
    | none => (.error .undefined, w)
    | some v =>
      let str := path.drop 1
      let ended := c.run (w.enter v dir (str.drop (subpathLen str)))
      (ended.1, w.leave i ended.2)

/-! ## Removing -/

/-- `dir_at_root`. -/
def dirAtRoot (g : Geometry) (dir : Dir) : Bool :=
  dir.clust = g.rootClust ∧ dir.sect = g.clustToSect g.rootClust ∧ dir.idx = 0

/-- The loop of `fat_unlink` that looks for an entry. -/
def checkEmpty : Nat → DirM Unit
  | 0 => stop .running
  | turns + 1 => do
    updateDir
    let sfn ← gets OpenDir.slot
    if sfn.isLast then pure ()
    else if !sfn.isFree then fail errDenied
    else
      dirNext
      checkEmpty turns

/-- The part of `fat_unlink` that makes sure that a directory is empty, with a `Dir` of its
own. -/
def unlinkCheck (fuel : Nat) (sfn : Slot) : DirM Unit :=
  if sfn.attr &&& attrDir ≠ 0 then do
    let dir ← gets (·.dir)
    let g ← gets (·.volume.fat.geometry)
    modifyDir (dirEnter g sfn.cluster)
    dirAdvance 2
    checkEmpty fuel
    modifyDir fun _ => dir
  else pure ()

/-- `remove_entries` from a place that may not have been set. -/
def removeFrom (fuel : Nat) : Option Loc → DirM Unit
  | none => stop .undefined
  | some loc => removeEntries fuel loc

/-- `fat_unlink` behind the name of the volume. -/
def unlinkFrom (fuel : Nat) : DirM Unit := do
  followPath fuel
  let s ← gets id
  let sfn := s.slot
  if dirAtRoot s.volume.fat.geometry s.dir then fail errDenied
  else if sfn.attr &&& (attrRo ||| attrSys ||| attrLabel) ≠ 0 then fail errDenied
  else
    unlinkCheck fuel sfn
    onFat (removeChain fuel sfn.cluster)
    removeFrom fuel s.loc
    onFat syncFs

/-- `fat_unlink`. -/
def fatUnlink (fuel : Nat) (path : List Byte) : Command Driver Stop Unit :=
  onPath path ⟨0, 0, 0, 0⟩ (unlinkFrom fuel)

/-! ## Creating directories -/

/-- The entry of a directory for itself. -/
def dotSlot (clust : Nat) (sfn : Slot) : Slot :=
  let (date, time) := encodeTimestamp
  let sfn := (sfn.store 0 11 (inMemory (dot :: List.replicate 10 sfnPad))).writeLE 11 1 attrDir
  let sfn := ((Slot.setCluster clust sfn).writeLE 16 2 date).writeLE 14 2 time
  ((sfn.writeLE 24 2 date).writeLE 22 2 time).writeLE 18 2 date

/-- The entry of a directory for its parent, from the one for itself. -/
def dotDotSlot (parent : Nat) (sfn : Slot) : Slot :=
  Slot.setCluster parent (Function.update sfn 1 dot)

/-- The first two slots of a new directory. -/
def putDots (clust parent : Nat) (buf : Sector) : Sector :=
  let buf := buf.putSlot 0 (dotSlot clust)
  buf.putSlot 32 fun _ => dotDotSlot parent (buf.slot 0)

/-- `fat_dir_create` behind `follow_path`, if there is no such name. -/
def createDir (fuel : Nat) : DirM Unit := do
  let path ← gets (·.path)
  let len := lastSubpathLen path
  if len = 0 then fail errPath
  else
    let clust ← onFat (createChain fuel)
    onFat (clustClear clust)
    let g ← gets (·.volume.fat.geometry)
    onFat (updateBuf (g.clustToSect clust))
    let dir ← gets (·.dir)
    let parent := if dir.sclust = g.rootClust then 0 else dir.sclust
    onFat (editBuf (putDots clust parent))
    dirAdd fuel (path.take len) attrDir clust
    modifyDir (dirEnter g clust)
    onFat syncFs

/-- `fat_dir_create` behind the name of the volume; nothing is done if the name is there. -/
def createFrom (fuel : Nat) : DirM Unit := do
  match ← attempt (followPath fuel) with
  | .ok () => pure ()
  | .error (.code err) => if err = errEof then createDir fuel else fail err
  | .error other => stop other

/-- `fat_dir_create`. -/
def fatDirCreate (fuel : Nat) (path : List Byte) (dir : Dir) : Command Driver Stop Unit :=
  onPath path dir (createFrom fuel)

end NTux.Fat32
