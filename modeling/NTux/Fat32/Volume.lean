import NTux.Fat32.Mount
import NTux.Foundation.Commands

/-! # The FAT of a mounted volume

The buffer of one sector, the entries of the FAT and the chains of clusters. A function
that returns an error code is a command that stops with the code. It may also never return,
which is seen as running out of fuel, and reading a variable that was never set is
undefined.

The volume carries a record of the steps that failed (`mishaps`), which the source does not
keep.
-/

namespace NTux.Fat32

open NTux.Foundation

/-- A step that failed: an operation on the disk, an entry of the FAT that is no entry, a
search for a free cluster among all of them; or its code was dropped. -/
inductive Mishap where
  | read
  | write
  | broken
  | full
  | lost
  deriving DecidableEq, Repr

/-- Why a function does not end with `FAT_ERR_NONE`. -/
inductive Stop where
  | code (err : Int)
  | undefined
  | running
  deriving DecidableEq, Repr

structure Volume where
  fat : Fat
  disk : Disk
  mishaps : List Mishap

abbrev FatM : Type → Type := Command Volume Stop

open Command

/-- Return an error code. -/
def fail {σ α : Type} (err : Int) : Command σ Stop α := stop (.code err)

namespace Volume

def note (mishap : Mishap) (v : Volume) : Volume := { v with mishaps := mishap :: v.mishaps }

def withFat (f : Fat → Fat) (v : Volume) : Volume := { v with fat := f v.fat }

end Volume

def note (mishap : Mishap) : FatM Unit := modify (Volume.note mishap)

def modifyFat (f : Fat → Fat) : FatM Unit := modify (Volume.withFat f)

/-- `ops.write`, where failure is returned as `FAT_ERR_IO`. -/
def diskWrite (buf : Sector) (sect : Nat) : FatM Unit := fun v =>
  match v.disk.write buf sect with
  | (true, disk) => (.ok (), { v with disk := disk })
  | (false, disk) => (.error (.code errIo), { v with disk := disk }.note .write)

/-- `ops.read`: whether it succeeds, and what the buffer holds then. -/
def diskRead (sect : Nat) : FatM (Bool × Sector) := fun v =>
  match v.disk.read sect with
  | (true, buf, disk) => (.ok (true, buf), { v with disk := disk })
  | (false, buf, disk) => (.ok (false, buf), { v with disk := disk }.note .read)

/-! ## The buffer -/

/-- `sync_buf`. -/
def syncBuf : FatM Unit := do
  let fat ← gets (·.fat)
  if fat.bufDirty then
    diskWrite fat.buf fat.sect
    modifyFat fun fat => { fat with bufDirty := false }
  else pure ()

/-- `update_buf`. -/
def updateBuf (sect : Nat) : FatM Unit := do
  let fat ← gets (·.fat)
  if fat.sect ≠ sect then
    syncBuf
    let (ok, buf) ← diskRead sect
    modifyFat fun fat => { fat with buf := buf }
    if ok then modifyFat fun fat => { fat with sect := sect } else fail errIo
  else pure ()

/-- A change of the bytes in the buffer. -/
def editBuf (edit : Sector → Sector) : FatM Unit :=
  modifyFat fun fat => { fat with buf := edit fat.buf, bufDirty := true }

/-- `sync_fs`. -/
def syncFs : FatM Unit := do
  syncBuf
  let fat ← gets (·.fat)
  if fat.infoDirty then
    updateBuf fat.geometry.infoSect
    let fat ← gets (·.fat)
    editBuf fun buf => (buf.writeLE 492 4 fat.lastUsed).writeLE 488 4 fat.freeCnt
    syncBuf
    modifyFat fun fat => { fat with infoDirty := false }
  else pure ()

/-! ## Entries -/

/-- The flags of an entry: `CLUST_FREE`, `CLUST_USED`, `CLUST_USED | CLUST_LAST`, `CLUST_BAD`. -/
inductive ClustFlags where
  | free
  | used
  | last
  | bad
  deriving DecidableEq, Repr

/-- The flags as the number that `uint8_t flags` holds. -/
def ClustFlags.toInt : ClustFlags → Int
  | free => 0x01
  | used => 0x02
  | last => 0x06
  | bad => 0x08

theorem ClustFlags.toInt_pos (flags : ClustFlags) : 0 < flags.toInt := by
  cases flags <;> decide

/-- What the lower bits of an entry say, if they are an entry. -/
def clustFlags (clustCnt val : Nat) : Option ClustFlags :=
  if val = 0 then some .free
  else if val = 0x0FFFFFF7 then some .bad
  else if 0x0FFFFFF8 ≤ val then some .last
  else if 2 ≤ val ∧ val < clustCnt then some .used
  else none

/-- `get_fat`. -/
def getFat (clust : Nat) : FatM (Nat × ClustFlags) := do
  let g ← gets (·.fat.geometry)
  updateBuf (u32 (g.fatSect + clust / 128))
  let buf ← gets (·.fat.buf)
  let val := buf.readLE (4 * (clust % 128)) 4 &&& 0x0FFFFFFF
  match clustFlags g.clustCnt val with
  | some flags => pure (val, flags)
  | none => do
    note .broken
    fail errBroken

/-- The bytes of a sector of the FAT with another entry, whose upper nibble stays. -/
def putEntry (clust val : Nat) (buf : Sector) : Sector :=
  buf.writeLE (4 * (clust % 128)) 4
    ((buf.readLE (4 * (clust % 128)) 4 &&& 0xF0000000) ||| (val &&& 0x0FFFFFFF))

/-- `put_fat2`. -/
def putFat2 (fatSect clust val : Nat) : FatM Unit := do
  updateBuf (u32 (fatSect + clust / 128))
  editBuf (putEntry clust val)

/-- `put_fat`. -/
def putFat (clust val : Nat) : FatM Unit := do
  let g ← gets (·.fat.geometry)
  if g.mirrorSect ≠ 0 then
    putFat2 g.mirrorSect clust val
    putFat2 g.fatSect clust val
  else putFat2 g.fatSect clust val

/-! ## Chains -/

/-- The loop of `remove_chain`. -/
def removeLoop : Nat → Nat → FatM Unit
  | 0, _ => stop .running
  | fuel + 1, clust => do
    let (next, flags) ← getFat clust
    if flags = .bad ∨ flags = .free then fail errBroken
    else
      putFat clust 0
      modifyFat fun fat => { fat with freeCnt := u32 (fat.freeCnt + 1) }
      if flags = .last then pure () else removeLoop fuel next

/-- `remove_chain`. -/
def removeChain (fuel clust : Nat) : FatM Unit := do
  modifyFat fun fat => { fat with infoDirty := true }
  removeLoop fuel clust
  syncFs

/-- The cluster behind a cluster, in the circle that `stretch_chain` searches. -/
def nextClust (clustCnt clust : Nat) : Nat :=
  if clustCnt ≤ u32 (clust + 1) then 2 else u32 (clust + 1)

/-- `return flags` after a failed `get_fat`; nothing may have set `flags` yet. -/
def returnFlags {α : Type} (flags : Option ClustFlags) : FatM α := do
  note .lost
  match flags with
  | some flags => fail flags.toInt
  | none => stop .undefined

/-- The search of `stretch_chain` for a free cluster behind `clust`, after some turns. If it
is still running when every cluster has been looked at, there is none to find. -/
def scanFree : Nat → Nat → Nat → Option ClustFlags → FatM Nat
  | 0, turns, _, _ => do
    let g ← gets (·.fat.geometry)
    if g.clustCnt < turns then
      note .full
      note .lost
      stop .running
    else stop .running
  | fuel + 1, turns, clust, flags => do
    let fat ← gets (·.fat)
    let clust := nextClust fat.geometry.clustCnt clust
    if clust = fat.lastUsed then
      note .full
      fail errFull
    else
      match ← attempt (getFat clust) with
      | .error (.code _) => returnFlags flags
      | .error other => stop other
      | .ok (_, .free) => pure clust
      | .ok (_, flags) => scanFree fuel (turns + 1) clust (some flags)

/-- The cluster that `stretch_chain` takes. -/
def findFree (fuel prev : Nat) : FatM Nat := do
  let fat ← gets (·.fat)
  if prev ≠ 0 then
    let clust := nextClust fat.geometry.clustCnt prev
    let (_, flags) ← getFat clust
    if flags = .free then pure clust else scanFree fuel 0 fat.lastUsed (some flags)
  else scanFree fuel 0 fat.lastUsed none

/-- The link from the cluster that is stretched, if there is one. -/
def linkFrom (prev clust : Nat) : FatM Unit :=
  if prev ≠ 0 then putFat prev clust else pure ()

/-- `stretch_chain`. -/
def stretchChain (fuel prev : Nat) : FatM Nat := do
  modifyFat fun fat => { fat with infoDirty := true }
  let clust ← findFree fuel prev
  putFat clust 0x0FFFFFFF
  linkFrom prev clust
  modifyFat fun fat => { fat with lastUsed := clust, freeCnt := sub32 fat.freeCnt 1 }
  syncFs
  pure clust

/-- `create_chain`. -/
def createChain (fuel : Nat) : FatM Nat := stretchChain fuel 0

/-- The loop of `clust_clear`. -/
def clearLoop : Nat → Nat → FatM Unit
  | 0, _ => pure ()
  | count + 1, sect => do
    modifyFat fun fat => { fat with bufDirty := true, sect := sect }
    syncBuf
    clearLoop count (u32 (sect + 1))

/-- `clust_clear`. -/
def clustClear (clust : Nat) : FatM Unit := do
  syncBuf
  let g ← gets (·.fat.geometry)
  modifyFat fun fat => { fat with buf := fun _ => 0 }
  clearLoop (2 ^ g.clustShift) (g.clustToSect clust)

end NTux.Fat32
