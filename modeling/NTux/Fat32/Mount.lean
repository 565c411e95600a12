import NTux.Fat32.Disk

/-! # Mounting a volume

`probe` and `fat_mount` of `fat32.c`: the checks on a boot sector, and the numbers that the
driver takes from it. A structure that is laid over a sector is the sector itself, and its
fields are the numbers at their offsets.
-/

namespace NTux.Fat32

open NTux.Foundation

/-! ## The structures on the disk -/

/-- `Bpb`, with the fields that the driver looks at. -/
structure Bpb where
  jump : Nat
  bytesPerSect : Nat
  sectPerClust : Nat
  resSectCnt : Nat
  fatCnt : Nat
  sectCnt32 : Nat
  sectPerFat32 : Nat
  extFlags : Nat
  rootCluster : Nat
  infoSect : Nat

/-- A sector as a `Bpb`. -/
def Sector.bpb (buf : Sector) : Bpb where
  jump := buf.readLE 0 1
  bytesPerSect := buf.readLE 11 2
  sectPerClust := buf.readLE 13 1
  resSectCnt := buf.readLE 14 2
  fatCnt := buf.readLE 16 1
  sectCnt32 := buf.readLE 32 4
  sectPerFat32 := buf.readLE 36 4
  extFlags := buf.readLE 40 2
  rootCluster := buf.readLE 44 4
  infoSect := buf.readLE 48 2

/-- `FSINFO_HEAD_SIG` -/
def fsinfoHeadSig : Nat := 0x41615252

/-- `FSINFO_STRUCT_SIG` -/
def fsinfoStructSig : Nat := 0x61417272

/-- `FSINFO_TAIL_SIG` -/
def fsinfoTailSig : Nat := 0xAA550000

/-- `MBR_PART_OFF` -/
def mbrPartOff : Nat := 446

/-- `get_part_lba`: the start of a partition with a FAT32 type. -/
def getPartLba (buf : Sector) (partition : Fin 4) : Option Nat :=
  if buf.readLE 510 2 ≠ 0xAA55 then none
  else
    let type := buf.readLE (mbrPartOff + 16 * partition + 4) 1
    if type ≠ 0x0B ∧ type ≠ 0x0C then none
    else some (buf.readLE (mbrPartOff + 16 * partition + 8) 4)

/-! ## Checks -/

namespace Bpb

/-- The sectors in front of the data area, as `check_fat` and `fat_mount` compute them. -/
def overhead (bpb : Bpb) : Nat := u32 (bpb.resSectCnt + u32 (bpb.fatCnt * bpb.sectPerFat32))

/-- `data_sect / sect_per_clust`. -/
def clustCnt (bpb : Bpb) : Nat := sub32 bpb.sectCnt32 bpb.overhead / bpb.sectPerClust

end Bpb

/-- `check_fat`. -/
def checkFat (buf : Sector) : Bool :=
  let bpb := buf.bpb
  if bpb.jump ≠ 0xEB ∧ bpb.jump ≠ 0xE9 then false
  else if bpb.bytesPerSect ≠ 512 then false
  else if bpb.sectPerClust = 0 then false
  else if bpb.sectPerFat32 = 0 then false
  else decide (65525 ≤ bpb.clustCnt)

/-- `probe`: the start of the volume, what `g_buf` holds, and the disk. -/
def probe (disk : Disk) (partition : Fin 4) : Except Int Nat × Sector × Disk :=
  match disk.read 0 with
  | (false, buf, disk) => (.error errIo, buf, disk)
  | (true, buf, disk) =>
    if checkFat buf then
      (if partition = 0 then .ok 0 else .error errNofat, buf, disk)
    else match getPartLba buf partition with
      | none => (.error errNofat, buf, disk)
      | some lba =>
        match disk.read lba with
        | (false, buf, disk) => (.error errIo, buf, disk)
        | (true, buf, disk) => (if checkFat buf then .ok lba else .error errNofat, buf, disk)

/-! ## The mounted volume -/

/-- `__builtin_ctz` of a number of eight bits. -/
def ctz (n : Nat) : Nat := ((List.range 8).find? n.testBit).getD 8

/-- The fields of `Fat` that mounting sets and nothing changes. -/
structure Geometry where
  clustMsk : Nat
  clustCnt : Nat
  infoSect : Nat
  fatSect : Nat
  mirrorSect : Nat
  dataSect : Nat
  rootClust : Nat
  clustShift : Nat
  deriving DecidableEq

/-- `Fat` without its list pointer and operations; `flags` is the two bits of it. -/
structure Fat where
  geometry : Geometry
  lastUsed : Nat
  freeCnt : Nat
  sect : Nat
  buf : Sector
  bufDirty : Bool
  infoDirty : Bool
  name : List Byte

/-- The first bit of `ext_flags` says that the second copy of the FAT is the active one. -/
def Bpb.useFirst (bpb : Bpb) : Bool := !bpb.extFlags.testBit 0

/-- The eighth bit of `ext_flags`. -/
def Bpb.mirror (bpb : Bpb) : Bool := bpb.extFlags.testBit 7

/-- The part of `fat_mount` that computes where things are. -/
def Bpb.geometry (bpb : Bpb) (lba : Nat) : Geometry :=
  let fat0 := u32 (lba + bpb.resSectCnt)
  let fat1 := u32 (lba + bpb.resSectCnt + bpb.sectPerFat32)
  { clustMsk := bpb.sectPerClust - 1
    clustCnt := bpb.clustCnt
    infoSect := u32 (lba + bpb.infoSect)
    fatSect := if bpb.useFirst then fat0 else fat1
    mirrorSect := if bpb.mirror then (if bpb.useFirst then fat1 else fat0) else 0
    dataSect := u32 (lba + bpb.resSectCnt + u32 (bpb.fatCnt * bpb.sectPerFat32))
    rootClust := bpb.rootCluster
    clustShift := ctz bpb.sectPerClust }

/-- What `fat_mount` takes for `last_used` and `free_cnt` from the `FsInfo` sector. -/
def mountInfo (buf : Sector) : Nat × Nat :=
  if buf.readLE 508 4 = fsinfoTailSig ∧ buf.readLE 0 4 = fsinfoHeadSig ∧
      buf.readLE 484 4 = fsinfoStructSig then
    (if buf.readLE 492 4 = 0xFFFFFFFF then 2 else buf.readLE 492 4, buf.readLE 488 4)
  else (2, 0xFFFFFFFF)

/-- `fat_mount` up to the list of volumes. The buffer and the flags of the structure stay as
they are. -/
def fatMount (disk : Disk) (partition : Fin 4) (fat : Fat) (name : List Byte) :
    Except Int Fat × Sector × Disk :=
  match probe disk partition with
  | (.error err, buf, disk) => (.error err, buf, disk)
  | (.ok lba, buf, disk) =>
    let geometry := buf.bpb.geometry lba
    match disk.read geometry.infoSect with
    | (false, buf, disk) => (.error errIo, buf, disk)
    | (true, buf, disk) =>
      if 32 < name.length then (.error errParam, buf, disk)
      else
        (.ok { fat with geometry := geometry
                        lastUsed := (mountInfo buf).1
                        freeCnt := (mountInfo buf).2
                        sect := 0
                        name := name }, buf, disk)

/-! ## Clusters and sectors -/

namespace Geometry

/-- `sect_to_clust`. -/
def sectToClust (g : Geometry) (sect : Nat) : Nat :=
  u32 (sub32 sect g.dataSect / 2 ^ g.clustShift + 2)

/-- `clust_to_sect`. -/
def clustToSect (g : Geometry) (clust : Nat) : Nat :=
  u32 (u32 (sub32 clust 2 * 2 ^ g.clustShift) + g.dataSect)

end Geometry

end NTux.Fat32
