import NTux.Fat32.Disk

/-! # Slots of a directory

A directory is a sequence of slots of 32 bytes. A slot holds a short entry (`Sfn`), or one of
the fragments of a long name in front of it (`Lfn`).
-/

namespace NTux.Fat32

open NTux.Foundation

/-- 32 bytes of a sector. -/
abbrev Slot : Type := Memory

/-- `dir_ptr`: the slot at an index of a sector. -/
def Sector.slot (buf : Sector) (idx : Nat) : Slot := fun i => buf (idx + i)

/-- The sector with another slot at an index. -/
def Sector.putSlot (idx : Nat) (edit : Slot → Slot) (buf : Sector) : Sector :=
  buf.store idx 32 (edit (buf.slot idx))

/-! ## Attributes and marks -/

def attrRo : Nat := 0x01
def attrSys : Nat := 0x04
def attrLabel : Nat := 0x08
def attrDir : Nat := 0x10
def attrArchive : Nat := 0x20
def attrLfn : Nat := 0x0f

/-- `LFN_HEAD_MSK` -/
def lfnHeadMsk : Nat := 0x40

/-- `LFN_SEQ_MSK` -/
def lfnSeqMsk : Nat := 0x1f

def sfnFree : Byte := 0xe5
def sfnLast : Byte := 0x00
def sfnPad : Byte := 0x20

namespace Slot

/-! ## Fields -/

def attr (slot : Slot) : Nat := slot.readLE 11 1

/-- `seq` of a long-name slot. -/
def seq (slot : Slot) : Nat := slot.readLE 0 1

/-- `crc` of a long-name slot. -/
def crc (slot : Slot) : Byte := slot 13

def size (slot : Slot) : Nat := slot.readLE 28 4

/-- `sfn_is_last`. -/
def isLast (slot : Slot) : Bool := slot 0 = sfnLast

/-- `sfn_is_free`. -/
def isFree (slot : Slot) : Bool := slot 0 = sfnLast ∨ slot 0 = sfnFree

/-- `sfn_is_lfn`. -/
def isLfn (slot : Slot) : Bool := slot.attr = attrLfn

/-- `sfn_cluster`. -/
def cluster (slot : Slot) : Nat := slot.readLE 20 2 * 2 ^ 16 ||| slot.readLE 26 2

/-- The first byte of the name. -/
def setFirst (first : Byte) (slot : Slot) : Slot := Function.update slot 0 first

/-- `clust_hi` and `clust_lo`. -/
def setCluster (clust : Nat) (slot : Slot) : Slot :=
  (slot.writeLE 20 2 (clust / 2 ^ 16)).writeLE 26 2 (clust % 2 ^ 16)

end Slot

/-! ## Names -/

/-- `to_upper`. -/
def toUpper (c : Byte) : Byte := if 0x61 ≤ c ∧ c ≤ 0x7a then c &&& 0xdf else c

/-- The special characters of a short name: `!#$%&'()-@^_`, a backquote, `{}~` and the space. -/
def sfnSpecial : List Byte :=
  [0x21, 0x23, 0x24, 0x25, 0x26, 0x27, 0x28, 0x29, 0x2d, 0x40, 0x5e, 0x5f, 0x60, 0x7b, 0x7d, 0x7e,
    0x20]

/-- `sfn_char`. -/
def sfnChar (c : Byte) : Byte :=
  if (0x41 ≤ toUpper c ∧ toUpper c ≤ 0x5a) ∨ toUpper c ∈ sfnSpecial then toUpper c else 0x5f

/-- `.` -/
def dot : Byte := 0x2e

/-- A list of characters that is filled up with `SFN_PAD`. -/
def padTo (length : Nat) (chars : List Byte) : List Byte :=
  chars ++ List.replicate (length - chars.length) sfnPad

/-- `put_sfn_name`: up to eight characters in front of the first dot, and up to three behind
the first dot that comes after these. -/
def putSfnName (name : List Byte) : List Byte :=
  let base := (name.take 8).takeWhile (· ≠ dot)
  let ext := ((name.drop base.length).dropWhile (· ≠ dot)).drop 1
  padTo 8 (base.map sfnChar) ++ padTo 3 ((ext.take 3).map sfnChar)

/-- `get_crc`. -/
def getCrc (name : List Byte) : Byte :=
  name.foldl (fun sum c => ((sum &&& 1) <<< 7) + (sum >>> 1) + c) 0

/-- The eleven bytes of a short name. -/
def Slot.name (slot : Slot) : List Byte := (List.range 11).map slot

/-- `parse_sfn_name`: what is put into `g_buf`. -/
def parseSfnName (sfnName : List Byte) : List Byte :=
  let base := (sfnName.take 8).takeWhile (· ≠ sfnPad)
  let ext := sfnName.drop 8
  base ++ (if ext.headD sfnPad ≠ sfnPad then [dot] else []) ++ ext.takeWhile (· ≠ sfnPad)

/-- `g_lfn_indices`. -/
def lfnIndices : List Nat := [1, 3, 5, 7, 9, 14, 16, 18, 20, 22, 24, 28, 30]

/-- The two bytes of a character of a fragment: a zero follows the last character, and bytes
`0xff` follow that. -/
def fragChar (frag : List Byte) (i : Nat) : Byte × Byte :=
  if i < frag.length then (frag.getD i 0, 0)
  else if i = frag.length then (0, 0)
  else (0xff, 0xff)

/-- `put_lfn_name_frag`. -/
def putLfnNameFrag (frag : List Byte) (lfn : Slot) : Slot :=
  lfnIndices.zipIdx.foldl (fun lfn place =>
    Function.update (Function.update lfn place.1 (fragChar frag place.2).1) (place.1 + 1)
      (fragChar frag place.2).2) lfn

/-- The characters of a fragment, up to a zero. -/
def Slot.lfnChars (lfn : Slot) : List Byte := (lfnIndices.map lfn).takeWhile (· ≠ 0)

/-! ## Timestamps -/

structure Timestamp where
  hour : Nat
  min : Nat
  sec : Nat
  day : Nat
  month : Nat
  year : Nat
  deriving DecidableEq, Repr

/-- `decode_timestamp`. -/
def decodeTimestamp (date time : Nat) : Timestamp where
  hour := (time >>> 11) &&& 0x1f
  min := (time >>> 5) &&& 0x3f
  sec := 2 * (time &&& 0x1f)
  day := date &&& 0x1f
  month := (date >>> 5) &&& 0xf
  year := ((date >>> 9) &&& 0x3f) + 1980

/-- `fplaceget_timestamp`, the version of the driver. -/
def fatGetTimestamp : Timestamp where
  hour := 0
  min := 0
  sec := 0
  day := 1
  month := 1
  year := 1980

/-- `encode_timestamp`: the date and the time. -/
def encodeTimestamp : Nat × Nat :=
  let ts := fatGetTimestamp
  (((ts.year - 1980) &&& 0x3f) <<< 9 ||| (ts.month &&& 0xf) <<< 5 ||| (ts.day &&& 0x1f),
    ((ts.sec / 2) &&& 0x1f) ||| (ts.min &&& 0x3f) <<< 5 ||| (ts.hour &&& 0x1f) <<< 11)

end NTux.Fat32
