import NTux.Foundation.Memory

/-! # Sectors and the disk

A disk of sectors of 512 bytes behind `DiskOps.read` and `DiskOps.write`. Each operation
may fail: the disk comes with the answers it is going to give. An operation that fails
leaves the disk as it is, and a read that fails leaves anything in the buffer.
-/

namespace NTux.Fat32

open NTux.Foundation

/-- The bytes of a sector, by their offset. -/
abbrev Sector : Type := Memory

/-- `uint32_t`: 32 bits, wrapping. -/
def u32 (n : Nat) : Nat := n % 2 ^ 32

/-- A difference of `uint32_t`. -/
def sub32 (m n : Nat) : Nat := (m + 2 ^ 32 - n % 2 ^ 32) % 2 ^ 32

theorem u32_of_lt {n : Nat} (small : n < 2 ^ 32) : u32 n = n := Nat.mod_eq_of_lt small

theorem u32_lt (n : Nat) : u32 n < 2 ^ 32 := Nat.mod_lt n (by decide)

theorem sub32_of_le {m n : Nat} (small : m < 2 ^ 32) (le : n ≤ m) : sub32 m n = m - n := by
  unfold sub32
  omega

/-! ## Error codes -/

def errNone : Int := 0
def errNofat : Int := -1
def errBroken : Int := -2
def errIo : Int := -3
def errParam : Int := -4
def errPath : Int := -5
def errEof : Int := -6
def errDenied : Int := -7
def errFull : Int := -8

/-! ## The disk -/

/-- The sectors, and how the operations end: the `n`-th one succeeds (none), or it fails and
leaves a buffer that it reads to with the given bytes. -/
structure Disk where
  sectors : Nat → Sector
  answer : Nat → Option Sector
  count : Nat

namespace Disk

/-- `DiskOps.read`: whether it succeeds, and what the buffer holds then. -/
def read (d : Disk) (sect : Nat) : Bool × Sector × Disk :=
  match d.answer d.count with
  | none => (true, d.sectors sect, { d with count := d.count + 1 })
  | some junk => (false, junk, { d with count := d.count + 1 })

/-- `DiskOps.write`. -/
def write (d : Disk) (buf : Sector) (sect : Nat) : Bool × Disk :=
  match d.answer d.count with
  | none => (true, { d with sectors := Function.update d.sectors sect buf, count := d.count + 1 })
  | some _ => (false, { d with count := d.count + 1 })

/-- No operation fails from now on. -/
def Sound (d : Disk) : Prop := ∀ n, d.count ≤ n → d.answer n = none

variable {d : Disk}

theorem Sound.read (sound : d.Sound) (sect : Nat) :
    d.read sect = (true, d.sectors sect, { d with count := d.count + 1 }) := by
  rw [Disk.read, sound d.count le_rfl]

theorem Sound.write (sound : d.Sound) (buf : Sector) (sect : Nat) :
    d.write buf sect =
      (true, { d with sectors := Function.update d.sectors sect buf, count := d.count + 1 }) := by
  rw [Disk.write, sound d.count le_rfl]

end Disk

end NTux.Fat32
