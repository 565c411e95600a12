import Mathlib.Data.Set.Lattice
import Mathlib.Order.CompletePartialOrder
import Mathlib.Order.Interval.Set.Basic
import Mathlib.Tactic.Ring

/-! # Byte-addressed memory

Memory is a total function from addresses to bytes. Every store is an instance
of `store`, which writes a block of consecutive bytes, so one pair of lemmas
(`store_of_mem`, `store_of_notMem`) says what any store does. Numbers of several
bytes are read and written little-endian (`readLE`, `writeLE`).
-/

namespace NTux.Foundation

abbrev Byte := BitVec 8

abbrev Memory := Nat → Byte

namespace Memory

/-- The addresses of a block. -/
abbrev block (base size : Nat) : Set Nat := Set.Ico base (base + size)

/-- Write `contents 0, ..., contents (size - 1)` at `base` and the addresses after it. -/
def store (memory : Memory) (base size : Nat) (contents : Nat → Byte) : Memory := fun address =>
  if base ≤ address ∧ address < base + size then contents (address - base) else memory address

theorem store_of_mem (memory : Memory) {base size address : Nat} (contents : Nat → Byte)
    (inside : address ∈ block base size) :
    memory.store base size contents address = contents (address - base) :=
  if_pos inside

theorem store_of_notMem (memory : Memory) {base size address : Nat} (contents : Nat → Byte)
    (outside : address ∉ block base size) :
    memory.store base size contents address = memory address :=
  if_neg outside

theorem store_at (memory : Memory) {base size offset : Nat} (contents : Nat → Byte)
    (inside : offset < size) :
    memory.store base size contents (base + offset) = contents offset := by
  rw [store_of_mem memory contents ⟨by omega, by omega⟩]
  congr 1
  omega

/-- A store leaves every region apart from its block as it was. -/
theorem store_eqOn (memory : Memory) {base size : Nat} (contents : Nat → Byte) {region : Set Nat}
    (apart : Disjoint region (block base size)) :
    Set.EqOn (memory.store base size contents) memory region := fun _ member =>
  memory.store_of_notMem contents (Set.disjoint_left.mp apart member)

/-- Two blocks are apart as soon as one ends before the other begins. -/
theorem block_disjoint {first firstSize second secondSize : Nat}
    (apart : first + firstSize ≤ second ∨ second + secondSize ≤ first) :
    Disjoint (block first firstSize) (block second secondSize) := by
  rw [Set.disjoint_left]
  rintro address ⟨low, high⟩ ⟨low', high'⟩
  omega

/-- The number stored in `size` bytes, least significant byte first. -/
def readLE (memory : Memory) (base : Nat) : Nat → Nat
  | 0 => 0
  | size + 1 => (memory base).toNat + 256 * readLE memory (base + 1) size

/-- Store a number in `size` bytes, least significant byte first. -/
def writeLE (memory : Memory) (base size value : Nat) : Memory :=
  memory.store base size fun offset => BitVec.ofNat 8 (value / 256 ^ offset)

theorem readLE_lt (memory : Memory) (base size : Nat) : memory.readLE base size < 256 ^ size := by
  induction size generalizing base with
  | zero => simp [readLE]
  | succ size ih =>
      have low := (memory base).isLt
      have high := ih (base + 1)
      rw [readLE, Nat.pow_succ]
      omega

/-- A number is determined by the bytes of its block. -/
theorem readLE_congr {memory other : Memory} {base size : Nat}
    (same : Set.EqOn memory other (block base size)) :
    memory.readLE base size = other.readLE base size := by
  induction size generalizing base with
  | zero => rfl
  | succ size ih =>
      have head : memory base = other base := same ⟨le_rfl, by omega⟩
      have tail : memory.readLE (base + 1) size = other.readLE (base + 1) size :=
        ih fun address member => same ⟨by have := member.1; omega, by have := member.2; omega⟩
      simp only [readLE, head, tail]

theorem readLE_of_bytes {memory : Memory} {base size value : Nat}
    (bytes : ∀ offset < size, memory (base + offset) = BitVec.ofNat 8 (value / 256 ^ offset)) :
    memory.readLE base size = value % 256 ^ size := by
  induction size generalizing base value with
  | zero => simp [readLE, Nat.mod_one]
  | succ size ih =>
      have head := bytes 0 (by omega)
      have tail : memory.readLE (base + 1) size = value / 256 % 256 ^ size := by
        apply ih
        intro offset inside
        have byte := bytes (offset + 1) (by omega)
        rw [Nat.pow_succ', ← Nat.div_div_eq_div_mul] at byte
        rw [← byte, Nat.add_assoc, Nat.add_comm 1 offset]
      simp only [Nat.add_zero, Nat.pow_zero, Nat.div_one] at head
      have split : value % 256 ^ (size + 1) = value % 256 + 256 * (value / 256 % 256 ^ size) := by
        rw [Nat.pow_succ', Nat.mod_mul]
      rw [readLE, head, tail, BitVec.toNat_ofNat, split]

/-- Reading back a stored number. -/
@[simp] theorem readLE_writeLE (memory : Memory) (base size value : Nat) :
    (memory.writeLE base size value).readLE base size = value % 256 ^ size :=
  readLE_of_bytes fun _ inside => memory.store_at _ inside

/-- Reading a number apart from the one stored. -/
theorem readLE_writeLE_of_apart (memory : Memory) {base size other otherSize : Nat} (value : Nat)
    (apart : other + otherSize ≤ base ∨ base + size ≤ other) :
    (memory.writeLE base size value).readLE other otherSize = memory.readLE other otherSize :=
  readLE_congr (memory.store_eqOn _ (block_disjoint apart))

end Memory

end NTux.Foundation
