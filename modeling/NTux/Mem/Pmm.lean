import NTux.Foundation.Memory
import Mathlib.Data.Finset.Card
import Mathlib.Order.Interval.Finset.Nat

/-! # The physical page allocator

`mem/pmm.c`: a bitmap with one bit per page, set for a page in use, that lives in
the memory it manages. `pmmInit` carves the bitmap out of a usable entry of the
memory map, marks every page used and then clears the bits of the pages it finds
in the usable entries. `pmmAllocPage` takes the lowest clear bit; `pmmFreePage`
clears the bit of the page it is given.

Addresses and sizes are natural numbers. Where the source computes with
`uintptr_t` or `size_t` the results are reduced modulo `2 ^ 64`.
-/

namespace NTux.Mem

open NTux.Foundation

/-- `PAGE_SIZE`. -/
abbrev pageSize : Nat := 4096

/-- The allocator tells usable memory from everything else. -/
inductive MemmapType where
  | usable
  | other
  deriving DecidableEq, Repr

/-- An entry of the memory map handed over by the boot loader. -/
structure MemmapEntry where
  base : Nat
  length : Nat
  type : MemmapType
  deriving DecidableEq, Repr

abbrev Memmap := List MemmapEntry

/-- The end of an entry as the source computes it. -/
def MemmapEntry.limit (entry : MemmapEntry) : Nat :=
  (entry.base + entry.length) % 2 ^ 64

/-- The entry once its first `size` bytes hold the bitmap. -/
def MemmapEntry.carve (entry : MemmapEntry) (size : Nat) : MemmapEntry :=
  { entry with base := (entry.base + size) % 2 ^ 64, length := entry.length - size }

/-- The static variables of `pmm.c` and the memory they point into. -/
structure PmmState where
  mem : Memory
  bitmap : Nat
  bitmapSize : Nat
  totalPages : Nat
  freePages : Nat
  memoryStart : Nat

namespace PmmState

/-- The static initial values. -/
def boot (mem : Memory) : PmmState := ⟨mem, 0, 0, 0, 0, 0⟩

def setBit (s : PmmState) (bit : Nat) : PmmState :=
  { s with mem := s.mem.store (s.bitmap + bit / 8) 1 fun _ =>
      s.mem (s.bitmap + bit / 8) ||| (1#8 <<< (bit % 8)) }

def clearBit (s : PmmState) (bit : Nat) : PmmState :=
  { s with mem := s.mem.store (s.bitmap + bit / 8) 1 fun _ =>
      s.mem (s.bitmap + bit / 8) &&& ~~~(1#8 <<< (bit % 8)) }

def testBit (s : PmmState) (bit : Nat) : Bool :=
  (s.mem (s.bitmap + bit / 8) >>> (bit % 8)) &&& 1#8 == 1#8

/-- Mark a page used and count it: `set_bit(page); free_pages--`. -/
def take (s : PmmState) (page : Nat) : PmmState :=
  { s.setBit page with freePages := (s.freePages + 2 ^ 64 - 1) % 2 ^ 64 }

/-- Mark a page free and count it: `clear_bit(page); free_pages++`. -/
def release (s : PmmState) (page : Nat) : PmmState :=
  { s.clearBit page with freePages := (s.freePages + 1) % 2 ^ 64 }

end PmmState

/-- The first loop of `pmm_init`: the largest end of an entry. -/
def highestAddr : Nat → Memmap → Nat
  | highest, [] => highest
  | highest, entry :: rest =>
      highestAddr (if entry.limit > highest then entry.limit else highest) rest

/-- The second loop of `pmm_init`: the first usable entry that holds the bitmap
gives it up at its base. -/
def carveBitmap (bitmapSize : Nat) : Memmap → Option Nat × Memmap
  | [] => (none, [])
  | entry :: rest =>
      if entry.type = .usable ∧ entry.length ≥ bitmapSize then
        (some entry.base, entry.carve bitmapSize :: rest)
      else
        ((carveBitmap bitmapSize rest).1, entry :: (carveBitmap bitmapSize rest).2)

/-- The inner loop of `pmm_init`, which frees the pages between `addr` and
`limit`; `none` when the loop outlives its fuel. -/
def clearPages (limit : Nat) : Nat → Nat → PmmState → Option PmmState
  | 0, _, _ => none
  | fuel + 1, addr, s =>
      if (addr + pageSize) % 2 ^ 64 ≤ limit then
        clearPages limit fuel ((addr + pageSize) % 2 ^ 64) (s.release (addr / pageSize))
      else some s

/-- Enough turns for every loop that steps through addresses page by page: a
64-bit address takes `2 ^ 52` values before it repeats, and a loop whose address
repeats never ends. -/
def pageLoopFuel : Nat := 2 ^ 52 + 1

/-- The last loop of `pmm_init`. -/
def clearUsable : Memmap → PmmState → Option PmmState
  | [], s => some s
  | entry :: rest, s =>
      if entry.type = .usable then
        (clearPages entry.limit pageLoopFuel entry.base s).bind (clearUsable rest)
      else clearUsable rest s

/-- `total_pages` as `pmm_init` sets it. -/
def Memmap.totalPages (memmap : Memmap) : Nat :=
  highestAddr 0 memmap / pageSize

/-- `bitmap_size` as `pmm_init` sets it. -/
def Memmap.bitmapSize (memmap : Memmap) : Nat :=
  memmap.totalPages / 8 + 1

/-- The state after the first three loops of `pmm_init`: the bitmap is in place and
every page is marked used. -/
def placeBitmap (memmap : Memmap) (s : PmmState) : PmmState :=
  let bitmap := (carveBitmap memmap.bitmapSize memmap).1.getD s.bitmap
  { s with mem := s.mem.store bitmap memmap.bitmapSize fun _ => 0xFF#8
           bitmap := bitmap, bitmapSize := memmap.bitmapSize, totalPages := memmap.totalPages }

/-- `pmm_init`, with the memory map it leaves behind; `none` when it never returns. -/
def pmmInit (memmap : Memmap) (s : PmmState) : Option (PmmState × Memmap) :=
  let carved := (carveBitmap memmap.bitmapSize memmap).2
  (clearUsable carved (placeBitmap memmap s)).map fun s =>
    ({ s with memoryStart := (s.bitmap + s.bitmapSize) % 2 ^ 64 }, carved)

/-- The loop of `pmm_alloc_page` from page `i` on. -/
def allocScan (s : PmmState) (i : Nat) : Nat → Nat × PmmState
  | 0 => (0, s)
  | remaining + 1 =>
      if !s.testBit i then (i * pageSize % 2 ^ 64, s.take i) else allocScan s (i + 1) remaining

def pmmAllocPage (s : PmmState) : Nat × PmmState :=
  allocScan s 0 s.totalPages

def pmmFreePage (s : PmmState) (addr : Nat) : PmmState :=
  if s.testBit (addr / pageSize) then s.release (addr / pageSize) else s

/-! ## Bits -/

namespace PmmState

variable (s : PmmState) {bit other : Nat}

theorem testBit_eq : s.testBit bit = (s.mem (s.bitmap + bit / 8)).getLsbD (bit % 8) := by
  rw [testBit, Bool.eq_iff_iff, beq_iff_eq]
  constructor
  · intro same
    have low := congrArg (fun byte : Byte => byte.getLsbD 0) same
    simpa using low
  · intro isSet
    apply BitVec.eq_of_getLsbD_eq
    intro i _
    by_cases first : i = 0
    · subst first
      simpa using isSet
    · simp [first]

@[simp] theorem testBit_setBit :
    (s.setBit bit).testBit other = (decide (other = bit) || s.testBit other) := by
  simp only [testBit_eq, setBit]
  by_cases byte : other / 8 = bit / 8
  · rw [byte, Memory.store_of_mem _ _ ⟨le_rfl, by omega⟩]
    have : other = bit ↔ other % 8 = bit % 8 := by omega
    simp [this]
    grind
  · rw [Memory.store_of_notMem _ _ (by rintro ⟨low, high⟩; omega)]
    have : other ≠ bit := by rintro rfl; exact byte rfl
    simp [this]

@[simp] theorem testBit_clearBit :
    (s.clearBit bit).testBit other = (decide (other ≠ bit) && s.testBit other) := by
  simp only [testBit_eq, clearBit]
  by_cases byte : other / 8 = bit / 8
  · rw [byte, Memory.store_of_mem _ _ ⟨le_rfl, by omega⟩]
    have : other = bit ↔ other % 8 = bit % 8 := by omega
    simp [this]
    grind
  · rw [Memory.store_of_notMem _ _ (by rintro ⟨low, high⟩; omega)]
    have : other ≠ bit := by rintro rfl; exact byte rfl
    simp [this]

/-! ## Free pages -/

/-- A page the allocator may hand out. -/
def Free (page : Nat) : Prop :=
  page < s.totalPages ∧ s.testBit page = false

instance (page : Nat) : Decidable (s.Free page) := inferInstanceAs (Decidable (_ ∧ _))

/-- The bits depend only on the bytes of the bitmap. -/
theorem testBit_congr {s t : PmmState} {bit : Nat} (bitmap : t.bitmap = s.bitmap)
    (byte : t.mem (s.bitmap + bit / 8) = s.mem (s.bitmap + bit / 8)) :
    t.testBit bit = s.testBit bit := by
  simp only [testBit, bitmap, byte]

@[simp] theorem testBit_take {page : Nat} :
    (s.take page).testBit other = (decide (other = page) || s.testBit other) := by
  rw [← testBit_setBit]
  exact testBit_congr rfl rfl

@[simp] theorem testBit_release {page : Nat} :
    (s.release page).testBit other = (decide (other ≠ page) && s.testBit other) := by
  rw [← testBit_clearBit]
  exact testBit_congr rfl rfl

@[simp] theorem take_totalPages {page : Nat} : (s.take page).totalPages = s.totalPages := rfl

@[simp] theorem release_totalPages {page : Nat} : (s.release page).totalPages = s.totalPages := rfl

@[simp] theorem free_take {page : Nat} : (s.take page).Free other ↔ s.Free other ∧ other ≠ page := by
  simp only [Free, testBit_take, take_totalPages, Bool.or_eq_false_iff, decide_eq_false_iff_not]
  exact ⟨fun ⟨low, different, clear⟩ => ⟨⟨low, clear⟩, different⟩,
    fun ⟨⟨low, clear⟩, different⟩ => ⟨low, different, clear⟩⟩

theorem free_release {page : Nat} :
    (s.release page).Free other ↔ s.Free other ∨ (other = page ∧ page < s.totalPages) := by
  simp only [Free, testBit_release, release_totalPages]
  by_cases same : other = page
  · subst same
    simp only [ne_eq, not_true_eq_false, decide_false, Bool.false_and, and_true, true_and]
    exact ⟨Or.inr, fun known => known.elim And.left id⟩
  · simp [same]

/-- The allocator writes nothing but its bitmap. -/
theorem take_mem_eqOn {page : Nat} {region : Set Nat} (apart : s.bitmap + page / 8 ∉ region) :
    Set.EqOn (s.take page).mem s.mem region := by
  simp only [take, setBit]
  refine s.mem.store_eqOn _ ?_
  rw [Set.disjoint_left]
  rintro address member ⟨low, high⟩
  have same : address = s.bitmap + page / 8 := by omega
  exact apart (same ▸ member)

theorem release_mem_eqOn {page : Nat} {region : Set Nat} (apart : s.bitmap + page / 8 ∉ region) :
    Set.EqOn (s.release page).mem s.mem region := by
  simp only [release, clearBit]
  refine s.mem.store_eqOn _ ?_
  rw [Set.disjoint_left]
  rintro address member ⟨low, high⟩
  have same : address = s.bitmap + page / 8 := by omega
  exact apart (same ▸ member)

end PmmState

/-! ## The two operations -/

private theorem allocScan_cases (s : PmmState) : ∀ (remaining i : Nat),
    ((∀ page, i ≤ page → page < i + remaining → s.testBit page = true) ∧
        allocScan s i remaining = (0, s)) ∨
      ∃ page, i ≤ page ∧ page < i + remaining ∧ s.testBit page = false ∧
        (∀ other, i ≤ other → other < page → s.testBit other = true) ∧
        allocScan s i remaining = (page * pageSize % 2 ^ 64, s.take page) := by
  intro remaining
  induction remaining with
  | zero =>
      intro i
      exact .inl ⟨fun page low high => by omega, rfl⟩
  | succ remaining ih =>
      intro i
      cases bit : s.testBit i with
      | false =>
          refine .inr ⟨i, le_rfl, by omega, bit, fun other low high => by omega, ?_⟩
          simp only [allocScan, bit, Bool.not_false, ↓reduceIte]
      | true =>
          simp only [allocScan, bit, Bool.not_true, Bool.false_eq_true, ↓reduceIte]
          rcases ih (i + 1) with ⟨used, result⟩ | ⟨page, low, high, clear, before, result⟩
          · refine .inl ⟨fun page low high => ?_, result⟩
            rcases Nat.eq_or_lt_of_le low with rfl | later
            · exact bit
            · exact used page later (by omega)
          · refine .inr ⟨page, by omega, by omega, clear, fun other low' high' => ?_, result⟩
            rcases Nat.eq_or_lt_of_le low' with rfl | later
            · exact bit
            · exact before other later high'

/-- Everything a call of `pmm_alloc_page` can do: nothing, when no page is free, or
take the lowest free page. -/
theorem pmmAllocPage_cases (s : PmmState) :
    ((∀ page, ¬ s.Free page) ∧ pmmAllocPage s = (0, s)) ∨
      ∃ page, s.Free page ∧ (∀ other, s.Free other → page ≤ other) ∧
        pmmAllocPage s = (page * pageSize % 2 ^ 64, s.take page) := by
  rcases allocScan_cases s s.totalPages 0 with
    ⟨used, result⟩ | ⟨page, _, high, clear, before, result⟩
  · refine .inl ⟨fun page free => ?_, result⟩
    have := used page (Nat.zero_le _) (by have := free.1; omega)
    rw [free.2] at this
    exact Bool.false_ne_true this
  · refine .inr ⟨page, ⟨by omega, clear⟩, fun other free => ?_, result⟩
    by_contra earlier
    have := before other (Nat.zero_le _) (by omega)
    rw [free.2] at this
    exact Bool.false_ne_true this

/-- A call of `pmm_free_page` adds the page to the free ones. -/
theorem free_pmmFreePage (s : PmmState) (addr : Nat) {page : Nat} :
    (pmmFreePage s addr).Free page ↔
      s.Free page ∨ (page = addr / pageSize ∧ page < s.totalPages) := by
  unfold pmmFreePage
  split
  · rw [PmmState.free_release]
    exact or_congr_right ⟨fun ⟨same, low⟩ => ⟨same, same ▸ low⟩, fun ⟨same, low⟩ => ⟨same, same ▸ low⟩⟩
  · rename_i clear
    refine ⟨Or.inl, fun known => known.elim id fun ⟨same, low⟩ => ⟨low, ?_⟩⟩
    rw [same]
    simpa using clear

@[simp] theorem pmmFreePage_totalPages (s : PmmState) (addr : Nat) :
    (pmmFreePage s addr).totalPages = s.totalPages := by
  unfold pmmFreePage
  split <;> rfl

/-! ## What no operation moves -/

/-- The bitmap is where it was and covers the same pages. -/
structure PmmState.SameLayout (s t : PmmState) : Prop where
  bitmap : t.bitmap = s.bitmap
  bitmapSize : t.bitmapSize = s.bitmapSize
  totalPages : t.totalPages = s.totalPages

namespace PmmState.SameLayout

theorem refl (s : PmmState) : s.SameLayout s := ⟨rfl, rfl, rfl⟩

theorem trans {s t u : PmmState} (first : s.SameLayout t) (second : t.SameLayout u) :
    s.SameLayout u :=
  ⟨second.bitmap.trans first.bitmap, second.bitmapSize.trans first.bitmapSize,
    second.totalPages.trans first.totalPages⟩

end PmmState.SameLayout

theorem PmmState.take_sameLayout (s : PmmState) (page : Nat) : s.SameLayout (s.take page) :=
  ⟨rfl, rfl, rfl⟩

theorem PmmState.release_sameLayout (s : PmmState) (page : Nat) : s.SameLayout (s.release page) :=
  ⟨rfl, rfl, rfl⟩

theorem pmmAllocPage_sameLayout (s : PmmState) : s.SameLayout (pmmAllocPage s).2 := by
  rcases pmmAllocPage_cases s with ⟨_, result⟩ | ⟨page, _, _, result⟩
  · rw [result]
    exact .refl s
  · rw [result]
    exact s.take_sameLayout page

theorem pmmFreePage_sameLayout (s : PmmState) (addr : Nat) : s.SameLayout (pmmFreePage s addr) := by
  unfold pmmFreePage
  split <;> exact ⟨rfl, rfl, rfl⟩

/-! ## Counting the free pages -/

/-- The frames the allocator may hand out. -/
def PmmState.freeFrames (s : PmmState) : Finset Nat :=
  (Finset.range s.totalPages).filter fun page => s.Free page

namespace PmmState

variable {s t : PmmState} {page : Nat}

theorem mem_freeFrames : page ∈ s.freeFrames ↔ s.Free page := by
  rw [freeFrames, Finset.mem_filter, Finset.mem_range]
  exact ⟨And.right, fun free => ⟨free.1, free⟩⟩

theorem freeFrames_card_le (s : PmmState) : s.freeFrames.card ≤ s.totalPages := by
  have := Finset.card_filter_le (Finset.range s.totalPages) fun page => s.Free page
  rw [Finset.card_range] at this
  exact this

/-- Taking a frame leaves one frame less. -/
theorem freeFrames_card_of_take (free : s.Free page)
    (rest : ∀ other, t.Free other ↔ s.Free other ∧ other ≠ page) :
    t.freeFrames.card + 1 = s.freeFrames.card := by
  have erased : t.freeFrames = s.freeFrames.erase page := by
    ext other
    rw [mem_freeFrames, rest, Finset.mem_erase, mem_freeFrames, and_comm]
  rw [erased]
  exact Finset.card_erase_add_one (mem_freeFrames.mpr free)

end PmmState

end NTux.Mem
