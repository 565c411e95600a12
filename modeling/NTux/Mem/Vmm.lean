import NTux.Foundation.Bits
import NTux.Mem.Pmm

/-! # The virtual memory manager

`mem/vmm.c`: one page table of 512 entries, kept in a frame of the physical
allocator, that `vmmInit` fills with an identity map of the first 512 frames.
Pointers are addresses and the null pointer is zero. The page table is read
through its header in memory on every access, as the source does, and all memory
is one: clearing a frame that happens to hold the bitmap or the page table clears
these.
-/

namespace NTux.Mem

open NTux.Foundation

/-- `PAGE_SIZE / sizeof(pte_t)`. -/
abbrev entriesPerTable : Nat := 512

/-- `KERNEL_HEAP_START` of `vmm.h`. -/
def vmmHeapStart : Nat := 0xE0000000

/-- The static variables of `vmm.c`, on top of those of the physical allocator. -/
structure VmmState extends PmmState where
  currentPageTable : Nat
  kernelHeapEnd : Nat

/-- The value `set_pte` stores. -/
def pteValue (physAddr flags : Nat) : Nat :=
  (physAddr &&& (2 ^ 64 - 2 ^ 12)) ||| (flags &&& (2 ^ 12 - 1))

/-- `get_phys_addr_from_pte`. -/
def getPhysAddrFromPte (entry : Nat) : Nat :=
  entry &&& (2 ^ 64 - 2 ^ 12)

namespace VmmState

/-- The static initial values. -/
def boot (mem : Memory) : VmmState := ⟨.boot mem, 0, vmmHeapStart⟩

/-- `current_page_table->entries`. -/
def entries (s : VmmState) : Nat :=
  s.mem.readLE s.currentPageTable 8

/-- `current_page_table->entries = entries`. -/
def setEntries (s : VmmState) (entries : Nat) : VmmState :=
  { s with mem := s.mem.writeLE s.currentPageTable 8 entries }

/-- `current_page_table->entries[page]`. -/
def pte (s : VmmState) (page : Nat) : Nat :=
  s.mem.readLE (s.entries + 8 * page) 8

/-- `set_pte(&current_page_table->entries[page], phys_addr, flags)`. -/
def setPte (s : VmmState) (page physAddr flags : Nat) : VmmState :=
  { s with mem := s.mem.writeLE (s.entries + 8 * page) 8 (pteValue physAddr flags) }

def myMemset (s : VmmState) (ptr value num : Nat) : VmmState :=
  { s with mem := s.mem.store ptr num fun _ => BitVec.ofNat 8 value }

/-- `pmm_alloc_page` in a state of the memory manager. -/
def allocFrame (s : VmmState) : Nat × VmmState :=
  ((pmmAllocPage s.toPmmState).1, { s with toPmmState := (pmmAllocPage s.toPmmState).2 })

/-- `pmm_free_page` in a state of the memory manager. -/
def freeFrame (s : VmmState) (addr : Nat) : VmmState :=
  { s with toPmmState := pmmFreePage s.toPmmState addr }

/-- The loop of `vmm_init` over the first `count` entries. -/
def identityMap (s : VmmState) : Nat → VmmState
  | 0 => s
  | count + 1 => (identityMap s count).setPte count (count * pageSize) 0x3

end VmmState

open VmmState

/-- `vmm_init` after its call of `pmm_init`. -/
def buildPageTable (s : VmmState) : VmmState :=
  let (page1, s) := s.allocFrame
  let (_page2, s) := s.allocFrame
  let s := s.freeFrame page1
  let (table, s) := s.allocFrame
  let s := { s with currentPageTable := table }
  let s := s.myMemset table 0 16
  let (entries, s) := s.allocFrame
  let s := s.setEntries entries
  let s := s.myMemset s.entries 0 pageSize
  s.identityMap entriesPerTable

/-- `vmm_init`; `none` when `pmm_init` never returns. -/
def vmmInit (memmap : Memmap) (s : VmmState) : Option VmmState :=
  (pmmInit memmap s.toPmmState).map fun result =>
    buildPageTable { s with toPmmState := result.1 }

def vmmMapPage (s : VmmState) (virt phys flags : Nat) : Nat × VmmState :=
  if s.currentPageTable = 0 ∨ virt = 0 ∨ phys = 0 then (0, s)
  else if virt / pageSize ≥ entriesPerTable then (0, s)
  else (virt, s.setPte (virt / pageSize) phys flags)

def vmmUnmapPage (s : VmmState) (virt : Nat) : VmmState :=
  if s.currentPageTable = 0 ∨ virt = 0 then s
  else if virt / pageSize ≥ entriesPerTable then s
  else s.setPte (virt / pageSize) 0 0

def vmmFreePage (s : VmmState) (addr : Nat) : VmmState :=
  if s.currentPageTable = 0 ∨ addr = 0 then s
  else if addr / pageSize ≥ entriesPerTable then s
  else
    let phys := getPhysAddrFromPte (s.pte (addr / pageSize))
    if phys = 0 then s
    else (s.setPte (addr / pageSize) 0 0).freeFrame phys

/-- Take the next page of virtual addresses. -/
def VmmState.bumpHeap (s : VmmState) : VmmState :=
  { s with kernelHeapEnd := (s.kernelHeapEnd + pageSize) % 2 ^ 64 }

def vmmAllocPage (s : VmmState) : Nat × VmmState :=
  if s.currentPageTable = 0 then (0, s)
  else
    let (physAddr, s) := s.allocFrame
    if physAddr = 0 then (0, s)
    else
      let s := s.myMemset physAddr 0 pageSize
      let virtAddr := s.kernelHeapEnd
      let (mapped, s) := vmmMapPage s.bumpHeap virtAddr physAddr 0x3
      if mapped = 0 then (0, s.freeFrame physAddr) else (virtAddr, s)

/-- The loop of `vmm_free_pages_region` from page `i` on, also the one by which
`vmm_alloc_user_pages` takes its pages back. -/
def freePagesFrom (base : Nat) : Nat → Nat → VmmState → VmmState
  | _, 0, s => s
  | i, remaining + 1, s =>
      freePagesFrom base (i + 1) remaining (vmmFreePage s ((base + i * pageSize) % 2 ^ 64))

/-- The loop of `vmm_alloc_user_pages` from page `i` on. -/
def allocUserFrom : Nat → Nat → Nat → VmmState → Nat × VmmState
  | firstVirt, _, 0, s => (firstVirt, s)
  | firstVirt, i, remaining + 1, s =>
      let (phys, s) := s.allocFrame
      if phys = 0 then (0, if firstVirt ≠ 0 then freePagesFrom firstVirt 0 i s else s)
      else
        let s := s.myMemset phys 0 pageSize
        let virt := s.kernelHeapEnd
        let (mapped, s) := vmmMapPage s.bumpHeap virt phys 0x7
        if mapped = 0 then
          let s := s.freeFrame phys
          (0, if firstVirt ≠ 0 then freePagesFrom firstVirt 0 i s else s)
        else allocUserFrom (if firstVirt = 0 then virt else firstVirt) (i + 1) remaining s

def vmmAllocUserPages (s : VmmState) (count : Nat) : Nat × VmmState :=
  if count = 0 ∨ s.currentPageTable = 0 then (0, s)
  else allocUserFrom 0 0 count s

def vmmAllocStack (s : VmmState) (pages : Nat) : Nat × VmmState :=
  if pages = 0 ∨ s.currentPageTable = 0 then (0, s)
  else
    let total := (pages + 1) % 2 ^ 64
    let (base, s) := vmmAllocUserPages s total
    if base = 0 then (0, s)
    else ((base + total * pageSize) % 2 ^ 64, vmmUnmapPage s base)

def vmmFreePagesRegion (s : VmmState) (base count : Nat) : VmmState :=
  if base = 0 ∨ count = 0 ∨ s.currentPageTable = 0 then s
  else freePagesFrom base 0 count s

end NTux.Mem
