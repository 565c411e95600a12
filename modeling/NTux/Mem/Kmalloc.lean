import NTux.Mem.Vmm
import NTux.Foundation.Chain

/-! # The heap allocators

`mem/kmalloc.c` and `mem/umalloc.c` hold the same allocator over two ranges of
addresses: a first-fit free list whose nodes are the headers of the freed blocks,
and a bump pointer `heapEnd` for everything the free list does not serve. The
functions are written once over a `HeapConfig` with the values in which the two
files differ.

A block is the address of its header: its size in the first eight bytes, the next
block of the free list in the following eight, then the payload.
-/

namespace NTux.Mem

open NTux.Foundation

/-- What sets the two heaps apart. -/
structure HeapConfig where
  heapStart : Nat
  initialSize : Nat
  /-- The mask of `align8`. -/
  alignMask : Nat
  /-- The flags `expand_heap` maps pages with. -/
  mapFlags : Nat

/-- The values of `kmalloc.c`. -/
def kernelHeap : HeapConfig where
  heapStart := 0xFFFF800001000000
  initialSize := 0x100000
  alignMask := 2 ^ 64 - 8
  mapFlags := 0x3

/-- `sizeof(kmalloc_block_t)`. -/
abbrev headerSize : Nat := 16

/-- The static variables of one heap, on top of those of the memory manager. -/
structure HeapState extends VmmState where
  heapStart : Nat
  heapEnd : Nat
  heapMax : Nat
  freeList : Nat
  /-- The pages the heap has had mapped so far: a history, which no function reads. -/
  grown : List Nat

/-- `align8`. -/
def HeapConfig.align8 (config : HeapConfig) (size : Nat) : Nat :=
  (size + 7) % 2 ^ 64 &&& config.alignMask

namespace HeapState

/-- `block->size`. -/
def blockSize (s : HeapState) (block : Nat) : Nat :=
  s.mem.readLE block 8

/-- `block->next`. -/
def blockNext (s : HeapState) (block : Nat) : Nat :=
  s.mem.readLE (block + 8) 8

/-- `block->size = size`. -/
def setBlockSize (s : HeapState) (block size : Nat) : HeapState :=
  { s with mem := s.mem.writeLE block 8 size }

/-- `block->next = next`. -/
def setBlockNext (s : HeapState) (block next : Nat) : HeapState :=
  { s with mem := s.mem.writeLE (block + 8) 8 next }

/-- `*prev = next`, where `prev` points to the next field of a block or, when there is
no such block, to the head of the free list. -/
def setPrev (s : HeapState) (prev : Option Nat) (next : Nat) : HeapState :=
  match prev with
  | none => { s with freeList := next }
  | some block => s.setBlockNext block next

/-- The loop of `kmalloc` over the free list: the first block that is large enough,
with its predecessor. The outer option is `none` when the loop outlives its fuel. -/
def findFit (s : HeapState) (size : Nat) : Nat → Option Nat → Nat →
    Option (Option (Option Nat × Nat))
  | 0, _, _ => none
  | fuel + 1, prev, curr =>
      if curr = 0 then some none
      else if s.blockSize curr ≥ size then some (some (prev, curr))
      else findFit s size fuel (some curr) (s.blockNext curr)

/-- `heap_end += PAGE_SIZE` after a call of `vmm_map_page`, with what the call returned. -/
def advance (s : HeapState) (vmm : VmmState) (mapped : Nat) : HeapState :=
  { s with toVmmState := vmm, heapEnd := (s.heapEnd + pageSize) % 2 ^ 64
           grown := if mapped ≠ 0 then s.heapEnd / pageSize :: s.grown else s.grown }

/-- A walk over more blocks than there are addresses repeats one and never ends. -/
def walkFuel : Nat := 2 ^ 64 + 1

end HeapState

/-- The loop of `expand_heap`; `none` when it outlives its fuel. -/
def expandLoop (config : HeapConfig) (size : Nat) : Nat → HeapState → Option HeapState
  | 0, _ => none
  | fuel + 1, s =>
      if (s.heapEnd + size) % 2 ^ 64 > s.heapMax then
        let (phys, vmm) := s.allocFrame
        if phys = 0 then some { s with toVmmState := vmm }
        else
          let (mapped, vmm) := vmmMapPage vmm s.heapEnd phys config.mapFlags
          expandLoop config size fuel (s.advance vmm mapped)
      else some s

/-- `expand_heap`. Every turn of its loop takes a frame, so there are no more turns than
frames. -/
def expandHeap (config : HeapConfig) (s : HeapState) (size : Nat) : Option HeapState :=
  expandLoop config size (s.totalPages + 1) s

/-- The end of `kmalloc`: a new block at the end of the heap. -/
def placeBlock (s : HeapState) (size : Nat) : Nat × HeapState :=
  (s.heapEnd + headerSize,
    { s.setBlockSize s.heapEnd size with heapEnd := (s.heapEnd + (size + headerSize)) % 2 ^ 64 })

/-- `kmalloc` and `umalloc`; `none` when they never return. -/
def heapAlloc (config : HeapConfig) (s : HeapState) (size : Nat) : Option (Nat × HeapState) :=
  if size = 0 then some (0, s)
  else
    let size := config.align8 size
    (s.findFit size HeapState.walkFuel none s.freeList).bind fun
      | some (prev, curr) => some (curr + headerSize, s.setPrev prev (s.blockNext curr))
      | none => (expandHeap config s ((size + headerSize) % 2 ^ 64)).map fun s => placeBlock s size

/-- `kfree` and `ufree`. -/
def heapFree (s : HeapState) (ptr : Nat) : HeapState :=
  if ptr = 0 then s
  else
    let block := ptr - headerSize
    { s.setBlockNext block s.freeList with freeList := block }

/-- `kmalloc_init` and `umalloc_init`. -/
def heapInit (config : HeapConfig) (s : HeapState) : HeapState :=
  { s with heapStart := config.heapStart, heapEnd := config.heapStart
           heapMax := config.heapStart + config.initialSize, freeList := 0, grown := [] }

def kmallocInit (s : HeapState) : HeapState := heapInit kernelHeap s

def kmalloc (s : HeapState) (size : Nat) : Option (Nat × HeapState) := heapAlloc kernelHeap s size

def kfree (s : HeapState) (ptr : Nat) : HeapState := heapFree s ptr

end NTux.Mem
