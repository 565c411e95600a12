import NTux.Mem.Vmm
import Mathlib.Logic.Function.Basic

/-! # The ELF loader

`drivers/elf/elf.c`: the header and the program headers are read from a file in
memory, and the pages of every `PT_LOAD` segment are taken from the physical
allocator, mapped and filled one by one.

The file lies in memory of its own, which the allocator does not manage. A store to
a virtual page reaches the frame that `vmm_map_page` gave the page (`given`); a store
to a page that was never given one has no effect on the memory modelled here.
-/

namespace NTux.Elf

open NTux.Foundation NTux.Mem Memory

/-! ## The file -/

section File

variable (file : Memory)

/-- `e_entry`. -/
def entry : Nat := file.readLE 24 8

/-- `e_phoff`. -/
def phoff : Nat := file.readLE 32 8

/-- `e_phnum`. -/
def phnum : Nat := file.readLE 56 2

/-- `elf64_check`: magic, class, data encoding, machine and type. -/
def elf64Check : Bool :=
  if file.readLE 0 4 ≠ 0x464C457F then false
  else if file.readLE 4 1 ≠ 2 then false
  else if file.readLE 5 1 ≠ 1 then false
  else if file.readLE 18 2 ≠ 0x3E then false
  else if file.readLE 16 2 ≠ 2 then false
  else true

/-- The fields of `elf64_phdr_t` that the loader reads. -/
structure Phdr where
  type : Nat
  flags : Nat
  offset : Nat
  vaddr : Nat
  filesz : Nat
  memsz : Nat
  deriving DecidableEq, Repr

/-- `phdr[i]`. -/
def phdr (i : Nat) : Phdr :=
  let base := phoff file + 56 * i
  { type := file.readLE base 4
    flags := file.readLE (base + 4) 4
    offset := file.readLE (base + 8) 8
    vaddr := file.readLE (base + 16) 8
    filesz := file.readLE (base + 32) 8
    memsz := file.readLE (base + 40) 8 }

/-- The program headers in file order. -/
def phdrs : List Phdr := (List.range (phnum file)).map (phdr file)

end File

/-- `PT_LOAD`. -/
def ptLoad : Nat := 1

/-- The address of a segment rounded down to its page. -/
def Phdr.pageBase (segment : Phdr) : Nat :=
  segment.vaddr &&& (2 ^ 64 - 2 ^ 12)

/-- `VMM_PRESENT | VMM_USER`, and `VMM_WRITE` for a writable segment. -/
def Phdr.mapFlags (segment : Phdr) : Nat :=
  if segment.flags &&& 2 ≠ 0 then 0x1 ||| 0x4 ||| 0x2 else 0x1 ||| 0x4

/-- `copy_size` for the page at offset `off`. -/
def Phdr.copySize (segment : Phdr) (off : Nat) : Nat :=
  if off ≥ segment.filesz then 0
  else if (off + pageSize) % 2 ^ 64 > segment.filesz then segment.filesz - off
  else pageSize

/-! ## The loader -/

/-- The memory manager with the frames that pages have been given. -/
structure LoadState extends VmmState where
  given : Nat → Option Nat

namespace LoadState

/-- Before the load no page has been given a frame. -/
def start (s : VmmState) : LoadState := ⟨s, fun _ => none⟩

/-- `vmm_map_page`. -/
def mapPage (s : LoadState) (virt phys flags : Nat) : LoadState :=
  let (mapped, vmm) := vmmMapPage s.toVmmState virt phys flags
  { s with toVmmState := vmm
           given := if mapped ≠ 0 then
               Function.update s.given (virt / pageSize) (some (phys / pageSize))
             else s.given }

/-- `memcpy` of at most a page to the start of a virtual page. -/
def copyToPage (s : LoadState) (virt size : Nat) (bytes : Nat → Byte) : LoadState :=
  match s.given (virt / pageSize) with
  | some frame => { s with mem := s.mem.store (frame * pageSize) size bytes }
  | none => s

/-- The byte at a virtual address. -/
def read (s : LoadState) (virt : Nat) : Option Byte :=
  (s.given (virt / pageSize)).map fun frame => s.mem (frame * pageSize + virt % pageSize)

end LoadState

/-- The body of the loop over the pages of a segment. -/
def loadPage (file : Memory) (segment : Phdr) (off : Nat) (s : LoadState) : LoadState :=
  let pageVaddr := (segment.pageBase + off) % 2 ^ 64
  let (phys, vmm) := s.allocFrame
  let s := LoadState.mapPage { s with toVmmState := vmm } pageVaddr phys segment.mapFlags
  let srcOffset := (segment.offset + off) % 2 ^ 64
  if segment.copySize off > 0 then
    s.copyToPage pageVaddr (segment.copySize off) fun i => file (srcOffset + i)
  else s

/-- The loop over the pages of a segment; `none` when it outlives its fuel. -/
def loadPages (file : Memory) (segment : Phdr) : Nat → Nat → LoadState → Option LoadState
  | 0, _, _ => none
  | fuel + 1, off, s =>
      if off < segment.memsz then
        loadPages file segment fuel ((off + pageSize) % 2 ^ 64) (loadPage file segment off s)
      else some s

/-- The loop over the program headers. -/
def loadSegments (file : Memory) : List Phdr → LoadState → Option LoadState
  | [], s => some s
  | segment :: rest, s =>
      if segment.type ≠ ptLoad then loadSegments file rest s
      else (loadPages file segment pageLoopFuel 0 s).bind (loadSegments file rest)

/-- `elf64_load_and_prepare`: the entry point, or zero for a file that is not a valid
executable; `none` when it never returns. -/
def elf64LoadAndPrepare (file : Memory) (s : LoadState) : Option (Nat × LoadState) :=
  if !elf64Check file then some (0, s)
  else (loadSegments file (phdrs file) s).map fun s => (entry file, s)

end NTux.Elf
