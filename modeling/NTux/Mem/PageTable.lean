import NTux.Mem.Vmm
import Mathlib.Data.Set.Lattice

/-! # The page table apart from the frames it maps

The memory manager keeps its bitmap, its page-table header and its entries in the
memory it hands out. As long as these lie apart from each other and from every
free frame (`VmmState.Apart`), each primitive of `vmm.c` acts on one of them and
leaves the others alone, and the state can be read as a set of free frames and an
array of entries.
-/

namespace NTux.Mem

open NTux.Foundation Memory

/-- The bytes of a frame. -/
abbrev frameBlock (page : Nat) : Set Nat := block (page * pageSize) pageSize

theorem frameBlock_disjoint {first second : Nat} (different : first ≠ second) :
    Disjoint (frameBlock first) (frameBlock second) := by
  apply block_disjoint
  rcases Nat.lt_or_gt_of_ne different with before | after
  · exact .inl (by simp only [pageSize]; omega)
  · exact .inr (by simp only [pageSize]; omega)

namespace VmmState

variable (s : VmmState)

abbrev bitmapBlock : Set Nat := block s.bitmap s.bitmapSize

/-- The bytes of the page-table structure, a pointer and a size. -/
abbrev headerBlock : Set Nat := block s.currentPageTable 16

abbrev entriesBlock : Set Nat := block s.entries pageSize

/-- The bytes the memory manager keeps its own data in. -/
def tables : Set Nat := s.bitmapBlock ∪ (s.headerBlock ∪ s.entriesBlock)

/-- The memory manager's own data lie apart from each other. -/
structure Separate : Prop where
  covers : s.totalPages < 8 * s.bitmapSize
  bounded : s.totalPages ≤ 2 ^ 52
  bitmap_header : Disjoint s.bitmapBlock s.headerBlock
  bitmap_entries : Disjoint s.bitmapBlock s.entriesBlock
  header_entries : Disjoint s.headerBlock s.entriesBlock

/-- They also lie apart from every frame that may be handed out. -/
structure Apart : Prop extends Separate s where
  free : ∀ page, s.Free page → Disjoint (frameBlock page) s.tables

/-- The bitmap, the header and the entries are where they were. -/
structure SamePlace (s t : VmmState) : Prop where
  layout : s.toPmmState.SameLayout t.toPmmState
  header : t.currentPageTable = s.currentPageTable
  entries : t.entries = s.entries

variable {s} {t : VmmState} {page : Nat}

theorem SamePlace.refl (s : VmmState) : s.SamePlace s := ⟨.refl _, rfl, rfl⟩

theorem SamePlace.trans {u : VmmState} (first : s.SamePlace t) (second : t.SamePlace u) :
    s.SamePlace u :=
  ⟨first.layout.trans second.layout, second.header.trans first.header,
    second.entries.trans first.entries⟩

theorem SamePlace.tables (same : s.SamePlace t) : t.tables = s.tables := by
  simp only [VmmState.tables, bitmapBlock, headerBlock, entriesBlock, same.layout.bitmap,
    same.layout.bitmapSize, same.header, same.entries]

theorem Separate.of_samePlace (separate : s.Separate) (same : s.SamePlace t) : t.Separate := by
  obtain ⟨⟨bitmap, bitmapSize, totalPages⟩, header, entries⟩ := same
  constructor
  · rw [totalPages, bitmapSize]
    exact separate.covers
  · rw [totalPages]
    exact separate.bounded
  · rw [bitmapBlock, headerBlock, bitmap, bitmapSize, header]
    exact separate.bitmap_header
  · rw [bitmapBlock, entriesBlock, bitmap, bitmapSize, entries]
    exact separate.bitmap_entries
  · rw [headerBlock, entriesBlock, header, entries]
    exact separate.header_entries

/-- Moving nothing and freeing only frames away from the tables keeps them apart. -/
theorem Apart.of_samePlace (apart : s.Apart) (same : s.SamePlace t)
    (free : ∀ page, t.Free page → s.Free page ∨ Disjoint (frameBlock page) s.tables) : t.Apart where
  toSeparate := apart.toSeparate.of_samePlace same
  free page known := by
    rw [same.tables]
    exact (free page known).elim (apart.free page) id

/-! ## Writes away from the tables -/

/-- The entries are read through the header, so both have to stay. -/
theorem samePlace_of_eqOn (layout : s.toPmmState.SameLayout t.toPmmState)
    (header : t.currentPageTable = s.currentPageTable)
    (same : Set.EqOn t.mem s.mem s.headerBlock) : s.SamePlace t := by
  refine ⟨layout, header, ?_⟩
  rw [VmmState.entries, VmmState.entries, header]
  exact readLE_congr (same.mono (Set.Ico_subset_Ico_right (by omega)))

theorem pte_of_eqOn (place : s.SamePlace t) (same : Set.EqOn t.mem s.mem s.entriesBlock)
    (low : page < entriesPerTable) : t.pte page = s.pte page := by
  rw [pte, pte, place.entries]
  refine readLE_congr (same.mono fun address member => ?_)
  have := member.1
  have := member.2
  exact ⟨by omega, by simp only [pageSize, entriesPerTable] at *; omega⟩

theorem free_of_eqOn (covers : s.totalPages < 8 * s.bitmapSize)
    (layout : s.toPmmState.SameLayout t.toPmmState)
    (same : Set.EqOn t.mem s.mem s.bitmapBlock) : t.Free page ↔ s.Free page := by
  rw [PmmState.Free, PmmState.Free, layout.totalPages]
  refine and_congr_right fun low => ?_
  have byte : s.bitmap + page / 8 ∈ s.bitmapBlock := ⟨by omega, by omega⟩
  rw [PmmState.testBit_congr layout.bitmap (same byte)]

/-! ## The primitives -/

/-- The byte of a page's bit lies in the bitmap. -/
theorem Separate.bit_mem (separate : s.Separate) (low : page < s.totalPages) :
    s.bitmap + page / 8 ∈ s.bitmapBlock := by
  have covers := separate.covers
  exact ⟨by omega, by omega⟩

/-- An operation of the physical allocator that writes only the bit of `page`. -/
structure BitWrite (s t : VmmState) (page : Nat) : Prop where
  layout : s.toPmmState.SameLayout t.toPmmState
  header : t.currentPageTable = s.currentPageTable
  mem : ∀ region : Set Nat, s.bitmap + page / 8 ∉ region → Set.EqOn t.mem s.mem region

theorem BitWrite.samePlace (write : s.BitWrite t page) (separate : s.Separate)
    (low : page < s.totalPages) : s.SamePlace t :=
  samePlace_of_eqOn write.layout write.header
    (write.mem _ (Set.disjoint_left.mp separate.bitmap_header (separate.bit_mem low)))

theorem BitWrite.pte (write : s.BitWrite t page) (separate : s.Separate) (low : page < s.totalPages)
    {other : Nat} (inside : other < entriesPerTable) : t.pte other = s.pte other :=
  pte_of_eqOn (write.samePlace separate low)
    (write.mem _ (Set.disjoint_left.mp separate.bitmap_entries (separate.bit_mem low))) inside

/-- Handing out the frame `page`. -/
def takeFrame (s : VmmState) (page : Nat) : VmmState :=
  { s with toPmmState := s.toPmmState.take page }

theorem takeFrame_bitWrite (s : VmmState) (page : Nat) : s.BitWrite (s.takeFrame page) page :=
  ⟨s.toPmmState.take_sameLayout page, rfl, fun _ apart => s.toPmmState.take_mem_eqOn apart⟩

/-- Everything `pmm_alloc_page` can do in a state of the memory manager. -/
theorem allocFrame_cases (bounded : s.totalPages ≤ 2 ^ 52) :
    ((∀ page, ¬ s.Free page) ∧ s.allocFrame = (0, s)) ∨
      ∃ page, s.Free page ∧ (∀ other, s.Free other → page ≤ other) ∧
        s.allocFrame = (page * pageSize, s.takeFrame page) := by
  rcases pmmAllocPage_cases s.toPmmState with ⟨used, result⟩ | ⟨page, free, least, result⟩
  · exact .inl ⟨used, by rw [allocFrame, result]⟩
  · have low := free.1
    have plain : page * pageSize % 2 ^ 64 = page * pageSize := by
      simp only [pageSize]
      omega
    exact .inr ⟨page, free, least, by rw [allocFrame, result, plain]; rfl⟩

theorem free_freeFrame {addr : Nat} :
    (s.freeFrame addr).Free page ↔ s.Free page ∨ (page = addr / pageSize ∧ page < s.totalPages) :=
  free_pmmFreePage s.toPmmState addr

theorem freeFrame_bitWrite (s : VmmState) (addr : Nat) :
    s.BitWrite (s.freeFrame addr) (addr / pageSize) := by
  refine ⟨pmmFreePage_sameLayout s.toPmmState addr, rfl, fun region apart => ?_⟩
  simp only [freeFrame, pmmFreePage]
  split
  · exact s.toPmmState.release_mem_eqOn apart
  · exact Set.eqOn_refl _ _

theorem setPte_mem_eqOn {physAddr flags : Nat} {region : Set Nat}
    (apart : Disjoint region s.entriesBlock) (low : page < entriesPerTable) :
    Set.EqOn (s.setPte page physAddr flags).mem s.mem region := by
  simp only [setPte, writeLE]
  refine s.mem.store_eqOn _ (apart.mono_right fun address member => ?_)
  have := member.1
  have := member.2
  exact ⟨by omega, by simp only [pageSize, entriesPerTable] at *; omega⟩

theorem setPte_sameLayout (s : VmmState) (page physAddr flags : Nat) :
    s.toPmmState.SameLayout (s.setPte page physAddr flags).toPmmState :=
  ⟨rfl, rfl, rfl⟩

theorem setPte_samePlace {physAddr flags : Nat} (apart : Disjoint s.headerBlock s.entriesBlock)
    (low : page < entriesPerTable) : s.SamePlace (s.setPte page physAddr flags) :=
  samePlace_of_eqOn (s.setPte_sameLayout _ _ _) rfl (setPte_mem_eqOn apart low)

theorem free_setPte {physAddr flags other : Nat} (separate : s.Separate)
    (low : page < entriesPerTable) :
    (s.setPte page physAddr flags).Free other ↔ s.Free other :=
  free_of_eqOn separate.covers (s.setPte_sameLayout _ _ _) (setPte_mem_eqOn separate.bitmap_entries low)

theorem pteValue_lt (physAddr flags : Nat) : pteValue physAddr flags < 2 ^ 64 :=
  Nat.or_lt_two_pow (Nat.and_lt_two_pow _ (by decide))
    ((Nat.and_lt_two_pow flags (by decide : 2 ^ 12 - 1 < 2 ^ 12)).trans (by decide))

theorem pte_setPte {physAddr flags other : Nat}
    (apart : Disjoint s.headerBlock s.entriesBlock) (low : page < entriesPerTable) :
    (s.setPte page physAddr flags).pte other =
      if other = page then pteValue physAddr flags else s.pte other := by
  rw [pte, (setPte_samePlace apart low).entries]
  split
  · rename_i same
    subst same
    exact (readLE_writeLE _ _ _ _).trans (Nat.mod_eq_of_lt (pteValue_lt _ _))
  · exact readLE_writeLE_of_apart _ _ (by omega)

section Fields

variable {ptr value num : Nat}

@[simp] theorem myMemset_currentPageTable :
    (s.myMemset ptr value num).currentPageTable = s.currentPageTable := rfl

@[simp] theorem myMemset_kernelHeapEnd :
    (s.myMemset ptr value num).kernelHeapEnd = s.kernelHeapEnd := rfl

@[simp] theorem setEntries_kernelHeapEnd :
    (s.setEntries value).kernelHeapEnd = s.kernelHeapEnd := rfl

@[simp] theorem setEntries_currentPageTable :
    (s.setEntries value).currentPageTable = s.currentPageTable := rfl

theorem myMemset_sameLayout : s.toPmmState.SameLayout (s.myMemset ptr value num).toPmmState :=
  ⟨rfl, rfl, rfl⟩

theorem setEntries_sameLayout : s.toPmmState.SameLayout (s.setEntries value).toPmmState :=
  ⟨rfl, rfl, rfl⟩

end Fields

theorem entries_setEntries {value : Nat} (small : value < 2 ^ 64) :
    (s.setEntries value).entries = value := by
  rw [VmmState.entries, setEntries_currentPageTable, setEntries]
  exact (readLE_writeLE _ _ _ _).trans (Nat.mod_eq_of_lt small)

theorem setEntries_mem_eqOn {value : Nat} {region : Set Nat} (away : Disjoint region s.headerBlock) :
    Set.EqOn (s.setEntries value).mem s.mem region := by
  simp only [setEntries, writeLE]
  exact s.mem.store_eqOn _ (away.mono_right (Set.Ico_subset_Ico_right (by omega)))

/-- Clearing a block leaves a region apart from it alone. -/
theorem myMemset_mem_eqOn {ptr value num : Nat} {region : Set Nat}
    (away : Disjoint region (block ptr num)) :
    Set.EqOn (s.myMemset ptr value num).mem s.mem region := by
  simp only [myMemset]
  exact s.mem.store_eqOn _ away

theorem bitmapBlock_subset : s.bitmapBlock ⊆ s.tables := Set.subset_union_left

theorem headerBlock_subset : s.headerBlock ⊆ s.tables :=
  Set.subset_union_left.trans Set.subset_union_right

theorem entriesBlock_subset : s.entriesBlock ⊆ s.tables :=
  Set.subset_union_right.trans Set.subset_union_right

/-- Everything a call of `vmm_map_page` can do: refuse, or write an entry. -/
theorem vmmMapPage_cases (s : VmmState) (virt phys flags : Nat) :
    vmmMapPage s virt phys flags = (0, s) ∨
      (virt ≠ 0 ∧ virt / pageSize < entriesPerTable ∧
        vmmMapPage s virt phys flags = (virt, s.setPte (virt / pageSize) phys flags)) := by
  unfold vmmMapPage
  split
  · exact .inl rfl
  · rename_i given
    split
    · exact .inl rfl
    · rename_i low
      exact .inr ⟨fun zero => given (.inr (.inl zero)), Nat.lt_of_not_le low, rfl⟩

end VmmState

end NTux.Mem
