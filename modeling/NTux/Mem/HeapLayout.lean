import NTux.Mem.HeapBlocks
import Mathlib.Data.List.Pairwise

/-! # A heap as a layout of blocks

What both heaps do, without addresses: a layout is the blocks that are live and those that
are free, as offsets and sizes, and an allocation takes the first free block that is large
enough or one at the top (`Layout.alloc`). As long as the requests stay within the initial
heap, `kmalloc` and `umalloc` do to their memory what this does to the layout, each with its
own rounding of the size (`Layout.Of.alloc`, `Layout.Of.release`).
-/

namespace NTux.Mem

open NTux.Foundation Memory HeapState

/-- A block of a heap: the offset of its header from the start of the heap, and the size of
its payload. -/
structure Block where
  offset : Nat
  size : Nat
  deriving DecidableEq, Repr

/-- The offset at which a block ends. -/
def Block.finish (block : Block) : Nat := block.offset + headerSize + block.size

/-- Two blocks do not meet. -/
def Block.Apart (first second : Block) : Prop :=
  first.finish ≤ second.offset ∨ second.finish ≤ first.offset

instance : Std.Symm Block.Apart := ⟨fun _ _ => Or.symm⟩

/-- The blocks of a heap, the free ones in the order of the free list, and the offset of its
end. -/
structure Layout where
  top : Nat
  live : List Block
  free : List Block
  deriving DecidableEq, Repr

/-- The first block that is large enough, and the list without it. -/
def takeFit (size : Nat) : List Block → Option (Block × List Block)
  | [] => none
  | block :: rest =>
      if size ≤ block.size then some (block, rest)
      else (takeFit size rest).map fun (found, rest) => (found, block :: rest)

namespace Layout

/-- The layout of a heap without blocks. -/
def empty : Layout := ⟨0, [], []⟩

/-- A live block of a size. -/
def alloc (a : Layout) (size : Nat) : Block × Layout :=
  match takeFit size a.free with
  | some (block, rest) => (block, { a with live := block :: a.live, free := rest })
  | none =>
      (⟨a.top, size⟩, { a with top := a.top + (size + headerSize), live := ⟨a.top, size⟩ :: a.live })

/-- A live block becomes the first of the free ones. -/
def release (a : Layout) (block : Block) : Layout :=
  { a with live := a.live.erase block, free := block :: a.free }

/-- A block of a size fits within a limit. -/
def Room (a : Layout) (limit size : Nat) : Prop :=
  takeFit size a.free = none → a.top + (size + headerSize) ≤ limit

/-- The blocks lie below the end of the heap and apart from each other. -/
structure Sound (a : Layout) : Prop where
  inside : ∀ block ∈ a.live ++ a.free, block.finish ≤ a.top
  apart : (a.live ++ a.free).Pairwise Block.Apart

end Layout

section TakeFit

variable {size : Nat} {block : Block} {before after blocks : List Block}

theorem takeFit_of_split (small : ∀ other ∈ before, other.size < size) (fits : size ≤ block.size) :
    takeFit size (before ++ block :: after) = some (block, before ++ after) := by
  induction before with
  | nil => exact if_pos fits
  | cons head rest ih =>
      rw [List.cons_append, takeFit, if_neg (Nat.not_le.mpr (small head List.mem_cons_self)),
        ih fun other member => small other (List.mem_cons_of_mem _ member)]
      rfl

theorem takeFit_of_small (small : ∀ other ∈ blocks, other.size < size) :
    takeFit size blocks = none := by
  induction blocks with
  | nil => rfl
  | cons head rest ih =>
      rw [takeFit, if_neg (Nat.not_le.mpr (small head List.mem_cons_self)),
        ih fun other member => small other (List.mem_cons_of_mem _ member)]
      rfl

end TakeFit

namespace Layout

variable {a : Layout} {size : Nat} {block : Block} {before after : List Block}

theorem Sound.of_perm {b : Layout} (sound : a.Sound) (top : b.top = a.top)
    (perm : (b.live ++ b.free).Perm (a.live ++ a.free)) : b.Sound where
  inside block member := top ▸ sound.inside block (perm.subset member)
  apart := (perm.pairwise_iff Or.symm).mpr sound.apart

theorem alloc_fit (split : a.free = before ++ block :: after)
    (small : ∀ other ∈ before, other.size < size) (fits : size ≤ block.size) :
    a.alloc size = (block, { a with live := block :: a.live, free := before ++ after }) := by
  rw [alloc, split, takeFit_of_split small fits]

theorem alloc_top (small : ∀ other ∈ a.free, other.size < size) :
    a.alloc size = (⟨a.top, size⟩,
      { a with top := a.top + (size + headerSize), live := ⟨a.top, size⟩ :: a.live }) := by
  rw [alloc, takeFit_of_small small]

theorem Sound.fit (sound : a.Sound) (split : a.free = before ++ block :: after) :
    Sound { a with live := block :: a.live, free := before ++ after } := by
  refine sound.of_perm rfl ?_
  rw [split, List.cons_append, ← List.append_assoc, ← List.append_assoc]
  exact List.perm_middle.symm

theorem Sound.place (sound : a.Sound) (size : Nat) :
    Sound { a with top := a.top + (size + headerSize), live := ⟨a.top, size⟩ :: a.live } where
  inside block member := by
    rcases List.mem_cons.mp member with rfl | old
    · change a.top + headerSize + size ≤ a.top + (size + headerSize)
      omega
    · exact (sound.inside block old).trans (Nat.le_add_right _ _)
  apart := List.pairwise_cons.mpr ⟨fun block member => .inr (sound.inside block member), sound.apart⟩

theorem release_perm (member : block ∈ a.live) :
    ((a.release block).live ++ (a.release block).free).Perm (a.live ++ a.free) := by
  have taken := (List.perm_cons_erase member).symm
  exact List.perm_middle.trans (taken.append_right a.free)

theorem Sound.release (sound : a.Sound) (member : block ∈ a.live) : (a.release block).Sound :=
  sound.of_perm rfl (release_perm member)

end Layout

/-! ## The heaps -/

/-- A heap begins behind the null pointer and lies in the address space. -/
structure HeapConfig.Regular (config : HeapConfig) : Prop where
  positive : 0 < config.heapStart
  bounded : config.heapStart + config.initialSize < 2 ^ 64

/-- The address of a block. -/
def HeapConfig.address (config : HeapConfig) (block : Block) : Nat :=
  config.heapStart + block.offset

/-- The heap in memory has a layout, within its initial size. -/
structure Layout.Of (config : HeapConfig) (s : HeapState) (a : Layout) : Prop where
  sound : a.Sound
  heapEnd : s.heapEnd = config.heapStart + a.top
  heapMax : s.heapMax = config.heapStart + config.initialSize
  below : a.top ≤ config.initialSize
  sizes : ∀ block ∈ a.live ++ a.free, s.blockSize (config.address block) = block.size
  free : s.FreeBlocks (a.free.map config.address)

/-- A request that the free list does not serve fits behind the end of the heap. -/
def Within (config : HeapConfig) (s : HeapState) (size : Nat) : Prop :=
  size ≠ 0 → s.findFit (config.align8 size) walkFuel none s.freeList = some none →
    s.heapEnd + config.align8 size + headerSize ≤ s.heapMax

namespace Layout.Of

variable {config : HeapConfig} {s t : HeapState} {a : Layout} {size : Nat} {block other : Block}

theorem init (config : HeapConfig) (s : HeapState) : Layout.empty.Of config (heapInit config s) where
  sound := ⟨fun _ member => absurd member List.not_mem_nil, .nil⟩
  heapEnd := rfl
  heapMax := rfl
  below := Nat.zero_le _
  sizes _ member := absurd member List.not_mem_nil
  free := ⟨rfl, List.nodup_nil, Nat.two_pow_pos 64, fun _ member => absurd member List.not_mem_nil⟩

/-- Two blocks are the same or have headers apart from each other. -/
theorem headers (layout : a.Of config s) (member : block ∈ a.live ++ a.free)
    (member' : other ∈ a.live ++ a.free) :
    config.address other = config.address block ∨
      config.address other + headerSize ≤ config.address block ∨
      config.address block + headerSize ≤ config.address other := by
  by_cases same : other = block
  · exact .inl (by rw [same])
  · have apart := layout.sound.apart.forall member' member same
    simp only [Block.Apart, Block.finish, HeapConfig.address] at apart ⊢
    omega

/-- Blocks lie strictly between the null pointer and the end of the address space. -/
theorem address_range (layout : a.Of config s) (regular : config.Regular)
    (member : block ∈ a.live ++ a.free) :
    config.address block ≠ 0 ∧ config.address block + headerSize ≤ s.heapEnd ∧
      config.address block < 2 ^ 64 := by
  have inside := layout.sound.inside block member
  have below := layout.below
  have positive := regular.positive
  have bounded := regular.bounded
  rw [layout.heapEnd]
  simp only [Block.finish, HeapConfig.address, headerSize] at inside ⊢
  omega

theorem free_small (layout : a.Of config s)
    (small : ∀ node ∈ a.free.map config.address, s.blockSize node < size) :
    ∀ block ∈ a.free, block.size < size := by
  intro block member
  rw [← layout.sizes block (List.mem_append_right _ member)]
  exact small _ (List.mem_map_of_mem member)

/-- A block taken from the free list. -/
theorem fit {before after : List Block} (layout : a.Of config s)
    (split : a.free = before ++ block :: after) :
    Layout.Of config (s.setPrev ((before.map config.address).getLast?.or none)
        (s.blockNext (config.address block)))
      { a with live := block :: a.live, free := before ++ after } where
  sound := layout.sound.fit split
  heapEnd := by rw [setPrev_heapEnd, layout.heapEnd]
  heapMax := by rw [setPrev_heapMax, layout.heapMax]
  below := layout.below
  sizes other member := by
    have perm : ((block :: a.live) ++ (before ++ after)).Perm (a.live ++ a.free) := by
      rw [split, List.cons_append, ← List.append_assoc, ← List.append_assoc]
      exact List.perm_middle.symm
    have old := perm.subset member
    rw [blockSize_setPrev, layout.sizes other old]
    intro prev last
    rw [Option.or_none] at last
    obtain ⟨node, listed, rfl⟩ := List.mem_map.mp (List.mem_of_getLast? last)
    have inFree : node ∈ a.free := by
      rw [split]
      exact List.mem_append_left _ listed
    exact layout.headers (List.mem_append_right _ inFree) old
  free := by
    have free := layout.free
    rw [split, List.map_append, List.map_cons] at free
    rw [List.map_append]
    exact free.unlink

/-- A block placed at the end of the heap. -/
theorem place (layout : a.Of config s) (regular : config.Regular)
    (room : a.top + (size + headerSize) ≤ config.initialSize) :
    (placeBlock s size).1 = config.address ⟨a.top, size⟩ + headerSize ∧
      Layout.Of config (placeBlock s size).2
        { a with top := a.top + (size + headerSize), live := ⟨a.top, size⟩ :: a.live } := by
  have bounded := regular.bounded
  have address : s.heapEnd = config.address ⟨a.top, size⟩ := layout.heapEnd
  have behind : ∀ block ∈ a.live ++ a.free, config.address block + headerSize ≤ s.heapEnd :=
    fun block member => (layout.address_range regular member).2.1
  refine ⟨by rw [placeBlock, address], layout.sound.place size, ?_, layout.heapMax, room, ?_, ?_⟩
  · have small : s.heapEnd + (size + headerSize) < 2 ^ 64 := by
      rw [layout.heapEnd]
      omega
    change (s.heapEnd + (size + headerSize)) % 2 ^ 64 = _
    rw [Nat.mod_eq_of_lt small, layout.heapEnd, Nat.add_assoc]
  · intro block member
    rcases List.mem_cons.mp member with rfl | old
    · rw [← address]
      have small : size < 256 ^ 8 := by
        simp only [headerSize] at room
        omega
      exact (readLE_writeLE _ _ _ _).trans (Nat.mod_eq_of_lt small)
    · have below := behind block old
      simp only [headerSize] at below
      rw [← layout.sizes block old]
      exact readLE_writeLE_of_apart _ _ (by omega)
  · refine ⟨layout.free.chain.congr ?_, layout.free.nodup, layout.free.head, layout.free.apart⟩
    intro node member
    obtain ⟨block, listed, rfl⟩ := List.mem_map.mp member
    have below := behind block (List.mem_append_right _ listed)
    simp only [headerSize] at below
    exact readLE_writeLE_of_apart _ _ (by omega)

/-- **Allocation refines the layout's.** Within the initial heap, `kmalloc` and `umalloc`
return the payload of the block that the layout's allocation picks. -/
theorem alloc (layout : a.Of config s) (regular : config.Regular) (nonzero : size ≠ 0)
    (within : Within config s size) :
    ∃ t, heapAlloc config s size =
        some (config.address (a.alloc (config.align8 size)).1 + headerSize, t) ∧
      (a.alloc (config.align8 size)).2.Of config t := by
  rcases heapAlloc_cases config layout.free nonzero with
    ⟨front, node, back, split, small, fits, result⟩ | ⟨small, none, result⟩
  · obtain ⟨before, rest, free, rfl, mapped⟩ := List.map_eq_append_iff.mp split
    obtain ⟨block, after, rfl, rfl, rfl⟩ := List.map_eq_cons_iff.mp mapped
    have known : ∀ other ∈ before ++ block :: after,
        s.blockSize (config.address other) = other.size :=
      fun other member => layout.sizes other (List.mem_append_right _ (free ▸ member))
    have smaller : ∀ other ∈ before, other.size < config.align8 size := by
      intro other member
      rw [← known other (List.mem_append_left _ member)]
      exact small _ (List.mem_map_of_mem member)
    have enough : config.align8 size ≤ block.size := by
      rw [← known block (List.mem_append_right _ List.mem_cons_self)]
      exact fits
    rw [alloc_fit free smaller enough]
    exact ⟨_, result, layout.fit free⟩
  · have fits := within nonzero none
    have bounded := regular.bounded
    rw [layout.heapEnd, layout.heapMax] at fits
    have room : a.top + (config.align8 size + headerSize) ≤ config.initialSize := by omega
    have plain : (config.align8 size + headerSize) % 2 ^ 64 = config.align8 size + headerSize :=
      Nat.mod_eq_of_lt (by omega)
    have unexpanded : (s.heapEnd + (config.align8 size + headerSize)) % 2 ^ 64 ≤ s.heapMax := by
      rw [layout.heapEnd, layout.heapMax, Nat.mod_eq_of_lt (by omega)]
      omega
    obtain ⟨pointer, placed⟩ := layout.place regular room
    rw [alloc_top (layout.free_small small)]
    refine ⟨_, ?_, placed⟩
    rw [result, plain, expandHeap_of_room config unexpanded, Option.map_some, ← pointer]

/-- Requests that the layout has room for stay within the initial heap. -/
theorem within (layout : a.Of config s) (room : a.Room config.initialSize (config.align8 size)) :
    Within config s size := by
  intro nonzero unserved
  rcases @findFit_spec s (config.align8 size) _ _ _ none layout.free.chain
    layout.free.length_lt with ⟨small, _⟩ | ⟨_, _, _, _, _, _, result⟩
  · have fits := room (takeFit_of_small (layout.free_small small))
    rw [layout.heapEnd, layout.heapMax]
    omega
  · cases unserved.symm.trans result

/-- **Release refines the layout's.** -/
theorem release (layout : a.Of config s) (regular : config.Regular) (member : block ∈ a.live) :
    (a.release block).Of config (heapFree s (config.address block + headerSize)) := by
  have listed : block ∈ a.live ++ a.free := List.mem_append_left _ member
  obtain ⟨nonnull, -, small⟩ := layout.address_range regular listed
  have perm := release_perm (a := a) member
  rw [heapFree_eq]
  refine ⟨layout.sound.release member, layout.heapEnd, layout.heapMax, layout.below, ?_, ?_⟩
  · intro other member'
    have old := perm.subset member'
    exact (blockSize_setBlockNext (layout.headers listed old)).trans (layout.sizes other old)
  · refine layout.free.push nonnull small fun node member' => ?_
    obtain ⟨other, old, rfl⟩ := List.mem_map.mp member'
    have disjoint := (List.pairwise_append.mp layout.sound.apart).2.2 block member other old
    simp only [Block.Apart, Block.finish, HeapConfig.address] at disjoint ⊢
    omega

end Layout.Of

end NTux.Mem
