import NTux.Mem.HeapBlocks
import NTux.Foundation.Runs

/-! # Runs of the kernel heap

As long as the requests stay within the initial heap, `kmalloc` and `kfree` partition
the memory below `heap_end` into blocks, each either live or on the free list
(`HeapInv`). Programs may write to the payload of their live blocks in between. What
this means for the callers is `HeapSound`, which every run keeps (`kmalloc_sound`).
-/

namespace NTux.Mem

open NTux.Foundation Memory HeapState

namespace HeapState

/-- Header and payload of a block. -/
def extent (s : HeapState) (block : Nat) : Set Nat :=
  Memory.block block (headerSize + s.blockSize block)

/-- Two blocks do not meet. -/
def BlocksApart (s : HeapState) (first second : Nat) : Prop :=
  first + headerSize + s.blockSize first ≤ second ∨
    second + headerSize + s.blockSize second ≤ first

/-- The blocks lie in the heap, aligned and apart from each other. -/
structure Blocks (s : HeapState) (all : List Nat) : Prop where
  inside : ∀ block ∈ all,
    s.heapStart ≤ block ∧ block + headerSize + s.blockSize block ≤ s.heapEnd
  aligned : ∀ block ∈ all, block % 8 = 0 ∧ s.blockSize block % 8 = 0
  apart : ∀ first ∈ all, ∀ second ∈ all, first ≠ second → s.BlocksApart first second

variable {s t : HeapState} {all : List Nat} {block : Nat}

theorem BlocksApart.headers {first second : Nat} (apart : s.BlocksApart first second) :
    first + headerSize ≤ second ∨ second + headerSize ≤ first :=
  apart.imp (fun below => (Nat.le_add_right _ _).trans below)
    fun below => (Nat.le_add_right _ _).trans below

theorem BlocksApart.disjoint {first second : Nat} (apart : s.BlocksApart first second) :
    Disjoint (s.extent first) (s.extent second) :=
  block_disjoint (by rw [← Nat.add_assoc, ← Nat.add_assoc]; exact apart)

theorem Blocks.subset {part : List Nat} (blocks : s.Blocks all) (sub : part ⊆ all) :
    s.Blocks part where
  inside block member := blocks.inside block (sub member)
  aligned block member := blocks.aligned block (sub member)
  apart first member second member' := blocks.apart first (sub member) second (sub member')

/-- The blocks stay as they are while their sizes do. -/
theorem Blocks.of_sizes (blocks : s.Blocks all) (start : t.heapStart = s.heapStart)
    (grows : s.heapEnd ≤ t.heapEnd) (sizes : ∀ block ∈ all, t.blockSize block = s.blockSize block) :
    t.Blocks all where
  inside block member := by
    rw [start, sizes block member]
    exact ⟨(blocks.inside block member).1, (blocks.inside block member).2.trans grows⟩
  aligned block member := by
    rw [sizes block member]
    exact blocks.aligned block member
  apart first member second member' different := by
    rw [BlocksApart, sizes first member, sizes second member']
    exact blocks.apart first member second member' different

/-- A program writes to memory. -/
def writeByte (s : HeapState) (address : Nat) (byte : Byte) : HeapState :=
  { s with mem := s.mem.store address 1 fun _ => byte }

/-- A byte outside a header is none of its fields. -/
theorem writeByte_header {address : Nat} {byte : Byte}
    (apart : block + headerSize ≤ address ∨ address < block) :
    (s.writeByte address byte).blockSize block = s.blockSize block ∧
      (s.writeByte address byte).blockNext block = s.blockNext block := by
  have kept : Set.EqOn (s.writeByte address byte).mem s.mem (Memory.block block headerSize) := by
    simp only [writeByte]
    exact s.mem.store_eqOn _ (block_disjoint (by omega))
  constructor
  · exact readLE_congr (kept.mono (Set.Ico_subset_Ico_right (by simp only [headerSize]; omega)))
  · exact readLE_congr (kept.mono (Set.Ico_subset_Ico (by omega) (by simp only [headerSize]; omega)))

/-- The header of a block is apart from the field of another one. -/
theorem Blocks.field_apart {other : Nat} (blocks : s.Blocks all) (member : block ∈ all)
    (member' : other ∈ all) :
    other = block ∨ other + headerSize ≤ block ∨ block + headerSize ≤ other := by
  by_cases same : other = block
  · exact .inl same
  · exact .inr (blocks.apart other member' block member same).headers

end HeapState

/-- A heap together with its live blocks and the sizes they were requested with, and
with the blocks freed and not handed out again. A block stands for the pointer just
behind its header. -/
structure HeapTrace where
  state : HeapState
  live : List (Nat × Nat)
  freed : List Nat

inductive HeapEvent where
  | alloc (size : Nat)
  | free (block : Nat)
  | write (address : Nat) (byte : Byte)

/-- A request that the free list does not serve fits behind the end of the heap. -/
def InitialRoom (s : HeapState) (size : Nat) : Prop :=
  size ≠ 0 → s.findFit (kernelHeap.align8 size) walkFuel none s.freeList = some none →
    s.heapEnd + kernelHeap.align8 size + headerSize ≤ s.heapMax

/-- One call of `kmalloc` or `kfree`, or a write to the payload of a live block. -/
inductive HeapStep : HeapTrace → HeapEvent → HeapTrace → Prop where
  | null {trace : HeapTrace} {state : HeapState}
      (result : kmalloc trace.state 0 = some (0, state)) :
      HeapStep trace (.alloc 0) { trace with state := state }
  | alloc {trace : HeapTrace} {size ptr : Nat} {state : HeapState} (unwrapped : size + 7 < 2 ^ 64)
      (room : InitialRoom trace.state size) (nonnull : ptr ≠ 0)
      (result : kmalloc trace.state size = some (ptr, state)) :
      HeapStep trace (.alloc size)
        ⟨state, (ptr - headerSize, size) :: trace.live, trace.freed.erase (ptr - headerSize)⟩
  | free {trace : HeapTrace} {block size : Nat} (member : (block, size) ∈ trace.live) :
      HeapStep trace (.free block)
        ⟨kfree trace.state (block + headerSize), trace.live.erase (block, size),
          block :: trace.freed⟩
  | write {trace : HeapTrace} {block size offset : Nat} {byte : Byte}
      (member : (block, size) ∈ trace.live) (inside : offset < size) :
      HeapStep trace (.write (block + headerSize + offset) byte)
        { trace with state := trace.state.writeByte (block + headerSize + offset) byte }

/-! ## The invariant -/

/-- The heap is cut into blocks, each either live or on the free list. -/
structure HeapInv (trace : HeapTrace) : Prop where
  start : trace.state.heapStart = kernelHeap.heapStart
  max : trace.state.heapMax = kernelHeap.heapStart + kernelHeap.initialSize
  below : trace.state.heapStart ≤ trace.state.heapEnd ∧ trace.state.heapEnd ≤ trace.state.heapMax
  aligned : trace.state.heapEnd % 8 = 0
  blocks : trace.state.Blocks (trace.live.map Prod.fst ++ trace.freed)
  nodup : (trace.live.map Prod.fst ++ trace.freed).Nodup
  free : trace.state.FreeBlocks trace.freed
  sized : ∀ pair ∈ trace.live, pair.2 ≤ trace.state.blockSize pair.1

theorem heapInv_init (s : HeapState) : HeapInv ⟨kmallocInit s, [], []⟩ where
  start := rfl
  max := rfl
  below := ⟨le_rfl, Nat.le_add_right _ _⟩
  aligned := show kernelHeap.heapStart % 8 = 0 by decide
  blocks := ⟨fun _ member => absurd member List.not_mem_nil,
    fun _ member => absurd member List.not_mem_nil, fun _ member => absurd member List.not_mem_nil⟩
  nodup := List.nodup_nil
  free := ⟨rfl, List.nodup_nil, Nat.two_pow_pos 64, fun _ member => absurd member List.not_mem_nil⟩
  sized _ member := absurd member List.not_mem_nil

namespace HeapInv

variable {trace : HeapTrace} {block size : Nat}

theorem heapMax_lt (inv : HeapInv trace) : trace.state.heapMax < 2 ^ 64 := by
  rw [inv.max]
  decide

theorem live_mem {pair : Nat × Nat} (member : pair ∈ trace.live) :
    pair.1 ∈ trace.live.map Prod.fst ++ trace.freed :=
  List.mem_append_left _ (List.mem_map_of_mem member)

/-- Blocks lie strictly between the null pointer and the end of the address space. -/
theorem block_range (inv : HeapInv trace) (member : block ∈ trace.live.map Prod.fst ++ trace.freed) :
    block ≠ 0 ∧ block < 2 ^ 64 := by
  have inside := inv.blocks.inside block member
  have below := inv.below
  have top := inv.heapMax_lt
  rw [inv.start, headerSize] at inside
  simp only [kernelHeap] at inside
  omega

/-- A block from the free list. -/
theorem fit {before after : List Nat} (inv : HeapInv trace)
    (split : trace.freed = before ++ block :: after)
    (fits : size ≤ trace.state.blockSize block) :
    HeapInv ⟨trace.state.setPrev (before.getLast?.or none) (trace.state.blockNext block),
      (block, size) :: trace.live, trace.freed.erase block⟩ := by
  have skipped : block ∉ before := by
    have distinct := (List.nodup_append'.mp inv.nodup).2.1
    rw [split] at distinct
    exact fun member => (List.nodup_append'.mp distinct).2.2 member List.mem_cons_self
  have remaining : trace.freed.erase block = before ++ after := by
    rw [split, List.erase_append_right _ skipped, List.erase_cons_head]
  have perm : ((block, size) :: trace.live).map Prod.fst ++ (before ++ after) |>.Perm
      (trace.live.map Prod.fst ++ trace.freed) := by
    rw [split, List.map_cons, List.cons_append, ← List.append_assoc, ← List.append_assoc]
    exact List.perm_middle.symm
  have sizes : ∀ other ∈ trace.live.map Prod.fst ++ trace.freed,
      (trace.state.setPrev (before.getLast?.or none) (trace.state.blockNext block)).blockSize other =
        trace.state.blockSize other := by
    intro other member
    apply blockSize_setPrev
    intro prev last
    rw [Option.or_none] at last
    have listed : prev ∈ trace.freed := by
      rw [split]
      exact List.mem_append_left _ (List.mem_of_getLast? last)
    exact inv.blocks.field_apart (List.mem_append_right _ listed) member
  rw [remaining]
  refine ⟨?_, ?_, ?_, ?_, ?_, ?_, ?_, fun pair member => ?_⟩
  · rw [setPrev_heapStart]
    exact inv.start
  · rw [setPrev_heapMax]
    exact inv.max
  · rw [setPrev_heapStart, setPrev_heapEnd, setPrev_heapMax]
    exact inv.below
  · rw [setPrev_heapEnd]
    exact inv.aligned
  · refine (inv.blocks.of_sizes setPrev_heapStart ?_ sizes).subset perm.subset
    rw [setPrev_heapEnd]
  · exact perm.nodup_iff.mpr inv.nodup
  · have free := inv.free
    rw [split] at free
    exact free.unlink
  · rcases List.mem_cons.mp member with rfl | old
    · rw [sizes block (by rw [split]; simp)]
      exact fits
    · rw [sizes pair.1 (live_mem old)]
      exact inv.sized pair old

/-- A new block behind the others. -/
theorem bump (inv : HeapInv trace) (unwrapped : size + 7 < 2 ^ 64)
    (room : trace.state.heapEnd + kernelHeap.align8 size + headerSize ≤ trace.state.heapMax) :
    HeapInv ⟨(placeBlock trace.state (kernelHeap.align8 size)).2,
      (trace.state.heapEnd, size) :: trace.live, trace.freed.erase trace.state.heapEnd⟩ := by
  have top := inv.heapMax_lt
  have rounded := align8_kernelHeap unwrapped
  generalize kernelHeap.align8 size = aligned at room rounded ⊢
  have fresh : ∀ other ∈ trace.live.map Prod.fst ++ trace.freed,
      other + headerSize + trace.state.blockSize other ≤ trace.state.heapEnd :=
    fun other member => (inv.blocks.inside other member).2
  have unlisted : trace.state.heapEnd ∉ trace.live.map Prod.fst ++ trace.freed := by
    intro member
    have := fresh _ member
    simp only [headerSize] at this
    omega
  have heapEnd : (placeBlock trace.state aligned).2.heapEnd =
      trace.state.heapEnd + aligned + headerSize := by
    change (trace.state.heapEnd + (aligned + headerSize)) % 2 ^ 64 = _
    rw [← Nat.add_assoc]
    exact Nat.mod_eq_of_lt (room.trans_lt top)
  have newSize : (placeBlock trace.state aligned).2.blockSize trace.state.heapEnd = aligned :=
    (readLE_writeLE _ _ _ _).trans (Nat.mod_eq_of_lt (by simp only [headerSize] at room; omega))
  have sizes : ∀ other ∈ trace.live.map Prod.fst ++ trace.freed,
      (placeBlock trace.state aligned).2.blockSize other = trace.state.blockSize other := by
    intro other member
    have := fresh other member
    simp only [headerSize] at this
    exact readLE_writeLE_of_apart _ _ (by omega)
  have links : ∀ other ∈ trace.freed,
      (placeBlock trace.state aligned).2.blockNext other = trace.state.blockNext other := by
    intro other member
    have := fresh other (List.mem_append_right _ member)
    simp only [headerSize] at this
    exact readLE_writeLE_of_apart _ _ (by omega)
  rw [List.erase_of_not_mem fun member => unlisted (List.mem_append_right _ member)]
  have old := inv.blocks.of_sizes (t := (placeBlock trace.state aligned).2) rfl
    (by rw [heapEnd, Nat.add_assoc]; exact Nat.le_add_right _ _) sizes
  refine ⟨inv.start, inv.max, ⟨?_, ?_⟩, ?_, ⟨?_, ?_, ?_⟩, List.nodup_cons.mpr ⟨unlisted, inv.nodup⟩,
    ⟨?_, inv.free.nodup, inv.free.head, inv.free.apart⟩, ?_⟩
  · rw [heapEnd]
    have := inv.below.1
    change trace.state.heapStart ≤ _
    omega
  · rw [heapEnd]
    exact room
  · have := inv.aligned
    rw [heapEnd]
    simp only [headerSize]
    omega
  · intro other member
    rcases List.mem_cons.mp member with rfl | listed
    · rw [newSize, heapEnd]
      have := inv.below.1
      simp only [headerSize]
      exact ⟨this, by omega⟩
    · exact old.inside other listed
  · intro other member
    rcases List.mem_cons.mp member with rfl | listed
    · rw [newSize]
      exact ⟨inv.aligned, by omega⟩
    · exact old.aligned other listed
  · have behind : ∀ other ∈ trace.live.map Prod.fst ++ trace.freed,
        (placeBlock trace.state aligned).2.BlocksApart other trace.state.heapEnd := by
      intro other member
      rw [BlocksApart, sizes other member]
      exact .inl (fresh other member)
    intro first member second member' different
    rcases List.mem_cons.mp member with rfl | listed
    · rcases List.mem_cons.mp member' with rfl | listed'
      · exact absurd rfl different
      · exact (behind second listed').symm
    · rcases List.mem_cons.mp member' with rfl | listed'
      · exact behind first listed
      · exact old.apart first listed second listed' different
  · exact inv.free.chain.congr links
  · intro pair member
    rcases List.mem_cons.mp member with rfl | listed
    · change size ≤ (placeBlock trace.state aligned).2.blockSize trace.state.heapEnd
      rw [newSize]
      omega
    · rw [sizes pair.1 (live_mem listed)]
      exact inv.sized pair listed

/-- A live block goes to the free list. -/
theorem release (inv : HeapInv trace) (member : (block, size) ∈ trace.live) :
    HeapInv ⟨kfree trace.state (block + headerSize), trace.live.erase (block, size),
      block :: trace.freed⟩ := by
  have listed := live_mem member
  obtain ⟨nonnull, small⟩ := inv.block_range listed
  rw [kfree, heapFree_eq]
  have perm : ((trace.live.erase (block, size)).map Prod.fst ++ block :: trace.freed).Perm
      (trace.live.map Prod.fst ++ trace.freed) := by
    have taken := ((List.perm_cons_erase member).map Prod.fst).symm
    exact List.perm_middle.trans (taken.append_right trace.freed)
  have sizes : ∀ other ∈ trace.live.map Prod.fst ++ trace.freed,
      (trace.state.pushFree block).blockSize other = trace.state.blockSize other :=
    fun other member' => blockSize_setBlockNext (inv.blocks.field_apart listed member')
  have unlisted : ∀ node ∈ trace.freed, node ≠ block := by
    rintro node member' rfl
    exact (List.nodup_append'.mp inv.nodup).2.2 (List.mem_map_of_mem member) member'
  have kept := inv.blocks.of_sizes (t := trace.state.pushFree block) rfl le_rfl sizes
  refine ⟨inv.start, inv.max, inv.below, inv.aligned, kept.subset perm.subset,
    perm.nodup_iff.mpr inv.nodup,
    inv.free.push nonnull small fun node member' => ?_, fun pair member' => ?_⟩
  · exact (inv.blocks.apart node (List.mem_append_right _ member') block listed
      (unlisted node member')).headers
  · have old := List.mem_of_mem_erase member'
    rw [sizes pair.1 (live_mem old)]
    exact inv.sized pair old

/-- Writing to the payload of a live block. -/
theorem write {offset : Nat} {byte : Byte} (inv : HeapInv trace)
    (member : (block, size) ∈ trace.live) (inside : offset < size) :
    HeapInv { trace with state := trace.state.writeByte (block + headerSize + offset) byte } := by
  have fits := inv.sized (block, size) member
  have apart : ∀ other ∈ trace.live.map Prod.fst ++ trace.freed,
      other + headerSize ≤ block + headerSize + offset ∨ block + headerSize + offset < other := by
    intro other member'
    by_cases same : other = block
    · subst same
      exact .inl (Nat.le_add_right _ _)
    · rcases inv.blocks.apart other member' block (live_mem member) same with before | after
      · simp only [headerSize] at before ⊢
        omega
      · simp only [headerSize] at after fits ⊢
        omega
  generalize block + headerSize + offset = address at apart ⊢
  have sizes : ∀ other ∈ trace.live.map Prod.fst ++ trace.freed,
      (trace.state.writeByte address byte).blockSize other = trace.state.blockSize other :=
    fun other member' => (writeByte_header (apart other member')).1
  have links : ∀ other ∈ trace.freed,
      (trace.state.writeByte address byte).blockNext other = trace.state.blockNext other :=
    fun other member' => (writeByte_header (apart other (List.mem_append_right _ member'))).2
  refine ⟨inv.start, inv.max, inv.below, inv.aligned, inv.blocks.of_sizes rfl le_rfl sizes,
    inv.nodup, ⟨inv.free.chain.congr links, inv.free.nodup, inv.free.head, inv.free.apart⟩,
    fun pair member' => ?_⟩
  rw [sizes pair.1 (live_mem member')]
  exact inv.sized pair member'

/-- Everything a call of `kmalloc` can do within the initial heap: unlink the first block
that is large enough or, when there is none, place a new block. -/
theorem kmalloc_cases (inv : HeapInv trace) (nonzero : size ≠ 0)
    (room : InitialRoom trace.state size) :
    (∃ before block after, trace.freed = before ++ block :: after ∧
        kernelHeap.align8 size ≤ trace.state.blockSize block ∧
        kmalloc trace.state size = some (block + headerSize,
          trace.state.setPrev (before.getLast?.or none) (trace.state.blockNext block))) ∨
      (trace.state.heapEnd + kernelHeap.align8 size + headerSize ≤ trace.state.heapMax ∧
        kmalloc trace.state size = some (placeBlock trace.state (kernelHeap.align8 size))) := by
  rcases heapAlloc_cases kernelHeap inv.free nonzero with
    ⟨before, block, after, split, _, fits, result⟩ | ⟨_, none, result⟩
  · exact .inl ⟨before, block, after, split, fits, result⟩
  · have fits := room nonzero none
    have top := inv.heapMax_lt
    have small : (kernelHeap.align8 size + headerSize) % 2 ^ 64 =
        kernelHeap.align8 size + headerSize := Nat.mod_eq_of_lt (by omega)
    have unexpanded : (trace.state.heapEnd + (kernelHeap.align8 size + headerSize)) % 2 ^ 64 ≤
        trace.state.heapMax := by
      rw [← Nat.add_assoc, Nat.mod_eq_of_lt (fits.trans_lt top)]
      exact fits
    refine .inr ⟨fits, ?_⟩
    rw [kmalloc, result, small, expandHeap_of_room kernelHeap unexpanded, Option.map_some]

/-- One call keeps the invariant. -/
theorem step {event : HeapEvent} {next : HeapTrace} (inv : HeapInv trace)
    (taken : HeapStep trace event next) : HeapInv next := by
  cases taken with
  | null result =>
      rw [kmalloc_zero] at result
      cases result
      exact inv
  | alloc unwrapped room nonnull result =>
      rename_i size ptr state
      have nonzero : size ≠ 0 := by
        rintro rfl
        cases (kmalloc_zero _).symm.trans result
        exact nonnull rfl
      rcases inv.kmalloc_cases nonzero room with
        ⟨before, block, after, split, fits, known⟩ | ⟨fits, known⟩
      · cases known.symm.trans result
        rw [Nat.add_sub_cancel]
        have rounded := align8_kernelHeap unwrapped
        exact inv.fit split (by omega)
      · cases known.symm.trans result
        exact inv.bump unwrapped fits
  | free member => exact inv.release member
  | write member inside => exact inv.write member inside

/-- A request that fits behind the end of the heap is served. -/
theorem alloc_progress (inv : HeapInv trace) (nonzero : size ≠ 0) (unwrapped : size + 7 < 2 ^ 64)
    (room : trace.state.heapEnd + kernelHeap.align8 size + headerSize ≤ trace.state.heapMax) :
    ∃ block next, HeapStep trace (.alloc size) next ∧ next.live = (block, size) :: trace.live ∧
      next.state.heapEnd ≤ trace.state.heapEnd + kernelHeap.align8 size + headerSize := by
  have fits : InitialRoom trace.state size := fun _ _ => room
  rcases inv.kmalloc_cases nonzero fits with ⟨before, block, after, _, _, result⟩ | ⟨_, result⟩
  · refine ⟨_, _, .alloc unwrapped fits (Nat.succ_ne_zero _) result, rfl, ?_⟩
    change (trace.state.setPrev _ _).heapEnd ≤ _
    rw [setPrev_heapEnd, Nat.add_assoc]
    exact Nat.le_add_right _ _
  · refine ⟨_, _, .alloc unwrapped fits (Nat.succ_ne_zero _) result, rfl, ?_⟩
    change (trace.state.heapEnd + (kernelHeap.align8 size + headerSize)) % 2 ^ 64 ≤ _
    rw [Nat.add_assoc]
    exact Nat.mod_le _ _

end HeapInv

@[simp] theorem heapFree_heapEnd (s : HeapState) (ptr : Nat) :
    (heapFree s ptr).heapEnd = s.heapEnd := by
  unfold heapFree
  split <;> rfl

/-! ## What callers see -/

/-- The blocks of all live pointers lie in the heap, aligned, large enough, and apart from
each other and from the free blocks; the free list runs through the freed blocks that
have not been handed out again, each of them once, and ends. -/
structure HeapSound (trace : HeapTrace) : Prop where
  live_apart : trace.live.Pairwise fun first second =>
    Disjoint (trace.state.extent first.1) (trace.state.extent second.1)
  live_free : ∀ pair ∈ trace.live, ∀ block ∈ trace.freed,
    Disjoint (trace.state.extent pair.1) (trace.state.extent block)
  sized : ∀ pair ∈ trace.live, pair.2 ≤ trace.state.blockSize pair.1
  aligned : ∀ pair ∈ trace.live, (pair.1 + headerSize) % 8 = 0
  inside : ∀ pair ∈ trace.live,
    trace.state.extent pair.1 ⊆ Set.Ico trace.state.heapStart trace.state.heapEnd
  free : Chain trace.state.blockNext 0 trace.state.freeList trace.freed
  distinct : trace.freed.Nodup

theorem HeapInv.sound {trace : HeapTrace} (inv : HeapInv trace) : HeapSound trace where
  live_apart := by
    have distinct := (List.nodup_append'.mp inv.nodup).1
    rw [List.Nodup, List.pairwise_map] at distinct
    refine distinct.imp_of_mem fun {first second} member member' different => ?_
    exact (inv.blocks.apart _ (live_mem member) _ (live_mem member') different).disjoint
  live_free pair member block member' := by
    have different : pair.1 ≠ block := by
      rintro rfl
      exact (List.nodup_append'.mp inv.nodup).2.2 (List.mem_map_of_mem member) member'
    exact (inv.blocks.apart _ (live_mem member) _ (List.mem_append_right _ member')
      different).disjoint
  sized := inv.sized
  aligned pair member := by
    have := (inv.blocks.aligned _ (live_mem member)).1
    simp only [headerSize]
    omega
  inside pair member := by
    obtain ⟨low, high⟩ := inv.blocks.inside _ (live_mem member)
    exact Set.Ico_subset_Ico low (by rw [← Nat.add_assoc]; exact high)
  free := inv.free.chain
  distinct := inv.free.nodup

/-- **The kernel heap hands out disjoint blocks.** Every run of `kmalloc` and `kfree`
within the initial heap leaves the heap sound, and the next such request returns. -/
theorem kmalloc_sound {s : HeapState} {events : List HeapEvent} {trace : HeapTrace}
    (run : Run HeapStep ⟨kmallocInit s, [], []⟩ events trace) :
    HeapSound trace ∧ ∀ size, InitialRoom trace.state size →
      ∃ ptr state, kmalloc trace.state size = some (ptr, state) := by
  have inv : HeapInv trace := run.invariant (fun _ _ _ inv taken => inv.step taken) (heapInv_init s)
  refine ⟨inv.sound, fun size room => ?_⟩
  by_cases zero : size = 0
  · subst zero
    exact ⟨0, trace.state, kmalloc_zero _⟩
  · rcases inv.kmalloc_cases zero room with ⟨_, _, _, _, _, result⟩ | ⟨_, result⟩
    · exact ⟨_, _, result⟩
    · exact ⟨_, _, result⟩

/-- The heap at boot, in cleared memory. -/
def bootHeap : HeapState := kmallocInit ⟨.boot fun _ => 0, 0, 0, 0, 0, []⟩

/-- Two allocations, the first of which is freed in between. -/
theorem kmalloc_sound_reuse :
    ∃ block trace, Run HeapStep ⟨bootHeap, [], []⟩ [.alloc 24, .free block, .alloc 16] trace ∧
      HeapSound trace ∧ ∀ size, InitialRoom trace.state size →
        ∃ ptr state, kmalloc trace.state size = some (ptr, state) := by
  have start : HeapInv ⟨bootHeap, [], []⟩ := heapInv_init _
  have align24 : kernelHeap.align8 24 = 24 := by decide +kernel
  have align16 : kernelHeap.align8 16 = 16 := by decide +kernel
  obtain ⟨block, first, firstStep, live, firstEnd⟩ := start.alloc_progress (by decide : 24 ≠ 0)
    (by decide) (by rw [align24]; decide)
  have afterFirst := start.step firstStep
  have member : (block, 24) ∈ first.live := by
    rw [live]
    exact List.mem_cons_self
  have freeStep := HeapStep.free member
  have afterFree := afterFirst.step freeStep
  have room : (kfree first.state (block + headerSize)).heapEnd + 16 + headerSize ≤
      (kfree first.state (block + headerSize)).heapMax := by
    have limit := afterFree.max
    dsimp only at limit
    rw [limit, kfree, heapFree_heapEnd]
    rw [align24] at firstEnd
    exact (Nat.add_le_add_right firstEnd (16 + headerSize)).trans (by decide)
  obtain ⟨_, trace, lastStep, _, _⟩ := afterFree.alloc_progress (by decide : 16 ≠ 0) (by decide)
    (by rw [align16]; exact room)
  have run := Run.cons firstStep (.cons freeStep (.single lastStep))
  exact ⟨block, trace, run, kmalloc_sound run⟩

end NTux.Mem
