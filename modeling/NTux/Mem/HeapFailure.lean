import NTux.Mem.HeapBlocks
import NTux.Mem.PageTable

/-! # How the kernel heap fails

When no free block and not enough of the initial heap is left, `expand_heap` takes
frames until the sum of `heap_end` and the request wraps around or no frame is left,
and `kmalloc` then places a block behind the pages just mapped. It never returns the
null pointer, so a request is served from memory that backs it exactly if the block
that first-fit finds, or the memory at `heap_end`, is backed already
(`kmalloc_law_iff`).
-/

namespace NTux.Mem

open NTux.Foundation Memory VmmState HeapState

/-! ## The loop of `expand_heap` -/

/-- What a turn of the loop of `expand_heap` does to the memory manager. -/
theorem mapTurn_spec {vmm : VmmState} {frame virt phys flags : Nat} (separate : vmm.Separate)
    (free : vmm.Free frame) :
    let mapped := vmmMapPage (vmm.takeFrame frame) virt phys flags
    mapped.2.Separate ∧ (∀ other, mapped.2.Free other ↔ vmm.Free other ∧ other ≠ frame) ∧
      (mapped.1 ≠ 0 → virt / pageSize < entriesPerTable) := by
  have write := vmm.takeFrame_bitWrite frame
  have taken := separate.of_samePlace (write.samePlace separate free.1)
  rcases vmmMapPage_cases (vmm.takeFrame frame) virt phys flags with refused | ⟨_, low, accepted⟩
  · rw [refused]
    exact ⟨taken, fun _ => PmmState.free_take _, fun nonzero => absurd rfl nonzero⟩
  · rw [accepted]
    refine ⟨taken.of_samePlace (setPte_samePlace taken.header_entries low), fun other => ?_,
      fun _ => low⟩
    rw [free_setPte taken low]
    exact PmmState.free_take _

/-- What `expand_heap` does in a number of turns: it moves `heap_end` by as many pages,
and stops when the sum no longer exceeds `heap_max` or when there is no frame left.
Frame zero counts as none. -/
structure Expansion (size : Nat) (s t : HeapState) (turns : Nat) : Prop where
  bounded : turns ≤ s.freeFrames.card
  heapEnd : t.heapEnd = (s.heapEnd + turns * pageSize) % 2 ^ 64
  turned : ∀ turn < turns, s.heapMax < (s.heapEnd + turn * pageSize + size) % 2 ^ 64
  stopped : (s.heapEnd + turns * pageSize + size) % 2 ^ 64 ≤ s.heapMax ∨
    turns = s.freeFrames.card ∨ s.Free 0
  zero : 0 < turns → ¬ s.Free 0
  grown : ∀ page ∈ t.grown, page ∈ s.grown ∨ (page < entriesPerTable ∧
    ∃ turn < turns, page = (s.heapEnd + turn * pageSize) % 2 ^ 64 / pageSize)
  kept : ∀ page ∈ s.grown, page ∈ t.grown

section ExpandHeap

variable {config : HeapConfig} {size turns : Nat} {s t u : HeapState}

/-- No turn. -/
theorem Expansion.none (inside : s.heapEnd < 2 ^ 64) (heapEnd : t.heapEnd = s.heapEnd)
    (grown : t.grown = s.grown)
    (stopped : (s.heapEnd + size) % 2 ^ 64 ≤ s.heapMax ∨ 0 = s.freeFrames.card ∨ s.Free 0) :
    Expansion size s t 0 where
  bounded := Nat.zero_le _
  heapEnd := by rw [heapEnd, Nat.zero_mul, Nat.add_zero, Nat.mod_eq_of_lt inside]
  turned _ earlier := absurd earlier (Nat.not_lt_zero _)
  stopped := by
    rw [Nat.zero_mul, Nat.add_zero]
    exact stopped
  zero earlier := absurd earlier (Nat.not_lt_zero _)
  grown page member := .inl (grown ▸ member)
  kept page member := grown ▸ member

/-- One more turn in front. -/
theorem Expansion.turn (inside : s.heapEnd < 2 ^ 64)
    (guard : s.heapMax < (s.heapEnd + size) % 2 ^ 64)
    (taken : u.freeFrames.card + 1 = s.freeFrames.card) (zero : ¬ s.Free 0)
    (free : u.Free 0 → s.Free 0)
    (heapEnd : u.heapEnd = (s.heapEnd + pageSize) % 2 ^ 64) (heapMax : u.heapMax = s.heapMax)
    (grown : ∀ page, page ∈ u.grown → page ∈ s.grown ∨
      (page < entriesPerTable ∧ page = s.heapEnd / pageSize))
    (kept : ∀ page ∈ s.grown, page ∈ u.grown) (rest : Expansion size u t turns) :
    Expansion size s t (turns + 1) := by
  have shift : ∀ turn, (u.heapEnd + turn * pageSize) % 2 ^ 64 =
      (s.heapEnd + (turn + 1) * pageSize) % 2 ^ 64 := by
    intro turn
    rw [heapEnd, Nat.mod_add_mod, Nat.add_mul, Nat.one_mul, Nat.add_assoc, Nat.add_comm pageSize]
  have shift' : ∀ turn, (u.heapEnd + turn * pageSize + size) % 2 ^ 64 =
      (s.heapEnd + (turn + 1) * pageSize + size) % 2 ^ 64 := by
    intro turn
    rw [Nat.add_mod, shift, ← Nat.add_mod]
  refine ⟨?_, ?_, fun turn earlier => ?_, ?_, fun _ => zero, fun page member => ?_,
    fun page member => rest.kept page (kept page member)⟩
  · rw [← taken]
    exact Nat.succ_le_succ rest.bounded
  · rw [rest.heapEnd, shift]
  · cases turn with
    | zero =>
        rw [Nat.zero_mul, Nat.add_zero]
        exact guard
    | succ turn =>
        rw [← shift', ← heapMax]
        exact rest.turned turn (Nat.lt_of_succ_lt_succ earlier)
  · rcases rest.stopped with done | exhausted | known
    · left
      rw [← shift', ← heapMax]
      exact done
    · right
      left
      rw [← taken, exhausted]
    · exact absurd (free known) zero
  · rcases rest.grown page member with old | ⟨low, turn, earlier, same⟩
    · refine (grown page old).imp_right fun ⟨low, same⟩ => ⟨low, 0, Nat.succ_pos _, ?_⟩
      rw [Nat.zero_mul, Nat.add_zero, Nat.mod_eq_of_lt inside]
      exact same
    · exact .inr ⟨low, turn + 1, Nat.succ_lt_succ earlier, by rw [same, shift]⟩

/-- What the turns of `expand_heap` cost: a frame each, unless frame zero is free, and
`heap_max` is where it was. -/
structure Cost (s t : HeapState) (turns : Nat) : Prop where
  heapMax : t.heapMax = s.heapMax
  frames : ¬ s.Free 0 → t.freeFrames.card + turns = s.freeFrames.card

/-- The loop of `expand_heap` ends: every turn takes a frame. -/
theorem expandLoop_spec {fuel : Nat} (separate : s.Separate) (inside : s.heapEnd < 2 ^ 64)
    (enough : s.freeFrames.card < fuel) :
    ∃ turns t, expandLoop config size fuel s = some t ∧ Expansion size s t turns ∧
      Cost s t turns := by
  induction fuel generalizing s with
  | zero => exact absurd enough (Nat.not_lt_zero _)
  | succ fuel ih =>
      rw [expandLoop]
      split
      · rename_i guard
        rcases allocFrame_cases separate.bounded with ⟨none, result⟩ | ⟨frame, free, least, result⟩
        · have empty : 0 = s.freeFrames.card := by
            symm
            rw [Finset.card_eq_zero, Finset.eq_empty_iff_forall_notMem]
            exact fun page member => none page (PmmState.mem_freeFrames.mp member)
          rw [result]
          exact ⟨0, _, rfl, .none inside rfl rfl (.inr (.inl empty)), rfl, fun _ => rfl⟩
        · simp only [result]
          split
          · rename_i null
            have zero : frame = 0 := by
              simp only [pageSize] at null
              omega
            rw [zero] at free
            exact ⟨0, _, rfl, .none inside rfl rfl (.inr (.inr free)), rfl,
              fun used => absurd free used⟩
          · rename_i nonnull
            obtain ⟨separate', free', low⟩ := @mapTurn_spec _ _ s.heapEnd
              (frame * pageSize) config.mapFlags separate free
            generalize vmmMapPage (s.takeFrame frame) s.heapEnd (frame * pageSize)
              config.mapFlags = mapped at separate' free' low ⊢
            obtain ⟨address, vmm⟩ := mapped
            dsimp only at separate' free' low ⊢
            have taken := PmmState.freeFrames_card_of_take free free'
            have zero : ¬ s.Free 0 := by
              intro known
              rw [Nat.le_zero.mp (least 0 known)] at nonnull
              exact nonnull (Nat.zero_mul _)
            have moved : (s.advance vmm address).heapEnd < 2 ^ 64 := Nat.mod_lt _ (Nat.two_pow_pos 64)
            have fewer : (s.advance vmm address).freeFrames.card < fuel := by
              change vmm.freeFrames.card < fuel
              omega
            obtain ⟨turns, t, run, rest, cost⟩ :=
              ih (s := s.advance vmm address) separate' moved fewer
            have known : (s.advance vmm address).Free 0 → s.Free 0 := fun known =>
              ((free' 0).mp known).1
            have paid : t.freeFrames.card + turns = vmm.freeFrames.card :=
              cost.frames fun found => zero (known found)
            refine ⟨turns + 1, t, run, .turn inside guard (u := s.advance vmm address) taken zero
              known rfl rfl (fun page member => ?_) (fun page member => ?_) rest, cost.heapMax,
              fun _ => by omega⟩
            · rw [advance] at member
              dsimp only at member
              split at member
              · rename_i accepted
                rcases List.mem_cons.mp member with rfl | old
                · exact .inr ⟨low accepted, rfl⟩
                · exact .inl old
              · exact .inl member
            · rw [advance]
              dsimp only
              split
              · exact List.mem_cons_of_mem _ member
              · exact member
      · rename_i done
        exact ⟨0, s, rfl, .none inside rfl rfl (.inl (Nat.le_of_not_lt done)), rfl, fun _ => rfl⟩

/-- `expand_heap` always returns. -/
theorem expandHeap_spec (config : HeapConfig) (size : Nat) (separate : s.Separate)
    (inside : s.heapEnd < 2 ^ 64) :
    ∃ turns t, expandHeap config s size = some t ∧ Expansion size s t turns ∧ Cost s t turns :=
  expandLoop_spec separate inside (Nat.lt_succ_of_le s.toPmmState.freeFrames_card_le)

end ExpandHeap

/-! ## The failure law -/

namespace HeapState

/-- The byte lies in the initial heap or on a page that `expand_heap` has mapped. -/
def Backed (s : HeapState) (addr : Nat) : Prop :=
  addr ∈ Memory.block kernelHeap.heapStart kernelHeap.initialSize ∨ addr / pageSize ∈ s.grown

/-- What `kmalloc` promises about the pointer and the state it returns: it has failed
and changed neither `heap_end` nor the free list, or the block is large enough and
backed as far as the request goes. -/
def FailureLaw (s : HeapState) (size ptr : Nat) (t : HeapState) : Prop :=
  (ptr = 0 ∧ t.heapEnd = s.heapEnd ∧
      ∀ nodes, Chain s.blockNext 0 s.freeList nodes ↔ Chain t.blockNext 0 t.freeList nodes) ∨
    (ptr ≠ 0 ∧ size ≤ t.blockSize (ptr - headerSize) ∧
      ∀ addr ∈ Memory.block (ptr - headerSize) (headerSize + size), t.Backed addr)

/-- A state of the kernel heap. `heap_end` may be anywhere: requests that wrap around
move it over the whole address space. -/
structure Valid (s : HeapState) (nodes : List Nat) : Prop where
  free : s.FreeBlocks nodes
  heapMax : s.heapMax = kernelHeap.heapStart + kernelHeap.initialSize
  inside : s.heapEnd < 2 ^ 64
  aligned : s.heapEnd % 8 = 0
  grown : ∀ page ∈ s.grown, page < entriesPerTable
  separate : s.Separate

/-- `heap_end` is so close to the end of the address space, and so many frames are left,
that `expand_heap` carries it around to page zero, which an earlier call has mapped. -/
structure WrapsToPageZero (s : HeapState) (size : Nat) : Prop where
  unwrapped : size + 7 < 2 ^ 64
  exceeds : s.heapMax < s.heapEnd + kernelHeap.align8 size + headerSize
  small : s.heapEnd % pageSize + kernelHeap.align8 size + headerSize < pageSize
  frames : 2 ^ 52 - s.heapEnd / pageSize ≤ s.freeFrames.card
  zero : ¬ s.Free 0
  grown : 0 ∈ s.grown

/-- The memory that serves the request is there before the call: in the block that
first-fit finds, or at `heap_end`. -/
def ServedFromBacked (s : HeapState) (size : Nat) : Prop :=
  match s.findFit (kernelHeap.align8 size) walkFuel none s.freeList with
  | some (some (_, block)) => size ≤ s.blockSize block ∧
      ∀ addr ∈ Memory.block block (headerSize + size), s.Backed addr
  | _ => (∀ addr ∈ Memory.block s.heapEnd (headerSize + size), s.Backed addr) ∨
      s.WrapsToPageZero size

end HeapState

section Law

variable {s t : HeapState} {size turns : Nat} {nodes : List Nat}

/-- Backed memory is the initial heap and pages of the first two megabytes, so a range of
it lies in one or the other. -/
theorem backed_range {start length : Nat} (grown : ∀ page ∈ s.grown, page < entriesPerTable)
    (nonempty : 0 < length) (backed : ∀ addr ∈ Memory.block start length, s.Backed addr) :
    (kernelHeap.heapStart ≤ start ∧
        start + length ≤ kernelHeap.heapStart + kernelHeap.initialSize) ∨
      start + length ≤ 2 ^ 21 := by
  have low : ∀ addr ∈ Memory.block start length,
      (kernelHeap.heapStart ≤ addr ∧ addr < kernelHeap.heapStart + kernelHeap.initialSize) ∨
        addr < 2 ^ 21 := by
    intro addr member
    refine (backed addr member).imp id fun mapped => ?_
    have := grown _ mapped
    simp only [pageSize, entriesPerTable] at this
    omega
  simp only [kernelHeap] at low ⊢
  rcases low start ⟨le_rfl, by omega⟩ with high | below
  · left
    refine ⟨high.1, ?_⟩
    by_contra beyond
    have := low (0xFFFF800001000000 + 0x100000) ⟨by omega, by omega⟩
    omega
  · right
    by_contra beyond
    have := low (2 ^ 21) ⟨by omega, by omega⟩
    omega

/-- A size that `align8` has not made smaller has not wrapped. -/
theorem unwrapped_of_le (large : size ≤ kernelHeap.align8 size) :
    size + 7 < 2 ^ 64 := by
  rw [align8_kernelHeap_eq] at large
  omega

/-- After a turn of `expand_heap` the block lies on backed memory only if the turns have
reached page zero. -/
theorem expansion_reaches_zero (valid : s.Valid nodes) (turned : 0 < turns)
    (expansion : Expansion ((kernelHeap.align8 size + headerSize) % 2 ^ 64) s t turns)
    (large : size ≤ kernelHeap.align8 size)
    (backed : ∀ addr ∈ Memory.block t.heapEnd (headerSize + size), t.Backed addr) :
    s.WrapsToPageZero size := by
  have unwrapped := unwrapped_of_le large
  have aligned := valid.aligned
  have inside := valid.inside
  have heapMax := valid.heapMax
  have heapEnd := expansion.heapEnd
  have rounded := align8_kernelHeap unwrapped
  have grown : ∀ page ∈ t.grown, page < entriesPerTable := fun page member =>
    (expansion.grown page member).elim (valid.grown page) And.left
  have range := backed_range grown (Nat.lt_of_lt_of_le (by decide) (Nat.le_add_right 16 size)) backed
  have first := expansion.turned 0 turned
  obtain ⟨before, rfl⟩ := Nat.exists_eq_succ_of_ne_zero (Nat.ne_of_gt turned)
  have last := expansion.turned before (Nat.lt_succ_self before)
  generalize named : kernelHeap.align8 size = request at *
  simp only [kernelHeap, headerSize, pageSize] at heapMax range first last heapEnd
  -- the last turn still exceeded `heap_max`, so the block ends below the next page
  have wrapped : t.heapEnd + request + 16 < 4096 := by omega
  refine ⟨unwrapped, ?_, ?_, ?_, expansion.zero turned, ?_⟩
  · rw [named]
    simp only [headerSize]
    omega
  · rw [named]
    simp only [headerSize, pageSize]
    omega
  · refine le_trans ?_ expansion.bounded
    simp only [pageSize]
    omega
  · have start : t.heapEnd / 4096 = 0 := by omega
    have mapped : t.heapEnd / 4096 ∈ t.grown := by
      refine (backed t.heapEnd ⟨le_rfl, by simp only [headerSize]; omega⟩).resolve_left
        fun member => ?_
      have := member.1
      simp only [kernelHeap] at this
      omega
    rw [start] at mapped
    refine (expansion.grown 0 mapped).resolve_right ?_
    rintro ⟨_, turn, earlier, same⟩
    have := expansion.turned turn earlier
    simp only [headerSize, pageSize] at same this
    omega

/-- Enough frames carry `heap_end` to page zero and no further. -/
theorem wraps_turns (valid : s.Valid nodes) (wraps : s.WrapsToPageZero size)
    (expansion : Expansion ((kernelHeap.align8 size + headerSize) % 2 ^ 64) s t turns) :
    t.heapEnd = s.heapEnd % pageSize := by
  obtain ⟨_, exceeds, small, frames, zero, _⟩ := wraps
  have inside := valid.inside
  have heapMax := valid.heapMax
  have bounded := expansion.bounded
  have later := expansion.turned (2 ^ 52 - s.heapEnd / pageSize)
  have stopped := expansion.stopped
  rw [expansion.heapEnd]
  generalize kernelHeap.align8 size = request at *
  simp only [kernelHeap, headerSize, pageSize] at *
  have enough : turns ≤ 2 ^ 52 - s.heapEnd / 4096 := by
    by_contra more
    have := later (Nat.lt_of_not_le more)
    omega
  have reached : turns = 2 ^ 52 - s.heapEnd / 4096 := by
    rcases stopped with done | exhausted | free
    · omega
    · exact Nat.le_antisymm enough (exhausted ▸ frames)
    · exact absurd free zero
  omega

/-- Without a turn of `expand_heap`, or with enough of them to reach page zero, the block
is placed on backed memory; otherwise it lies behind all of it. -/
theorem expansion_backed (valid : s.Valid nodes) (positive : 0 < size)
    (expansion : Expansion ((kernelHeap.align8 size + headerSize) % 2 ^ 64) s t turns) :
    (size ≤ kernelHeap.align8 size ∧
        ∀ addr ∈ Memory.block t.heapEnd (headerSize + size), t.Backed addr) ↔
      (∀ addr ∈ Memory.block s.heapEnd (headerSize + size), s.Backed addr) ∨
        s.WrapsToPageZero size := by
  constructor
  · rintro ⟨large, backed⟩
    rcases Nat.eq_zero_or_pos turns with rfl | turned
    · left
      have heapEnd := expansion.heapEnd
      rw [Nat.zero_mul, Nat.add_zero, Nat.mod_eq_of_lt valid.inside] at heapEnd
      rw [heapEnd] at backed
      refine fun addr member => (backed addr member).imp_right fun mapped => ?_
      refine (expansion.grown _ mapped).resolve_right ?_
      rintro ⟨_, turn, earlier, _⟩
      exact absurd earlier (Nat.not_lt_zero turn)
    · exact .inr (expansion_reaches_zero valid turned expansion large backed)
  · rintro (backed | wraps)
    · have range := backed_range valid.grown
        (Nat.lt_of_lt_of_le (by decide) (Nat.le_add_right headerSize size)) backed
      have first := expansion.turned 0
      have heapEnd := expansion.heapEnd
      have rounded := align8_kernelHeap_eq size
      have aligned := valid.aligned
      have inside := valid.inside
      have heapMax := valid.heapMax
      simp only [kernelHeap, headerSize, pageSize] at range first heapEnd rounded heapMax
      have none : turns = 0 := by
        by_contra some
        have := first (Nat.pos_of_ne_zero some)
        generalize HeapConfig.align8 _ size = request at *
        omega
      refine ⟨?_, ?_⟩
      · simp only [kernelHeap]
        omega
      · have same : t.heapEnd = s.heapEnd := by
          rw [heapEnd, none]
          omega
        rw [same]
        exact fun addr member => (backed addr member).imp_right (expansion.kept _)
    · have heapEnd := wraps_turns valid wraps expansion
      have rounded := align8_kernelHeap wraps.unwrapped
      have small := wraps.small
      refine ⟨by omega, fun addr member => .inr (expansion.kept _ ?_)⟩
      rw [heapEnd] at member
      have := member.2
      have first : addr / pageSize = 0 := Nat.div_eq_of_lt (by omega)
      rw [first]
      exact wraps.grown

/-- The law for a block that `kmalloc` returns. -/
theorem failureLaw_block {block : Nat} :
    FailureLaw s size (block + headerSize) t ↔ size ≤ t.blockSize block ∧
      ∀ addr ∈ Memory.block block (headerSize + size), t.Backed addr := by
  have nonnull : block + headerSize ≠ 0 := Nat.succ_ne_zero _
  rw [FailureLaw, Nat.add_sub_cancel]
  exact ⟨fun law => law.elim (fun failed => absurd failed.1 nonnull) And.right,
    fun served => .inr ⟨nonnull, served⟩⟩

theorem placeBlock_blockSize (s : HeapState) {request : Nat} (small : request < 2 ^ 64) :
    (placeBlock s request).2.blockSize s.heapEnd = request :=
  (readLE_writeLE _ _ _ _).trans (Nat.mod_eq_of_lt small)

/-- When no free block is large enough, `kmalloc` places a block behind the pages that
`expand_heap` has gone over. -/
theorem kmalloc_missed (valid : s.Valid nodes) (nonzero : size ≠ 0)
    (missed : s.findFit (kernelHeap.align8 size) walkFuel none s.freeList = some none) :
    ∃ turns t, Expansion ((kernelHeap.align8 size + headerSize) % 2 ^ 64) s t turns ∧
      kmalloc s size = some (t.heapEnd + headerSize, (placeBlock t (kernelHeap.align8 size)).2) := by
  obtain ⟨turns, t, expanded, expansion, _⟩ := expandHeap_spec kernelHeap
    ((kernelHeap.align8 size + headerSize) % 2 ^ 64) valid.separate valid.inside
  refine ⟨turns, t, expansion, ?_⟩
  rw [kmalloc, heapAlloc, if_neg nonzero]
  simp only [missed, Option.bind_some, expanded, Option.map_some]
  rfl

/-- **When `kmalloc` keeps the failure law.** It always returns, and exactly the requests
that are served from backed memory keep the law. -/
theorem kmalloc_law_iff (valid : s.Valid nodes) (positive : 0 < size) :
    ∃ ptr t, kmalloc s size = some (ptr, t) ∧
      (FailureLaw s size ptr t ↔ s.ServedFromBacked size) := by
  have nonzero := Nat.ne_of_gt positive
  rcases @findFit_spec s (kernelHeap.align8 size) _ _ _ none valid.free.chain
    valid.free.length_lt with ⟨_, missed⟩ | ⟨before, block, after, split, _, _, found⟩
  · obtain ⟨turns, t, expansion, result⟩ := kmalloc_missed valid nonzero missed
    have small : kernelHeap.align8 size < 2 ^ 64 := by
      rw [align8_kernelHeap_eq]
      omega
    refine ⟨_, _, result, ?_⟩
    rw [failureLaw_block, placeBlock_blockSize t small, ServedFromBacked, missed]
    exact expansion_backed valid positive expansion
  · have result : kmalloc s size = some (block + headerSize,
        s.setPrev (before.getLast?.or none) (s.blockNext block)) := by
      rw [kmalloc, heapAlloc, if_neg nonzero]
      simp only [found, Option.bind_some]
    have sameSize : (s.setPrev (before.getLast?.or none) (s.blockNext block)).blockSize block =
        s.blockSize block := by
      apply blockSize_setPrev
      intro prev last
      rw [Option.or_none] at last
      by_cases same : block = prev
      · exact .inl same
      · have listed : prev ∈ before := List.mem_of_getLast? last
        refine .inr (valid.free.apart block ?_ prev ?_ same)
        · rw [split]
          exact List.mem_append_right _ List.mem_cons_self
        · rw [split]
          exact List.mem_append_left _ listed
    have sameBacked : ∀ addr, (s.setPrev (before.getLast?.or none) (s.blockNext block)).Backed addr ↔
        s.Backed addr := by
      intro addr
      rw [Backed, Backed, setPrev_grown]
    refine ⟨_, _, result, ?_⟩
    rw [failureLaw_block, sameSize, ServedFromBacked, found]
    simp only [sameBacked]

end Law

/-- A machine with four frames, all of them in use, before the first request: its bitmap
is at `0x3000`, its page table at `0x1000` and the entries in frame zero. -/
def fullMachine : HeapState :=
  kmallocInit
    { mem := fun addr => if addr = 0x3000 then 0xFF else 0
      bitmap := 0x3000, bitmapSize := 1, totalPages := 4, freePages := 0, memoryStart := 0
      currentPageTable := 0x1000, kernelHeapEnd := vmmHeapStart
      heapStart := 0, heapEnd := 0, heapMax := 0, freeList := 0, grown := [] }

theorem fullMachine_valid : fullMachine.Valid [] where
  free := ⟨rfl, List.nodup_nil, Nat.two_pow_pos 64, fun _ member => absurd member List.not_mem_nil⟩
  heapMax := rfl
  inside := by decide +kernel
  aligned := by decide +kernel
  grown _ member := absurd member List.not_mem_nil
  separate := by
    have entries : fullMachine.entries = 0 := by decide +kernel
    refine ⟨by decide, by decide, block_disjoint (by decide), ?_, ?_⟩
    · rw [entriesBlock, entries]
      exact block_disjoint (by decide)
    · rw [entriesBlock, entries]
      exact block_disjoint (by decide)

theorem fullMachine_missed (size : Nat) :
    fullMachine.findFit size walkFuel none fullMachine.freeList = some none :=
  if_pos rfl

/-- A small first request is served from the initial heap. -/
theorem kmalloc_law_fullMachine :
    ∃ ptr t, kmalloc fullMachine 24 = some (ptr, t) ∧ FailureLaw fullMachine 24 ptr t := by
  obtain ⟨ptr, t, result, law⟩ := kmalloc_law_iff fullMachine_valid (by decide : 0 < 24)
  refine ⟨ptr, t, result, law.mpr ?_⟩
  rw [ServedFromBacked, fullMachine_missed]
  exact .inl fun addr member => .inl ⟨member.1, member.2.trans (by decide)⟩

/-- A request as large as the initial heap is served from memory behind it. -/
theorem kmalloc_unlawful_fullMachine :
    ¬ ∀ (s : HeapState) (nodes : List Nat) (size ptr : Nat) (t : HeapState), s.Valid nodes →
      0 < size → size < 2 ^ 64 → kmalloc s size = some (ptr, t) → FailureLaw s size ptr t := by
  intro claim
  obtain ⟨turns, t, expansion, result⟩ := kmalloc_missed fullMachine_valid
    (by decide : 0x100000 ≠ 0) (fullMachine_missed _)
  have law := claim _ _ _ _ _ fullMachine_valid (by decide) (by decide) result
  have used : ∀ page < 4, fullMachine.testBit page = true := by decide +kernel
  have noFrame : fullMachine.freeFrames.card = 0 := by
    rw [Finset.card_eq_zero, Finset.eq_empty_iff_forall_notMem]
    intro page member
    obtain ⟨low, clear⟩ := PmmState.mem_freeFrames.mp member
    rw [used page low] at clear
    cases clear
  have none : turns = 0 := Nat.le_zero.mp (noFrame ▸ expansion.bounded)
  have heapEnd : t.heapEnd = 0xFFFF800001000000 := by
    rw [expansion.heapEnd, none]
    decide +kernel
  have grown : ∀ page ∈ t.grown, page < entriesPerTable := fun page member =>
    (expansion.grown page member).elim (fun old => absurd old List.not_mem_nil) And.left
  have backed := backed_range grown (by decide) (failureLaw_block.mp law).2
  rw [heapEnd] at backed
  exact absurd backed (by decide)

end NTux.Mem
