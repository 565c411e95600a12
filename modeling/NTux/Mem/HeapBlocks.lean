import NTux.Mem.Kmalloc
import Mathlib.Data.List.Perm.Subperm

/-! # The free list of a heap

What the functions of `kmalloc.c` do to the free list, as a list of blocks: the
search finds the first block that is large enough (`findFit_spec`), unlinking takes
that block out (`FreeBlocks.unlink`) and freeing puts one in front
(`FreeBlocks.push`).
-/

namespace NTux.Mem

open NTux.Foundation Memory

namespace HeapState

variable {s t : HeapState} {block other size next : Nat} {nodes before after : List Nat}

theorem blockNext_lt (s : HeapState) (block : Nat) : s.blockNext block < 2 ^ 64 :=
  s.mem.readLE_lt _ _

@[simp] theorem blockNext_setBlockNext (small : next < 2 ^ 64) :
    (s.setBlockNext block next).blockNext block = next :=
  (readLE_writeLE _ _ _ _).trans (Nat.mod_eq_of_lt small)

theorem blockNext_setBlockNext_of_apart
    (apart : other + headerSize ≤ block ∨ block + headerSize ≤ other) :
    (s.setBlockNext block next).blockNext other = s.blockNext other := by
  simp only [headerSize] at apart
  exact readLE_writeLE_of_apart _ _ (by omega)

theorem blockNext_setHead : ({ s with freeList := next } : HeapState).blockNext = s.blockNext := rfl

/-- The size of a block, this one or one apart from it, is not in the field written. -/
theorem blockSize_setBlockNext
    (apart : other = block ∨ other + headerSize ≤ block ∨ block + headerSize ≤ other) :
    (s.setBlockNext block next).blockSize other = s.blockSize other := by
  simp only [headerSize] at apart
  exact readLE_writeLE_of_apart _ _ (by omega)

theorem blockSize_setPrev {prev : Option Nat}
    (apart : ∀ block, prev = some block →
      other = block ∨ other + headerSize ≤ block ∨ block + headerSize ≤ other) :
    (s.setPrev prev next).blockSize other = s.blockSize other := by
  cases prev with
  | none => rfl
  | some block => exact blockSize_setBlockNext (apart block rfl)

@[simp] theorem setPrev_heapEnd {prev : Option Nat} :
    (s.setPrev prev next).heapEnd = s.heapEnd := by
  cases prev <;> rfl

@[simp] theorem setPrev_heapStart {prev : Option Nat} :
    (s.setPrev prev next).heapStart = s.heapStart := by
  cases prev <;> rfl

@[simp] theorem setPrev_heapMax {prev : Option Nat} :
    (s.setPrev prev next).heapMax = s.heapMax := by
  cases prev <;> rfl

@[simp] theorem setPrev_grown {prev : Option Nat} : (s.setPrev prev next).grown = s.grown := by
  cases prev <;> rfl

/-- What `kfree` does with a block. -/
def pushFree (s : HeapState) (block : Nat) : HeapState :=
  { s.setBlockNext block s.freeList with freeList := block }

theorem heapFree_eq (s : HeapState) (block : Nat) :
    heapFree s (block + headerSize) = s.pushFree block := by
  have nonnull : block + headerSize ≠ 0 := Nat.succ_ne_zero _
  rw [heapFree, if_neg nonnull, Nat.add_sub_cancel, pushFree]

/-- The free list is a list of blocks whose headers lie apart from each other. -/
structure FreeBlocks (s : HeapState) (nodes : List Nat) : Prop where
  chain : Chain s.blockNext 0 s.freeList nodes
  nodup : nodes.Nodup
  head : s.freeList < 2 ^ 64
  apart : ∀ first ∈ nodes, ∀ second ∈ nodes, first ≠ second →
    first + headerSize ≤ second ∨ second + headerSize ≤ first

namespace FreeBlocks

/-- There are no more free blocks than addresses. -/
theorem length_lt (free : s.FreeBlocks nodes) : nodes.length < walkFuel := by
  have small : ∀ node ∈ nodes, node < 2 ^ 64 :=
    free.chain.of_next free.head fun block => s.blockNext_lt block
  have inside : nodes ⊆ List.range (2 ^ 64) := fun node member => List.mem_range.mpr (small node member)
  have := (List.subperm_of_subset free.nodup inside).length_le
  rw [List.length_range] at this
  exact Nat.lt_succ_of_le this

/-- A part of the list is apart and free of repetitions as well. -/
theorem sublist {part : List Nat} (free : s.FreeBlocks nodes) (sub : part.Sublist nodes)
    (chain : Chain t.blockNext 0 t.freeList part) (head : t.freeList < 2 ^ 64) :
    t.FreeBlocks part where
  chain := chain
  nodup := free.nodup.sublist sub
  head := head
  apart first member second member' :=
    free.apart first (sub.subset member) second (sub.subset member')

/-- Unlinking a block takes it out of the list. -/
theorem unlink (free : s.FreeBlocks (before ++ block :: after)) :
    (s.setPrev (before.getLast?.or none) (s.blockNext block)).FreeBlocks (before ++ after) := by
  have sub : (before ++ after).Sublist (before ++ block :: after) :=
    (List.sublist_cons_self block after).append_left before
  rcases List.eq_nil_or_concat before with rfl | ⟨front, prev, rfl⟩
  · simp only [List.nil_append, List.getLast?_nil, Option.none_or, setPrev] at free sub ⊢
    refine free.sublist sub ?_ (s.blockNext_lt block)
    rw [blockNext_setHead]
    exact free.chain.tail
  · have last : ((front.concat prev).getLast?.or none) = some prev := by
      rw [List.concat_eq_append, List.getLast?_concat, Option.some_or]
    rw [last]
    simp only [List.concat_eq_append, List.append_assoc, List.singleton_append, setPrev] at free sub ⊢
    refine free.sublist sub (free.chain.unlink ?_ fun old member => ?_) free.head
    · exact blockNext_setBlockNext (s.blockNext_lt block)
    · apply blockNext_setBlockNext_of_apart
      have distinct := free.nodup
      rw [List.nodup_middle] at distinct
      have different : old ≠ prev := by
        rintro rfl
        refine (List.nodup_cons.mp distinct).1 ?_
        exact (((List.sublist_cons_self block after).append_left front)).subset member
      have inside : old ∈ front ++ prev :: block :: after := by
        rcases List.mem_append.mp member with early | late
        · exact List.mem_append_left _ early
        · exact List.mem_append_right _ (List.mem_cons_of_mem _ (List.mem_cons_of_mem _ late))
      exact free.apart old inside prev
        (List.mem_append_right _ List.mem_cons_self) different

/-- Freeing a block puts it in front of the list. -/
theorem push (free : s.FreeBlocks nodes) (nonnull : block ≠ 0) (small : block < 2 ^ 64)
    (apart : ∀ node ∈ nodes, node + headerSize ≤ block ∨ block + headerSize ≤ node) :
    (s.pushFree block).FreeBlocks (block :: nodes) where
  chain := free.chain.push nonnull (blockNext_setBlockNext free.head)
    fun old member => blockNext_setBlockNext_of_apart (apart old member)
  nodup := by
    refine List.nodup_cons.mpr ⟨fun member => ?_, free.nodup⟩
    have := apart block member
    simp only [headerSize] at this
    omega
  head := small
  apart first member second member' different := by
    rcases List.mem_cons.mp member with rfl | old
    · rcases List.mem_cons.mp member' with rfl | old'
      · exact absurd rfl different
      · exact (apart second old').symm
    · rcases List.mem_cons.mp member' with rfl | old'
      · exact apart first old
      · exact free.apart first old second old' different

end FreeBlocks

/-- The search stops at the first block of the list that is large enough. -/
theorem findFit_spec {fuel curr : Nat} {prev : Option Nat}
    (chain : Chain s.blockNext 0 curr nodes) (enough : nodes.length < fuel) :
    ((∀ node ∈ nodes, s.blockSize node < size) ∧ s.findFit size fuel prev curr = some none) ∨
      ∃ before block after, nodes = before ++ block :: after ∧
        (∀ node ∈ before, s.blockSize node < size) ∧ size ≤ s.blockSize block ∧
        s.findFit size fuel prev curr = some (some (before.getLast?.or prev, block)) := by
  induction nodes generalizing fuel curr prev with
  | nil =>
      obtain ⟨fuel, rfl⟩ := Nat.exists_eq_succ_of_ne_zero (Nat.ne_of_gt (Nat.zero_lt_of_lt enough))
      exact .inl ⟨fun _ member => absurd member List.not_mem_nil, if_pos chain⟩
  | cons first rest ih =>
      obtain ⟨rfl, nonnull, tail⟩ := chain
      obtain ⟨fuel, rfl⟩ := Nat.exists_eq_succ_of_ne_zero (Nat.ne_of_gt (Nat.zero_lt_of_lt enough))
      rw [findFit, if_neg nonnull]
      by_cases fits : size ≤ s.blockSize curr
      · rw [if_pos fits]
        exact .inr ⟨[], curr, rest, rfl, fun _ member => absurd member List.not_mem_nil, fits, rfl⟩
      · rw [if_neg fits]
        have small := Nat.lt_of_not_le fits
        have fewer : rest.length < fuel := Nat.lt_of_succ_lt_succ enough
        rcases @ih _ _ (some curr) tail fewer with
          ⟨none, result⟩ | ⟨before, block, after, split, skipped, found, result⟩
        · exact .inl ⟨fun node member => (List.mem_cons.mp member).elim (fun same => same ▸ small)
            (none node), result⟩
        · refine .inr ⟨curr :: before, block, after, by rw [split]; rfl, ?_, found, ?_⟩
          · exact fun node member => (List.mem_cons.mp member).elim (fun same => same ▸ small)
              (skipped node)
          · rw [result, List.getLast?_cons]
            cases before.getLast? <;> rfl

end HeapState

open HeapState

theorem kmalloc_zero (s : HeapState) : kmalloc s 0 = some (0, s) := by
  rw [kmalloc, heapAlloc, if_pos rfl]

/-- Everything a call of `kmalloc` can do: unlink the first block that is large enough
or, when there is none, place a new block at the end of the expanded heap. -/
theorem heapAlloc_cases (config : HeapConfig) {s : HeapState} {nodes : List Nat} {size : Nat}
    (free : s.FreeBlocks nodes) (nonzero : size ≠ 0) :
    (∃ before block after, nodes = before ++ block :: after ∧
        (∀ node ∈ before, s.blockSize node < config.align8 size) ∧
        config.align8 size ≤ s.blockSize block ∧
        heapAlloc config s size = some (block + headerSize,
          s.setPrev (before.getLast?.or none) (s.blockNext block))) ∨
      ((∀ node ∈ nodes, s.blockSize node < config.align8 size) ∧
        s.findFit (config.align8 size) walkFuel none s.freeList = some none ∧
        heapAlloc config s size =
          (expandHeap config s ((config.align8 size + headerSize) % 2 ^ 64)).map
            fun s => placeBlock s (config.align8 size)) := by
  rcases @findFit_spec s (config.align8 size) _ _ _ none free.chain free.length_lt with
    ⟨none, result⟩ | ⟨before, block, after, split, skipped, fits, result⟩
  · right
    refine ⟨none, result, ?_⟩
    rw [heapAlloc, if_neg nonzero]
    simp only [result, Option.bind_some]
  · left
    refine ⟨before, block, after, split, skipped, fits, ?_⟩
    rw [heapAlloc, if_neg nonzero]
    simp only [result, Option.bind_some]

/-- A heap that holds the request is not expanded. -/
theorem expandHeap_of_room (config : HeapConfig) {s : HeapState} {size : Nat}
    (room : (s.heapEnd + size) % 2 ^ 64 ≤ s.heapMax) : expandHeap config s size = some s :=
  if_neg (Nat.not_lt_of_le room)

/-- `align8` of `kmalloc.c` clears the last three bits. -/
theorem align8_kernelHeap_eq (size : Nat) :
    kernelHeap.align8 size = (size + 7) % 2 ^ 64 / 8 * 8 := by
  have mask : kernelHeap.alignMask = 2 ^ 64 - 2 ^ 3 := rfl
  rw [HeapConfig.align8, mask, land_highMask (Nat.mod_lt _ (by decide)) (by decide)]
  simp only [Nat.reducePow]

/-- It rounds up to a multiple of eight, unless the sum wraps. -/
theorem align8_kernelHeap {size : Nat} (unwrapped : size + 7 < 2 ^ 64) :
    kernelHeap.align8 size = (size + 7) / 8 * 8 := by
  rw [align8_kernelHeap_eq, Nat.mod_eq_of_lt unwrapped]

/-- The sum wraps for the seven largest sizes, and they all become zero. -/
theorem align8_kernelHeap_wrapped {size : Nat} (wrapped : 2 ^ 64 ≤ size + 7)
    (small : size < 2 ^ 64) : kernelHeap.align8 size = 0 := by
  rw [align8_kernelHeap_eq]
  omega

end NTux.Mem
