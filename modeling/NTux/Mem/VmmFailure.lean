import Mathlib.Data.Nat.ModEq
import NTux.Mem.VmmAllocation

/-! # What failed allocations and stacks leave behind

A call of `vmm_alloc_page`, `vmm_alloc_user_pages` or `vmm_alloc_stack` that fails after it
has taken a frame gives the frames back but leaves `kernel_heap_end` where it has come to,
and frame zero, whose address reads as a failure, stays taken. So a call changes nothing
when it fails exactly if it is refused before the first frame, or succeeds
(`alloc_atomic_iff`). `vmm_alloc_stack` clears the entry of the guard page, the only record
of its frame, so releasing a stack never gives that frame back (`vmmAllocStack_leaks`).
-/

namespace NTux.Mem

open NTux.Foundation Memory VmmState

/-! ## What a call needs -/

namespace VmmState

/-- The page table, the frames that are free, their number and the end of the virtual heap
are the same. -/
structure Unchanged (s t : VmmState) : Prop where
  table : t.currentPageTable = s.currentPageTable
  entries : t.entries = s.entries
  pte : ∀ page < entriesPerTable, t.pte page = s.pte page
  free : ∀ page, t.Free page ↔ s.Free page
  freePages : t.freePages = s.freePages
  heapEnd : t.kernelHeapEnd = s.kernelHeapEnd

theorem Unchanged.refl (s : VmmState) : s.Unchanged s :=
  ⟨rfl, rfl, fun _ _ => rfl, fun _ => Iff.rfl, rfl, rfl⟩

/-- A call for a number of pages does not come to take a frame. -/
def Refuses (s : VmmState) (count : Nat) : Prop :=
  count = 0 ∨ s.currentPageTable = 0 ∨ ∀ page, ¬ s.Free page

/-- The frames and the entries of the page table suffice for a number of pages, and frame
zero is not among the free ones. -/
structure Serves (s : VmmState) (count : Nat) : Prop where
  table : s.currentPageTable ≠ 0
  positive : 0 < count
  nonnull : s.kernelHeapEnd ≠ 0
  inside : s.kernelHeapEnd / pageSize + count ≤ entriesPerTable
  zero : ¬ s.Free 0
  enough : count ≤ s.freeFrames.card

end VmmState

/-- The calls that allocate virtual pages. -/
inductive AllocCall where
  | page
  | userPages (count : Nat)
  | stack (pages : Nat)

namespace AllocCall

def perform (s : VmmState) : AllocCall → Nat × VmmState
  | page => vmmAllocPage s
  | userPages count => vmmAllocUserPages s count
  | stack pages => vmmAllocStack s pages

/-- How many pages the call takes: a stack has one page more, its guard page. -/
def count : AllocCall → Nat
  | page => 1
  | userPages count => count
  | stack pages => if pages = 0 then 0 else (pages + 1) % 2 ^ 64

end AllocCall

/-- If the call returns the null pointer, it has changed nothing. -/
def Atomic (s : VmmState) (call : AllocCall) : Prop :=
  (call.perform s).1 = 0 → s.Unchanged (call.perform s).2

variable {s t : VmmState} {count pages : Nat}

/-! ## The end of the virtual heap -/

@[simp] theorem allocFrame_kernelHeapEnd (s : VmmState) :
    s.allocFrame.2.kernelHeapEnd = s.kernelHeapEnd := rfl

@[simp] theorem freeFrame_kernelHeapEnd (s : VmmState) (addr : Nat) :
    (s.freeFrame addr).kernelHeapEnd = s.kernelHeapEnd := rfl

@[simp] theorem bumpHeap_kernelHeapEnd (s : VmmState) :
    s.bumpHeap.kernelHeapEnd = (s.kernelHeapEnd + pageSize) % 2 ^ 64 := rfl

theorem vmmFreePage_kernelHeapEnd (s : VmmState) (addr : Nat) :
    (vmmFreePage s addr).kernelHeapEnd = s.kernelHeapEnd := by
  rcases vmmFreePage_cases s addr with same | ⟨_, _, _, freed⟩
  · rw [same]
  · rw [freed]
    rfl

theorem freePagesFrom_kernelHeapEnd (base i remaining : Nat) (s : VmmState) :
    (freePagesFrom base i remaining s).kernelHeapEnd = s.kernelHeapEnd := by
  induction remaining generalizing i s with
  | zero => rfl
  | succ remaining ih => rw [freePagesFrom, ih, vmmFreePage_kernelHeapEnd]

theorem vmmMapPage_kernelHeapEnd (s : VmmState) (virt phys flags : Nat) :
    (vmmMapPage s virt phys flags).2.kernelHeapEnd = s.kernelHeapEnd := by
  rcases vmmMapPage_cases s virt phys flags with refused | ⟨_, _, accepted⟩
  · rw [refused]
  · rw [accepted]
    rfl

/-- Taking pages back does not move the heap back. -/
theorem rollback_kernelHeapEnd (firstVirt i : Nat) (s : VmmState) :
    (if firstVirt ≠ 0 then freePagesFrom firstVirt 0 i s else s).kernelHeapEnd =
      s.kernelHeapEnd := by
  split
  · exact freePagesFrom_kernelHeapEnd _ _ _ s
  · rfl

/-- The loop of `vmm_alloc_user_pages` moves the heap by a page each turn, and goes on only
while the pages have entries. -/
theorem allocUserFrom_moves (firstVirt i remaining : Nat) (s : VmmState) :
    ∃ moved, (allocUserFrom firstVirt i remaining s).2.kernelHeapEnd ≡
        s.kernelHeapEnd + moved * pageSize [MOD 2 ^ 64] ∧
      (∀ turn, turn + 1 < moved →
        (s.kernelHeapEnd + turn * pageSize) % 2 ^ 64 / pageSize < entriesPerTable) ∧
      (0 < remaining → s.allocFrame.1 ≠ 0 → 0 < moved) := by
  induction remaining generalizing firstVirt i s with
  | zero => exact ⟨0, .rfl, fun _ before => absurd before (Nat.not_lt_zero _), fun none => by omega⟩
  | succ remaining ih =>
      rw [allocUserFrom]
      dsimp only
      split
      · next null =>
        refine ⟨0, ?_, fun _ before => absurd before (Nat.not_lt_zero _), fun _ taken =>
          absurd null taken⟩
        rw [rollback_kernelHeapEnd, Nat.zero_mul, Nat.add_zero]
        exact .rfl
      · have heapEnd : (s.allocFrame.2.myMemset s.allocFrame.1 0 pageSize).kernelHeapEnd =
            s.kernelHeapEnd := rfl
        have bumped : (s.kernelHeapEnd + pageSize) % 2 ^ 64 ≡
            s.kernelHeapEnd + pageSize [MOD 2 ^ 64] := Nat.mod_modEq _ _
        rw [heapEnd]
        rcases vmmMapPage_cases (s.allocFrame.2.myMemset s.allocFrame.1 0 pageSize).bumpHeap
            s.kernelHeapEnd s.allocFrame.1 0x7 with refused | ⟨heap, low, accepted⟩
        · rw [refused, if_pos rfl]
          refine ⟨1, ?_, fun turn before => by omega, fun _ _ => Nat.one_pos⟩
          rw [rollback_kernelHeapEnd, Nat.one_mul]
          exact bumped
        · rw [accepted, if_neg heap]
          obtain ⟨moved, rest, low', _⟩ := ih (if firstVirt = 0 then s.kernelHeapEnd else firstVirt)
            (i + 1) (VmmState.setPte (s.allocFrame.2.myMemset s.allocFrame.1 0 pageSize).bumpHeap
              (s.kernelHeapEnd / pageSize) s.allocFrame.1 0x7)
          refine ⟨moved + 1, rest.trans ?_, fun turn before => ?_, fun _ _ => Nat.succ_pos _⟩
          · have shifted := bumped.add_right (moved * pageSize)
            rwa [Nat.add_assoc, Nat.add_comm pageSize, ← Nat.succ_mul] at shifted
          · cases turn with
            | zero =>
                rw [Nat.zero_mul, Nat.add_zero]
                exact (Nat.div_le_div_right (Nat.mod_le _ _)).trans_lt low
            | succ turn =>
                have shifted := bumped.add_right (turn * pageSize)
                rw [Nat.add_assoc, Nat.add_comm pageSize, ← Nat.succ_mul] at shifted
                rw [← shifted]
                exact low' turn (by omega)

/-- So few turns do not carry the heap around the address space. -/
theorem not_around {start moved : Nat} (positive : 0 < moved)
    (low : ∀ turn, turn + 1 < moved → (start + turn * pageSize) % 2 ^ 64 / pageSize < entriesPerTable) :
    ¬ start + moved * pageSize ≡ start [MOD 2 ^ 64] := by
  have first := low 0
  have last := low entriesPerTable
  simp only [Nat.ModEq, pageSize, entriesPerTable] at *
  omega

/-- Once it has taken a frame, `vmm_alloc_user_pages` has moved the heap. -/
theorem allocUserFrom_moved {firstVirt i remaining : Nat} (positive : 0 < remaining)
    (taken : s.allocFrame.1 ≠ 0) :
    (allocUserFrom firstVirt i remaining s).2.kernelHeapEnd ≠ s.kernelHeapEnd := by
  obtain ⟨moved, reached, low, some⟩ := allocUserFrom_moves firstVirt i remaining s
  intro same
  rw [same] at reached
  exact not_around (some positive taken) low reached.symm

/-! ## When pages are returned -/

/-- Each page returned has taken a frame. -/
theorem allocUserFrom_enough {firstVirt i remaining : Nat} (apart : s.Apart)
    (table : s.currentPageTable ≠ 0) (zero : ¬ s.Free 0)
    (nonnull : (allocUserFrom firstVirt i remaining s).1 ≠ 0) :
    remaining ≤ s.freeFrames.card := by
  induction remaining generalizing firstVirt i s with
  | zero => exact Nat.zero_le _
  | succ remaining ih =>
      obtain ⟨heap, inside, _⟩ := allocUserFrom_result nonnull
      rcases allocFrame_cases apart.bounded with ⟨_, result⟩ | ⟨frame, free, _, result⟩
      · rw [allocUserFrom, result] at nonnull
        exact absurd rfl nonnull
      · have nonzero : frame ≠ 0 := by
          rintro rfl
          exact zero free
        obtain ⟨u, mapped, uApart, turn⟩ := turn_spec apart free nonzero
          (by decide : 0x7 < pageSize) table heap (by omega)
        rw [allocUserFrom] at nonnull
        simp only [result, myMemset_takeFrame_kernelHeapEnd] at nonnull
        rw [if_neg (Nat.mul_ne_zero nonzero (by decide)), ← freshFrame, mapped] at nonnull
        simp only [if_neg heap] at nonnull
        have rest := ih uApart (by rw [turn.place.header]; exact table)
          (fun known => zero ((turn.free 0).mp known).1) nonnull
        have card := PmmState.freeFrames_card_of_take free turn.free
        omega

/-- `vmm_alloc_user_pages` returns pages exactly when there is all it needs. -/
theorem vmmAllocUserPages_nonnull_iff (apart : s.Apart) :
    (vmmAllocUserPages s count).1 ≠ 0 ↔ s.Serves count := by
  constructor
  · intro nonnull
    obtain ⟨_, heap, inside⟩ := vmmAllocUserPages_result nonnull
    have zero : ¬ s.Free 0 := fun free =>
      nonnull (vmmAllocUserPages_zero apart.bounded free count)
    rw [vmmAllocUserPages] at nonnull
    split at nonnull
    · exact absurd rfl nonnull
    · next given =>
      obtain ⟨some, table⟩ := not_or.mp given
      exact ⟨table, Nat.pos_of_ne_zero some, heap, inside, zero,
        allocUserFrom_enough apart table zero nonnull⟩
  · rintro ⟨table, positive, heap, inside, zero, enough⟩
    obtain ⟨frames, u, _, result, _⟩ :=
      vmmAllocUserPages_serves apart table positive enough zero heap inside
    rw [result]
    exact heap

/-- `vmm_alloc_page` returns a page exactly when there is all it needs. -/
theorem vmmAllocPage_nonnull_iff (apart : s.Apart) : (vmmAllocPage s).1 ≠ 0 ↔ s.Serves 1 := by
  constructor
  · intro nonnull
    obtain ⟨_, heap, inside⟩ := vmmAllocPage_result nonnull
    have zero : ¬ s.Free 0 := fun free => nonnull (vmmAllocPage_zero apart.bounded free)
    rw [vmmAllocPage] at nonnull
    split at nonnull
    · exact absurd rfl nonnull
    · next table =>
      refine ⟨table, Nat.one_pos, heap, inside, zero, ?_⟩
      rcases allocFrame_cases apart.bounded with ⟨_, result⟩ | ⟨frame, free, _, _⟩
      · rw [result] at nonnull
        exact absurd rfl nonnull
      · exact Finset.card_pos.mpr ⟨frame, PmmState.mem_freeFrames.mpr free⟩
  · rintro ⟨table, positive, heap, inside, zero, enough⟩
    obtain ⟨frame, u, result, _⟩ := vmmAllocPage_serves apart table enough zero heap inside
    rw [result]
    exact heap

/-! ## What a failure leaves behind -/

/-- A call that is refused before the first frame changes nothing. -/
theorem vmmAllocUserPages_refuses (bounded : s.totalPages ≤ 2 ^ 52) (refuses : s.Refuses count) :
    vmmAllocUserPages s count = (0, s) := by
  rw [vmmAllocUserPages]
  split
  · rfl
  · next given =>
    obtain ⟨some, table⟩ := not_or.mp given
    have none := (refuses.resolve_left some).resolve_left table
    obtain ⟨remaining, rfl⟩ := Nat.exists_eq_succ_of_ne_zero some
    rcases allocFrame_cases bounded with ⟨_, result⟩ | ⟨frame, free, _⟩
    · rw [allocUserFrom, result]
      rfl
    · exact absurd free (none frame)

theorem vmmAllocPage_refuses (bounded : s.totalPages ≤ 2 ^ 52) (refuses : s.Refuses 1) :
    vmmAllocPage s = (0, s) := by
  rw [vmmAllocPage]
  split
  · rfl
  · next table =>
    have none := (refuses.resolve_left Nat.one_ne_zero).resolve_left table
    rcases allocFrame_cases bounded with ⟨_, result⟩ | ⟨frame, free, _⟩
    · rw [result]
      rfl
    · exact absurd free (none frame)

/-- A frame is there to be taken; if it is frame zero, it is taken and the call fails. -/
theorem allocFrame_of_accepts (bounded : s.totalPages ≤ 2 ^ 52) (accepts : ¬ s.Refuses count) :
    s.allocFrame.1 ≠ 0 ∨ (s.Free 0 ∧ s.allocFrame = (0, s.takeFrame 0)) := by
  rcases allocFrame_cases bounded with ⟨none, _⟩ | ⟨frame, free, _, result⟩
  · exact absurd (.inr (.inr none)) accepts
  · rw [result]
    rcases Nat.eq_zero_or_pos frame with rfl | positive
    · right
      refine ⟨free, ?_⟩
      rw [Nat.zero_mul]
    · exact .inl (Nat.mul_ne_zero (Nat.ne_of_gt positive) (by decide))

/-- Frame zero is not free any more after it has been taken. -/
theorem takeFrame_zero_changed (free : s.Free 0) : ¬ s.Unchanged (s.takeFrame 0) := by
  intro unchanged
  have known : (s.takeFrame 0).Free 0 := (unchanged.free 0).mpr free
  exact (PmmState.free_take _).mp known |>.2 rfl

theorem vmmAllocUserPages_changes (bounded : s.totalPages ≤ 2 ^ 52)
    (accepts : ¬ s.Refuses count) : ¬ s.Unchanged (vmmAllocUserPages s count).2 := by
  have given : ¬ (count = 0 ∨ s.currentPageTable = 0) := fun either =>
    accepts (either.imp_right .inl)
  obtain ⟨remaining, rfl⟩ := Nat.exists_eq_succ_of_ne_zero fun none => given (.inl none)
  rw [vmmAllocUserPages, if_neg given]
  rcases allocFrame_of_accepts bounded accepts with taken | ⟨free, result⟩
  · intro unchanged
    exact allocUserFrom_moved (Nat.succ_pos _) taken unchanged.heapEnd
  · rw [allocUserFrom, result]
    exact takeFrame_zero_changed free

theorem vmmAllocPage_changes (bounded : s.totalPages ≤ 2 ^ 52)
    (accepts : ¬ s.Refuses 1) : ¬ s.Unchanged (vmmAllocPage s).2 := by
  have table : s.currentPageTable ≠ 0 := fun null => accepts (.inr (.inl null))
  rw [vmmAllocPage, if_neg table]
  rcases allocFrame_of_accepts bounded accepts with taken | ⟨free, result⟩
  · intro unchanged
    have moved : (s.kernelHeapEnd + pageSize) % 2 ^ 64 = s.kernelHeapEnd := by
      refine Eq.trans ?_ unchanged.heapEnd
      dsimp only
      rw [if_neg taken]
      split <;> simp only [freeFrame_kernelHeapEnd, vmmMapPage_kernelHeapEnd,
        bumpHeap_kernelHeapEnd, myMemset_kernelHeapEnd, allocFrame_kernelHeapEnd]
    simp only [pageSize] at moved
    omega
  · rw [result]
    exact takeFrame_zero_changed free

/-! ## The three calls -/

/-- A stack is returned exactly when its pages are. -/
theorem vmmAllocStack_null {total : Nat} (some : pages ≠ 0) (table : s.currentPageTable ≠ 0)
    (named : (pages + 1) % 2 ^ 64 = total) :
    (vmmAllocStack s pages).1 = 0 ↔ (vmmAllocUserPages s total).1 = 0 := by
  rw [vmmAllocStack, if_neg (not_or.mpr ⟨some, table⟩), named]
  dsimp only
  split
  · next null => exact iff_of_true rfl null
  · next base =>
    refine iff_of_false ?_ base
    obtain ⟨same, heap, inside⟩ := vmmAllocUserPages_result base
    rw [same]
    simp only [pageSize, entriesPerTable] at inside ⊢
    omega

theorem vmmAllocStack_state {total : Nat} (some : pages ≠ 0) (table : s.currentPageTable ≠ 0)
    (named : (pages + 1) % 2 ^ 64 = total) (null : (vmmAllocUserPages s total).1 = 0) :
    (vmmAllocStack s pages).2 = (vmmAllocUserPages s total).2 := by
  rw [vmmAllocStack, if_neg (not_or.mpr ⟨some, table⟩), named]
  dsimp only
  rw [if_pos null]

theorem vmmAllocUserPages_atomic_iff (apart : s.Apart) :
    Atomic s (.userPages count) ↔ s.Refuses count ∨ s.Serves count := by
  by_cases refuses : s.Refuses count
  · refine iff_of_true (fun _ => ?_) (.inl refuses)
    rw [AllocCall.perform, vmmAllocUserPages_refuses apart.bounded refuses]
    exact .refl s
  · rw [or_iff_right refuses, ← vmmAllocUserPages_nonnull_iff apart]
    exact imp_iff_not (vmmAllocUserPages_changes apart.bounded refuses)

theorem vmmAllocPage_atomic_iff (apart : s.Apart) :
    Atomic s .page ↔ s.Refuses 1 ∨ s.Serves 1 := by
  by_cases refuses : s.Refuses 1
  · refine iff_of_true (fun _ => ?_) (.inl refuses)
    rw [AllocCall.perform, vmmAllocPage_refuses apart.bounded refuses]
    exact .refl s
  · rw [or_iff_right refuses, ← vmmAllocPage_nonnull_iff apart]
    exact imp_iff_not (vmmAllocPage_changes apart.bounded refuses)

/-- **When a failed allocation changes nothing.** Exactly when the call is refused before it
takes a frame, or finds all it needs and so does not fail. -/
theorem alloc_atomic_iff (call : AllocCall) (apart : s.Apart) :
    Atomic s call ↔ s.Refuses call.count ∨ s.Serves call.count := by
  cases call with
  | page => exact vmmAllocPage_atomic_iff apart
  | userPages count => exact vmmAllocUserPages_atomic_iff apart
  | stack pages =>
      by_cases given : pages = 0 ∨ s.currentPageTable = 0
      · refine iff_of_true (fun _ => ?_) (.inl ?_)
        · rw [AllocCall.perform, vmmAllocStack, if_pos given]
          exact .refl s
        · rw [AllocCall.count]
          exact given.elim (fun none => .inl (if_pos none)) fun null => .inr (.inl null)
      · obtain ⟨some, table⟩ := not_or.mp given
        rw [AllocCall.count, if_neg some, ← vmmAllocUserPages_atomic_iff apart]
        have null := vmmAllocStack_null some table rfl
        refine ⟨fun atomic failed => ?_, fun atomic failed => ?_⟩
        · have state := vmmAllocStack_state some table rfl failed
          have unchanged := atomic (null.mpr failed)
          rw [AllocCall.perform, state] at unchanged
          exact unchanged
        · have state := vmmAllocStack_state some table rfl (null.mp failed)
          rw [AllocCall.perform, state]
          exact atomic (null.mp failed)

/-- Four frames, of which the first two are in use and hold the page table; the bitmap lies
behind them. The virtual heap is where it is after `vmm_init`. -/
def earlyMachine : VmmState where
  mem addr := if addr = 0x8000 then 0xF3 else 0
  bitmap := 0x8000
  bitmapSize := 1
  totalPages := 4
  freePages := 2
  memoryStart := 0
  currentPageTable := 0x1000
  kernelHeapEnd := vmmHeapStart

theorem earlyMachine_free (page : Nat) : earlyMachine.Free page ↔ page = 2 ∨ page = 3 := by
  have known : ∀ page < 4, earlyMachine.Free page ↔ page = 2 ∨ page = 3 := by decide +kernel
  by_cases low : page < 4
  · exact known page low
  · refine iff_of_false (fun free => low free.1) fun either => ?_
    omega

theorem earlyMachine_apart : earlyMachine.Apart := by
  have entries : earlyMachine.entries = 0 := by decide +kernel
  have bitmap : earlyMachine.bitmapBlock = block 0x8000 1 := rfl
  have header : earlyMachine.headerBlock = block 0x1000 16 := rfl
  have table : earlyMachine.entriesBlock = block 0 pageSize := by rw [entriesBlock, entries]
  refine ⟨⟨by decide, by decide, ?_, ?_, ?_⟩, fun page free => ?_⟩
  · rw [bitmap, header]
    exact block_disjoint (by decide)
  · rw [bitmap, table]
    exact block_disjoint (by decide)
  · rw [header, table]
    exact block_disjoint (by decide)
  · rw [tables, bitmap, header, table]
    rcases (earlyMachine_free page).mp free with rfl | rfl
    · exact Set.disjoint_union_right.mpr ⟨block_disjoint (by decide),
        Set.disjoint_union_right.mpr ⟨block_disjoint (by decide), block_disjoint (by decide)⟩⟩
    · exact Set.disjoint_union_right.mpr ⟨block_disjoint (by decide),
        Set.disjoint_union_right.mpr ⟨block_disjoint (by decide), block_disjoint (by decide)⟩⟩

/-- The same machine once the virtual heap has come around to the third page. -/
def lowMachine : VmmState := { earlyMachine with kernelHeapEnd := 0x2000 }

theorem lowMachine_apart : lowMachine.Apart :=
  earlyMachine_apart.of_samePlace ⟨.refl _, rfl, rfl⟩ fun _ known => .inl known

theorem lowMachine_serves : lowMachine.Serves 2 where
  table := by decide
  positive := by decide
  nonnull := by decide
  inside := by decide
  zero free := by
    rcases (earlyMachine_free 0).mp free with same | same <;> cases same
  enough := by decide +kernel

theorem alloc_atomic_lowMachine : Atomic lowMachine (.userPages 2) :=
  (alloc_atomic_iff (.userPages 2) lowMachine_apart).mpr (.inr lowMachine_serves)

/-- Right after `vmm_init` a failing call moves the heap. -/
theorem alloc_notAtomic_earlyMachine :
    ¬ ∀ (s : VmmState) (call : AllocCall), s.Apart → Atomic s call := by
  intro claim
  have taken : ¬ earlyMachine.Refuses 1 := by
    rintro (none | null | none)
    · cases none
    · exact absurd null (by decide)
    · exact none 2 ((earlyMachine_free 2).mpr (.inl rfl))
  have outside : ¬ earlyMachine.Serves 1 := fun serves => absurd serves.inside (by decide)
  rcases (vmmAllocPage_atomic_iff earlyMachine_apart).mp
    (claim earlyMachine .page earlyMachine_apart) with refuses | serves
  · exact taken refuses
  · exact outside serves

/-! ## Stacks -/

/-- What a stack promises if it is returned: the pages below its top are mapped, the guard
page below them is not, and releasing all of them gives back the frames. -/
def StackLaw (s : VmmState) (pages : Nat) : Prop :=
  (vmmAllocStack s pages).1 ≠ 0 →
    let top := (vmmAllocStack s pages).1
    let base := top - (pages + 1) * pageSize
    let t := (vmmAllocStack s pages).2
    (∀ page, base / pageSize < page → page < top / pageSize → t.Present page) ∧
      ¬ t.Present (base / pageSize) ∧
      (∀ page, (vmmFreePagesRegion t base (pages + 1)).Free page ↔ s.Free page) ∧
      (vmmFreePagesRegion t base (pages + 1)).freePages = s.freePages

/-- Releasing pages that hold frames gives these back. -/
theorem freePagesFrom_frees {base : Nat} (nonnull : base ≠ 0) (frames : List Nat) :
    ∀ {i : Nat} {t : VmmState}, t.Separate → t.currentPageTable ≠ 0 →
      (∀ j frame, frames[j]? = some frame →
        t.frameOf (base / pageSize + i + j) = frame ∧ frame ≠ 0 ∧ frame < t.totalPages) →
      base / pageSize + i + frames.length ≤ entriesPerTable →
      ∀ page, (freePagesFrom base i frames.length t).Free page ↔ t.Free page ∨ page ∈ frames := by
  induction frames with
  | nil =>
      intro i t _ _ _ _ page
      exact (or_iff_left List.not_mem_nil).symm
  | cons frame frames ih =>
      intro i t separate table held inside page
      obtain ⟨first, nonzero, low⟩ := held 0 frame rfl
      rw [List.length_cons] at inside ⊢
      have plain : (base + i * pageSize) % 2 ^ 64 = base + i * pageSize := by
        simp only [pageSize, entriesPerTable] at inside ⊢
        omega
      have number : (base + i * pageSize) / pageSize = base / pageSize + i :=
        Nat.add_mul_div_right _ _ (by decide)
      rw [Nat.add_zero, ← number] at first
      have short : (base + i * pageSize) / pageSize < entriesPerTable := by omega
      have cleared := separate.of_samePlace
        (@setPte_samePlace t _ 0 0 separate.header_entries short)
      have freed := vmmFreePage_of_held table (by omega) short (first ▸ nonzero)
      rw [first] at freed
      generalize after : (t.setPte ((base + i * pageSize) / pageSize) 0 0).freeFrame
        (frame * pageSize) = u at freed
      have write := (t.setPte ((base + i * pageSize) / pageSize) 0 0).freeFrame_bitWrite
        (frame * pageSize)
      rw [after, Nat.mul_div_cancel _ (by decide : 0 < pageSize)] at write
      have place := write.samePlace cleared low
      have uFree : ∀ page, u.Free page ↔ t.Free page ∨ page = frame := by
        intro page
        rw [← after, free_freeFrame, free_setPte separate short,
          Nat.mul_div_cancel _ (by decide : 0 < pageSize)]
        exact or_congr_right (and_iff_left_of_imp fun same => same ▸ low)
      have rest := @ih (i + 1) u (cleared.of_samePlace place)
        (by rw [place.header]; exact table)
        (by
          intro j other given
          obtain ⟨holds, some, below⟩ := held (j + 1) other given
          have inside' : base / pageSize + i + (j + 1) < entriesPerTable := by
            have := (List.getElem?_eq_some_iff.mp given).1
            omega
          have different : base / pageSize + (i + 1) + j ≠ (base + i * pageSize) / pageSize := by
            omega
          have index : base / pageSize + i + (j + 1) = base / pageSize + (i + 1) + j := by omega
          rw [index] at holds inside'
          refine ⟨?_, some, ?_⟩
          · rw [frameOf, write.pte cleared low inside', pte_setPte separate.header_entries short,
              if_neg different]
            exact holds
          · rw [place.layout.totalPages]
            exact below)
        (by omega)
      rw [freePagesFrom, plain, freed, rest, uFree, List.mem_cons, or_assoc]

/-- A page whose entry is clear is passed over. -/
theorem vmmFreePage_of_clear {addr : Nat} (clear : s.pte (addr / pageSize) = 0) :
    vmmFreePage s addr = s := by
  rcases vmmFreePage_cases s addr with same | ⟨_, _, held, _⟩
  · exact same
  · rw [frameOf, clear] at held
    exact absurd (Nat.zero_div _) held

/-- **The guard page's frame is lost.** Releasing a stack gives back the frames of its pages
but not the frame that was taken for the guard page. -/
theorem vmmAllocStack_leaks (apart : s.Apart) (some : pages ≠ 0) (serves : s.Serves (pages + 1)) :
    ∃ t, vmmAllocStack s pages = (s.kernelHeapEnd + (pages + 1) * pageSize, t) ∧
      ∃ guard, s.Free guard ∧ ∀ page,
        (vmmFreePagesRegion t s.kernelHeapEnd (pages + 1)).Free page ↔ s.Free page ∧ page ≠ guard := by
  obtain ⟨table, positive, heap, inside, zero, enough⟩ := serves
  obtain ⟨frames, u, length, result, pages', place, free⟩ :=
    vmmAllocUserPages_serves apart table positive enough zero heap inside
  have short : s.kernelHeapEnd / pageSize < entriesPerTable := by omega
  have total : (pages + 1) % 2 ^ 64 = pages + 1 := by
    simp only [pageSize, entriesPerTable] at inside
    omega
  have top : (s.kernelHeapEnd + (pages + 1) * pageSize) % 2 ^ 64 =
      s.kernelHeapEnd + (pages + 1) * pageSize := by
    simp only [pageSize, entriesPerTable] at inside ⊢
    omega
  have uTable : u.currentPageTable ≠ 0 := by
    rw [place.header]
    exact table
  have separate := apart.toSeparate.of_samePlace place
  have unmapped : vmmUnmapPage u s.kernelHeapEnd = u.setPte (s.kernelHeapEnd / pageSize) 0 0 := by
    rw [vmmUnmapPage, if_neg (not_or.mpr ⟨uTable, heap⟩), if_neg (Nat.not_le.mpr short)]
  have place' := @setPte_samePlace u _ 0 0 separate.header_entries short
  have entry : ∀ page, (u.setPte (s.kernelHeapEnd / pageSize) 0 0).pte page =
      if page = s.kernelHeapEnd / pageSize then 0 else u.pte page := by
    intro page
    rw [pte_setPte separate.header_entries short, pteValue_zero]
  have kept : ∀ page, (u.setPte (s.kernelHeapEnd / pageSize) 0 0).Free page ↔ u.Free page :=
    fun page => free_setPte separate short
  refine ⟨vmmUnmapPage u s.kernelHeapEnd, ?_, ?_⟩
  · rw [vmmAllocStack, if_neg (not_or.mpr ⟨some, table⟩)]
    dsimp only
    rw [total, result]
    dsimp only
    rw [if_neg heap, top]
  · rw [unmapped]
    generalize u.setPte (s.kernelHeapEnd / pageSize) 0 0 = t at *
    obtain ⟨guard, others, rfl⟩ : ∃ guard others, frames = guard :: others := by
      cases frames with
      | nil => cases length
      | cons guard others => exact ⟨guard, others, rfl⟩
    rw [List.length_cons, Nat.add_right_cancel_iff] at length
    have tTable : t.currentPageTable ≠ 0 := by
      rw [place'.header]
      exact uTable
    have given : ¬ (s.kernelHeapEnd = 0 ∨ pages + 1 = 0 ∨ t.currentPageTable = 0) :=
      not_or.mpr ⟨heap, not_or.mpr ⟨Nat.succ_ne_zero _, tTable⟩⟩
    have plain : s.kernelHeapEnd % 2 ^ 64 = s.kernelHeapEnd := by
      simp only [pageSize, entriesPerTable] at inside
      omega
    have clear : t.pte (s.kernelHeapEnd / pageSize) = 0 := by rw [entry, if_pos rfl]
    have released := @freePagesFrom_frees _ heap others 1 t (separate.of_samePlace place') tTable
      (by
        intro j frame given
        have listed : frame ∈ guard :: others :=
          List.mem_cons_of_mem _ (List.mem_of_getElem? given)
        obtain ⟨known, _⟩ := pages'.taken frame listed
        refine ⟨?_, ?_, ?_⟩
        · have mapped := pages'.mapped (j + 1) frame given
          rw [frameOf, entry, if_neg (by omega), Nat.add_assoc, Nat.add_comm 1, mapped]
          simp only [pageSize]
          omega
        · rintro rfl
          exact zero known
        · rw [place'.layout.totalPages, place.layout.totalPages]
          exact known.1)
      (by omega)
    refine ⟨guard, (pages'.taken guard List.mem_cons_self).1, fun page => ?_⟩
    rw [vmmFreePagesRegion, if_neg given, freePagesFrom, Nat.zero_mul,
      Nat.add_zero s.kernelHeapEnd, plain,
      vmmFreePage_of_clear clear, Nat.zero_add, ← length, released, kept, free, List.mem_cons,
      not_or]
    constructor
    · rintro (⟨known, different, _⟩ | member)
      · exact ⟨known, different⟩
      · refine ⟨(pages'.taken page (List.mem_cons_of_mem _ member)).1, ?_⟩
        rintro rfl
        exact (List.nodup_cons.mp pages'.distinct).1 member
    · rintro ⟨known, different⟩
      by_cases member : page ∈ others
      · exact .inr member
      · exact .inl ⟨known, different, member⟩

theorem stackLaw_fails (apart : s.Apart) (some : pages ≠ 0) (serves : s.Serves (pages + 1)) :
    ¬ StackLaw s pages := by
  intro law
  obtain ⟨t, result, guard, known, released⟩ := vmmAllocStack_leaks apart some serves
  have base : s.kernelHeapEnd + (pages + 1) * pageSize - (pages + 1) * pageSize =
      s.kernelHeapEnd := Nat.add_sub_cancel _ _
  have heap := serves.nonnull
  rw [StackLaw, result] at law
  obtain ⟨_, _, restored, _⟩ := law (by dsimp only; omega)
  rw [base] at restored
  exact ((released guard).mp ((restored guard).mpr known)).2 rfl

/-- **When a stack keeps its law.** Only when none is returned. -/
theorem stackLaw_iff (apart : s.Apart) (wide : pages < 2 ^ 64) :
    StackLaw s pages ↔ ¬ (pages ≠ 0 ∧ s.Serves ((pages + 1) % 2 ^ 64)) := by
  constructor
  · rintro law ⟨some, serves⟩
    have total : (pages + 1) % 2 ^ 64 = pages + 1 := by
      have := serves.positive
      omega
    rw [total] at serves
    exact stackLaw_fails apart some serves law
  · intro none nonnull
    refine absurd ?_ none
    have some : pages ≠ 0 := by
      rintro rfl
      exact nonnull rfl
    have table : s.currentPageTable ≠ 0 := by
      intro null
      rw [vmmAllocStack, if_pos (.inr null)] at nonnull
      exact nonnull rfl
    refine ⟨some, (vmmAllocUserPages_nonnull_iff apart).mp fun null => nonnull ?_⟩
    exact (vmmAllocStack_null some table rfl).mpr null

/-- Right after `vmm_init` there is no stack to be had. -/
theorem stackLaw_earlyMachine : StackLaw earlyMachine 1 :=
  (stackLaw_iff earlyMachine_apart (by decide)).mpr fun serves =>
    absurd serves.2.inside (by decide)

/-- A stack of one page loses a frame. -/
theorem stackLaw_fails_lowMachine :
    ¬ ∀ (s : VmmState) (pages : Nat), s.Apart → s.kernelHeapEnd / pageSize < entriesPerTable →
      1 ≤ pages → pages < 2 ^ 64 → StackLaw s pages := by
  intro claim
  exact stackLaw_fails lowMachine_apart Nat.one_ne_zero lowMachine_serves
    (claim lowMachine 1 lowMachine_apart (by decide) le_rfl (by decide))

end NTux.Mem
