import NTux.Mem.PmmSoundness

/-! # When the physical allocator is out of memory

`pmm_alloc_page` returns the null pointer when no page is free, and also when it hands out page
zero, whose address the null pointer is. So its callers may read a null pointer as a failure
exactly as long as page zero is not free (`pmmAlloc_complete_iff`).
-/

namespace NTux.Mem

open NTux.Foundation

/-- The null pointer says that no page is free, and whoever gets it has changed nothing. -/
structure PmmState.Complete (s : PmmState) : Prop where
  null_iff : (pmmAllocPage s).1 = 0 ↔ ∀ page, ¬ s.Free page
  unchanged : (pmmAllocPage s).1 = 0 → (pmmAllocPage s).2 = s

/-- A call of the allocator, which may free any address. -/
def PmmCall.perform (s : PmmState) : PmmCall → PmmState
  | allocPage => (pmmAllocPage s).2
  | freePage addr => pmmFreePage s addr

/-- Any calls. -/
def PmmCalls (s : PmmState) (call : PmmCall) (t : PmmState) : Prop := t = call.perform s

section Complete

variable {s t : PmmState} {calls : List PmmCall}

/-- The null pointer is the address of page zero only. -/
theorem pageAddress_eq_zero (bounded : s.totalPages ≤ 2 ^ 52) {page : Nat} (free : s.Free page) :
    page * pageSize % 2 ^ 64 = 0 ↔ page = 0 := by
  have low := free.1
  simp only [pageSize]
  omega

/-- The lowest free page is what is handed out, so the null pointer is a page while page zero is
free. -/
theorem PmmState.complete_iff (bounded : s.totalPages ≤ 2 ^ 52) : s.Complete ↔ ¬ s.Free 0 := by
  rcases pmmAllocPage_cases s with ⟨none, result⟩ | ⟨page, free, least, result⟩
  · refine iff_of_true ⟨?_, fun _ => ?_⟩ (none 0)
    · rw [result]
      exact iff_of_true rfl none
    · rw [result]
  · have null : (pmmAllocPage s).1 = 0 ↔ page = 0 := by
      rw [result]
      exact pageAddress_eq_zero bounded free
    constructor
    · rintro ⟨complete, -⟩ zero
      obtain rfl := Nat.le_zero.mp (least 0 zero)
      exact complete.mp (null.mpr rfl) 0 zero
    · intro zero
      have nonzero : page ≠ 0 := by
        rintro rfl
        exact zero free
      refine ⟨iff_of_false (fun isNull => nonzero (null.mp isNull)) fun none => none page free, ?_⟩
      exact fun isNull => absurd (null.mp isNull) nonzero

theorem PmmCall.perform_totalPages (s : PmmState) (call : PmmCall) :
    (call.perform s).totalPages = s.totalPages := by
  cases call with
  | allocPage => exact (pmmAllocPage_sameLayout s).totalPages
  | freePage addr => exact (pmmFreePage_sameLayout s addr).totalPages

/-- Page zero becomes free only by a call that frees an address in it. -/
theorem PmmCall.perform_zero {call : PmmCall} (used : ¬ s.Free 0)
    (kept : ∀ addr, call = .freePage addr → pageSize ≤ addr) : ¬ (call.perform s).Free 0 := by
  cases call with
  | allocPage =>
      rw [PmmCall.perform]
      rcases pmmAllocPage_cases s with ⟨-, result⟩ | ⟨page, -, -, result⟩
      · rw [result]
        exact used
      · rw [result, PmmState.free_take]
        exact fun free => used free.1
  | freePage addr =>
      rw [PmmCall.perform, free_pmmFreePage]
      rintro (free | ⟨same, -⟩)
      · exact used free
      · have positive : 0 < addr / pageSize := Nat.div_pos (kept addr rfl) (by decide)
        exact absurd same positive.ne

theorem run_totalPages (run : Run PmmCalls s calls t) : t.totalPages = s.totalPages := by
  refine @Run.invariant _ _ _ _ _ _ (fun t => t.totalPages = s.totalPages) ?_ run rfl
  rintro source call _ same rfl
  rw [PmmCall.perform_totalPages, same]

theorem run_zero (used : ¬ s.Free 0) (run : Run PmmCalls s calls t)
    (kept : ∀ addr, .freePage addr ∈ calls → pageSize ≤ addr) : ¬ t.Free 0 := by
  induction run with
  | nil => exact used
  | cons taken rest ih =>
      obtain rfl := taken
      refine ih (PmmCall.perform_zero used ?_) fun addr member =>
        kept addr (List.mem_cons_of_mem _ member)
      rintro addr rfl
      exact kept addr List.mem_cons_self

end Complete

/-- **The null pointer.** After `pmm_init` under any memory map and any calls, a null pointer says
that there is no memory left exactly if page zero is not free. It stays so if page zero is not
free at first and nothing in it is ever freed. -/
theorem pmmAlloc_complete_iff {memmap carved : Memmap} {s init t : PmmState} {calls : List PmmCall}
    (result : pmmInit memmap s = some (init, carved)) (run : Run PmmCalls init calls t) :
    (t.Complete ↔ ¬ t.Free 0) ∧
      (¬ init.Free 0 → (∀ addr, .freePage addr ∈ calls → pageSize ≤ addr) → t.Complete) := by
  have bounded : t.totalPages ≤ 2 ^ 52 := by
    rw [run_totalPages run, pmmInit_totalPages result]
    exact memmap.totalPages_lt.le
  have complete := PmmState.complete_iff bounded
  exact ⟨complete, fun used kept => complete.mpr (run_zero used run kept)⟩

/-- Under `spareMap` a page is taken and freed. -/
theorem pmmAlloc_complete_spareMap :
    ∃ init carved t, pmmInit spareMap (.boot fun _ => 0) = some (init, carved) ∧
      Run PmmCalls init [.allocPage, .freePage 0x2000] t ∧
      (t.Complete ↔ ¬ t.Free 0) ∧
      (¬ init.Free 0 →
        (∀ addr, .freePage addr ∈ [PmmCall.allocPage, .freePage 0x2000] → pageSize ≤ addr) →
          t.Complete) := by
  have returns : (pmmInit spareMap (.boot fun _ => 0)).isSome := by decide +kernel
  obtain ⟨⟨init, carved⟩, result⟩ := Option.isSome_iff_exists.mp returns
  have run : Run PmmCalls init [.allocPage, .freePage 0x2000] _ := .cons rfl (.single rfl)
  exact ⟨init, carved, _, result, run, pmmAlloc_complete_iff result run⟩

/-- Memory that is usable from its first page on. -/
def zeroMap : Memmap := [⟨0, 0x3000, .usable⟩]

/-- Under `zeroMap` the first page that is handed out is page zero. -/
theorem pmmAlloc_incomplete_zeroMap :
    ¬ ∀ (memmap carved : Memmap) (s init t : PmmState) (calls : List PmmCall),
      pmmInit memmap s = some (init, carved) → Run PmmCalls init calls t → t.Complete := by
  intro claim
  have free : ∀ init ∈ pmmInit zeroMap (.boot fun _ => 0), init.1.Free 0 := by decide +kernel
  have returns : (pmmInit zeroMap (.boot fun _ => 0)).isSome := by decide +kernel
  obtain ⟨⟨init, carved⟩, result⟩ := Option.isSome_iff_exists.mp returns
  have complete := claim _ _ _ _ _ _ result (.nil init)
  have bounded : init.totalPages ≤ 2 ^ 52 := by
    rw [pmmInit_totalPages result]
    exact zeroMap.totalPages_lt.le
  exact (PmmState.complete_iff bounded).mp complete (free _ result)

end NTux.Mem
