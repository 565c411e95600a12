import NTux.Mem.HeapFailure

/-! # What `expand_heap` takes

The loop of `expand_heap` compares `heap_end` and the request with `heap_max`, and it moves
`heap_end` further away from `heap_max` instead of raising `heap_max`. Once it is entered it
takes every frame there is, unless `heap_end` is so close to the end of the address space
that it is carried around to page zero first. So an expansion takes no more than it needs
exactly if the heap had room to begin with, or in that last case
(`expandHeap_takesNeeded_iff`).
-/

namespace NTux.Mem

open NTux.Foundation Memory VmmState HeapState

/-- As many pages as a request may need, wherever in a page the heap ends. -/
def pagesNeeded (size : Nat) : Nat := (size + (pageSize - 1)) / pageSize + 1

namespace HeapState

/-- The state `t` after an expansion of `s`: the heap has room for the request, it had none
after any smaller number of pages, and no more pages were taken than the request needs. -/
structure TookNeeded (s : HeapState) (size : Nat) (t : HeapState) : Prop where
  room : t.heapEnd + size ≤ t.heapMax
  prompt : ∀ earlier < s.freeFrames.card - t.freeFrames.card,
    t.heapMax < (s.heapEnd + earlier * pageSize) % 2 ^ 64 + size
  frames : s.freeFrames.card ≤ t.freeFrames.card + pagesNeeded size

/-- The expansion ends, and takes what it needs. -/
def TakesNeeded (config : HeapConfig) (s : HeapState) (size : Nat) : Prop :=
  ∃ t, expandHeap config s size = some t ∧ s.TookNeeded size t

/-- A few pages carry `heap_end` around to page zero, where a small request lies below
`heap_max`. -/
structure CarriedAround (s : HeapState) (size : Nat) : Prop where
  zero : ¬ s.Free 0
  near : 2 ^ 52 - s.heapEnd / pageSize ≤ pagesNeeded size
  small : s.heapEnd % pageSize + size < pageSize
  below : s.heapEnd % pageSize + size ≤ s.heapMax

end HeapState

variable {config : HeapConfig} {size turns : Nat} {s t : HeapState}

/-- A heap that has room is left alone. -/
theorem tookNeeded_of_room (room : s.heapEnd + size ≤ s.heapMax) : s.TookNeeded size s where
  room := room
  prompt earlier before := by
    rw [Nat.sub_self] at before
    exact absurd before (Nat.not_lt_zero _)
  frames := Nat.le_add_right _ _

/-- No turn makes room before `heap_end` is carried around, and none is made after. -/
theorem expansion_around (inside : s.heapEnd < 2 ^ 64) (bounded : turns ≤ 2 ^ 52)
    (expansion : Expansion size s t turns) (none : s.heapMax < s.heapEnd + size)
    (room : t.heapEnd + size ≤ s.heapMax) :
    turns = 2 ^ 52 - s.heapEnd / pageSize ∧ s.heapEnd % pageSize + size < pageSize ∧
      s.heapEnd % pageSize + size ≤ s.heapMax := by
  have heapEnd := expansion.heapEnd
  have wrapped : 2 ^ 64 ≤ s.heapEnd + turns * pageSize := by
    by_contra plain
    omega
  obtain ⟨before, rfl⟩ : ∃ before, turns = before + 1 := by
    refine ⟨turns - 1, ?_⟩
    simp only [pageSize] at wrapped
    omega
  have last := expansion.turned before (Nat.lt_succ_self before)
  have reached := expansion.turned (2 ^ 52 - s.heapEnd / pageSize)
  simp only [pageSize] at *
  have exact : before + 1 = 2 ^ 52 - s.heapEnd / 4096 := by
    by_contra different
    have := reached (by omega)
    omega
  omega

/-- In the last pages of the address space the turns stop at page zero. -/
theorem carriedAround_turns (inside : s.heapEnd < 2 ^ 64) (around : s.CarriedAround size)
    (frames : pagesNeeded size ≤ s.freeFrames.card) (expansion : Expansion size s t turns)
    (none : s.heapMax < s.heapEnd + size) :
    turns = 2 ^ 52 - s.heapEnd / pageSize := by
  obtain ⟨zero, near, small, below⟩ := around
  have later := expansion.turned (2 ^ 52 - s.heapEnd / pageSize)
  have enough : turns ≤ 2 ^ 52 - s.heapEnd / pageSize := by
    by_contra more
    have := later (Nat.lt_of_not_le more)
    simp only [pageSize] at *
    omega
  rcases expansion.stopped with done | exhausted | free
  · simp only [pageSize] at *
    omega
  · exact Nat.le_antisymm enough (exhausted ▸ near.trans frames)
  · exact absurd free zero

/-- **When `expand_heap` takes no more than it needs.** Where there are frames enough for the
request, exactly when the heap has room already, or a small request finds `heap_end` in the
last pages of the address space. -/
theorem expandHeap_takesNeeded_iff (config : HeapConfig) (separate : s.Separate)
    (inside : s.heapEnd < 2 ^ 64) (frames : pagesNeeded size ≤ s.freeFrames.card) :
    TakesNeeded config s size ↔ s.heapEnd + size ≤ s.heapMax ∨ s.CarriedAround size := by
  obtain ⟨turns, t, result, expansion, cost⟩ := expandHeap_spec config size separate inside
  have heapMax := cost.heapMax
  have bounded : turns ≤ 2 ^ 52 :=
    expansion.bounded.trans (s.toPmmState.freeFrames_card_le.trans separate.bounded)
  by_cases room : s.heapEnd + size ≤ s.heapMax
  · exact iff_of_true ⟨s, expandHeap_of_room config ((Nat.mod_le _ _).trans room),
      tookNeeded_of_room room⟩ (.inl room)
  · have none := Nat.lt_of_not_le room
    have entered : s.heapMax < t.heapEnd + size ∨ ¬ s.Free 0 := by
      rcases Nat.eq_zero_or_pos turns with rfl | turned
      · left
        rw [expansion.heapEnd, Nat.zero_mul, Nat.add_zero, Nat.mod_eq_of_lt inside]
        exact none
      · exact .inr (expansion.zero turned)
    constructor
    · rintro ⟨t', result', took⟩
      obtain rfl : t' = t := Option.some.inj (result'.symm.trans result)
      have held := took.room
      rw [heapMax] at held
      obtain ⟨exact, small, below⟩ := expansion_around inside bounded expansion none held
      have zero := entered.resolve_left (Nat.not_lt.mpr held)
      have paid := cost.frames zero
      have taken := took.frames
      exact .inr ⟨zero, by omega, small, below⟩
    · intro condition
      have around := condition.resolve_left room
      have exact := carriedAround_turns inside around frames expansion none
      have paid := cost.frames around.zero
      have heapEnd : t.heapEnd = s.heapEnd % pageSize := by
        rw [expansion.heapEnd, exact]
        simp only [pageSize]
        omega
      refine ⟨t, result, ?_, fun earlier before => ?_, ?_⟩
      · rw [heapEnd, heapMax]
        exact around.below
      · have turned := expansion.turned earlier (by omega)
        rw [heapMax]
        refine turned.trans_le ?_
        rw [Nat.add_mod]
        exact (Nat.mod_le _ _).trans (Nat.add_le_add_left (Nat.mod_le _ _) _)
      · rw [← paid, exact]
        exact Nat.add_le_add_left around.near _

/-- A machine with four frames, of which the first is in use, before the first request. -/
def spareMachine : HeapState :=
  kmallocInit
    { mem := fun addr => if addr = 0x3000 then 0xF1 else 0
      bitmap := 0x3000, bitmapSize := 1, totalPages := 4, freePages := 3, memoryStart := 0
      currentPageTable := 0x1000, kernelHeapEnd := vmmHeapStart
      heapStart := 0, heapEnd := 0, heapMax := 0, freeList := 0, grown := [] }

theorem spareMachine_separate : spareMachine.Separate := by
  have entries : spareMachine.entries = 0 := by decide +kernel
  refine ⟨by decide, by decide, block_disjoint (by decide), ?_, ?_⟩
  · rw [entriesBlock, entries]
    exact block_disjoint (by decide)
  · rw [entriesBlock, entries]
    exact block_disjoint (by decide)

theorem spareMachine_frames : spareMachine.freeFrames.card = 3 := by
  decide +kernel

/-- The first request finds room. -/
theorem expandHeap_takesNeeded_spareMachine : TakesNeeded kernelHeap spareMachine 40 :=
  (expandHeap_takesNeeded_iff kernelHeap spareMachine_separate (by decide)
    (by rw [spareMachine_frames]; decide)).mpr (.inl (by decide))

/-- The same machine after requests for the whole initial heap. -/
def spentMachine : HeapState := { spareMachine with heapEnd := spareMachine.heapMax }

/-- At the end of the initial heap a request of a few bytes takes all frames. -/
theorem expandHeap_exhausts_spentMachine :
    ¬ ∀ (s : HeapState) (size : Nat), s.Separate → s.heapEnd < 2 ^ 64 →
      pagesNeeded size ≤ s.freeFrames.card → TakesNeeded kernelHeap s size := by
  intro claim
  have frames : pagesNeeded 40 ≤ spentMachine.freeFrames.card := by
    change _ ≤ spareMachine.freeFrames.card
    rw [spareMachine_frames]
    decide
  obtain ⟨t, result, took⟩ := claim spentMachine 40 spareMachine_separate (by decide) frames
  have ends : (expandHeap kernelHeap spentMachine 40).map (fun t => (t.heapEnd, t.heapMax)) =
      some (0xFFFF800001103000, 0xFFFF800001100000) := by
    decide +kernel
  rw [result, Option.map_some, Option.some.injEq, Prod.mk.injEq] at ends
  have room := took.room
  rw [ends.1, ends.2] at room
  exact absurd room (by decide)

end NTux.Mem
