import NTux.Mem.FrameRuns

/-! # When virtual pages are allocated

`vmm_alloc_page` and `vmm_alloc_user_pages` take their virtual pages from `kernel_heap_end`
on, which starts at `KERNEL_HEAP_START`, far behind the 512 pages that the page table has
entries for. So however many frames are free, they fail unless this variable has wrapped
around to one of these pages (`vmmAlloc_maps_iff`).
-/

namespace NTux.Mem

open NTux.Foundation Memory VmmState

/-- The pages from a base address on are mapped to frames that were free before, each its
own and cleared, and all other entries are as they were. -/
structure PagesMapped (flags : Nat) (s t : VmmState) (base : Nat) (frames : List Nat) : Prop where
  mapped : ∀ i frame, frames[i]? = some frame →
    t.pte (base / pageSize + i) = frame * pageSize + flags
  taken : ∀ frame ∈ frames, s.Free frame ∧ ¬ t.Free frame
  distinct : frames.Nodup
  cleared : ∀ frame ∈ frames, ∀ address ∈ frameBlock frame, t.mem address = 0
  others : ∀ page < entriesPerTable,
    page < base / pageSize ∨ base / pageSize + frames.length ≤ page → t.pte page = s.pte page

/-- A call has returned the base of a number of pages that were not mapped before and are
now. -/
structure Allocated (flags : Nat) (s : VmmState) (count : Nat) (result : Nat × VmmState) : Prop where
  nonnull : result.1 ≠ 0
  inside : result.1 / pageSize + count ≤ entriesPerTable
  unmapped : ∀ i < count, ¬ s.Present (result.1 / pageSize + i)
  mapped : ∃ frames : List Nat, frames.length = count ∧
    PagesMapped flags s result.2 result.1 frames

/-- The next virtual pages have entries in the page table and are not mapped, and frame zero,
whose address is the null pointer, is not free. -/
structure VmmState.CanMap (s : VmmState) (count : Nat) : Prop where
  nonnull : s.kernelHeapEnd ≠ 0
  inside : s.kernelHeapEnd / pageSize + count ≤ entriesPerTable
  unmapped : ∀ i < count, ¬ s.Present (s.kernelHeapEnd / pageSize + i)
  zero : ¬ s.Free 0

/-! ## What a call that returns pages found -/

section Results

variable {s : VmmState} {count remaining firstVirt i : Nat}

/-- The loop of `vmm_alloc_user_pages` returns the first page it has mapped, and only if all
pages have entries. -/
theorem allocUserFrom_result (nonnull : (allocUserFrom firstVirt i (remaining + 1) s).1 ≠ 0) :
    s.kernelHeapEnd ≠ 0 ∧ s.kernelHeapEnd / pageSize + (remaining + 1) ≤ entriesPerTable ∧
      (allocUserFrom firstVirt i (remaining + 1) s).1 =
        if firstVirt = 0 then s.kernelHeapEnd else firstVirt := by
  induction remaining generalizing firstVirt i s with
  | zero =>
      simp only [allocUserFrom] at nonnull ⊢
      split at nonnull
      · exact absurd rfl nonnull
      · rename_i given
        rw [if_neg given]
        rcases vmmMapPage_cases (s.allocFrame.2.myMemset s.allocFrame.1 0 pageSize).bumpHeap
            (s.allocFrame.2.myMemset s.allocFrame.1 0 pageSize).kernelHeapEnd s.allocFrame.1 0x7 with
          refused | ⟨heap, low, accepted⟩
        · rw [refused] at nonnull
          exact absurd rfl nonnull
        · rw [accepted, if_neg heap]
          exact ⟨heap, low, rfl⟩
  | succ remaining ih =>
      rw [allocUserFrom] at nonnull ⊢
      dsimp only at nonnull ⊢
      split at nonnull
      · exact absurd rfl nonnull
      · rename_i given
        rw [if_neg given]
        rcases vmmMapPage_cases (s.allocFrame.2.myMemset s.allocFrame.1 0 pageSize).bumpHeap
            (s.allocFrame.2.myMemset s.allocFrame.1 0 pageSize).kernelHeapEnd s.allocFrame.1 0x7 with
          refused | ⟨heap, low, accepted⟩
        · rw [refused] at nonnull
          exact absurd rfl nonnull
        · rw [accepted, if_neg heap] at nonnull ⊢
          have heapEnd : (s.allocFrame.2.myMemset s.allocFrame.1 0 pageSize).kernelHeapEnd =
              s.kernelHeapEnd := rfl
          rw [heapEnd] at heap low nonnull ⊢
          obtain ⟨-, inside, result⟩ := ih nonnull
          have next : (VmmState.setPte
              (s.allocFrame.2.myMemset s.allocFrame.1 0 pageSize).bumpHeap
              (s.kernelHeapEnd / pageSize) s.allocFrame.1 0x7).kernelHeapEnd =
                (s.kernelHeapEnd + pageSize) % 2 ^ 64 := rfl
          simp only [pageSize, entriesPerTable] at low
          have plain : (s.kernelHeapEnd + pageSize) % 2 ^ 64 = s.kernelHeapEnd + pageSize := by
            simp only [pageSize]
            omega
          rw [next, plain, Nat.add_div_right _ (by decide)] at inside
          refine ⟨heap, by omega, result.trans ?_⟩
          by_cases first : firstVirt = 0
          · rw [if_pos first, if_neg heap]
          · rw [if_neg first, if_neg first]

theorem vmmAllocUserPages_result (nonnull : (vmmAllocUserPages s count).1 ≠ 0) :
    (vmmAllocUserPages s count).1 = s.kernelHeapEnd ∧ s.kernelHeapEnd ≠ 0 ∧
      s.kernelHeapEnd / pageSize + count ≤ entriesPerTable := by
  unfold vmmAllocUserPages at nonnull ⊢
  split at nonnull
  · exact absurd rfl nonnull
  · rename_i given
    rw [if_neg given]
    obtain ⟨remaining, rfl⟩ := Nat.exists_eq_succ_of_ne_zero fun zero => given (.inl zero)
    obtain ⟨heap, inside, result⟩ := allocUserFrom_result nonnull
    exact ⟨result, heap, inside⟩

theorem vmmAllocPage_result (nonnull : (vmmAllocPage s).1 ≠ 0) :
    (vmmAllocPage s).1 = s.kernelHeapEnd ∧ s.kernelHeapEnd ≠ 0 ∧
      s.kernelHeapEnd / pageSize + 1 ≤ entriesPerTable := by
  unfold vmmAllocPage at nonnull ⊢
  split at nonnull
  · exact absurd rfl nonnull
  · rename_i given
    rw [if_neg given]
    dsimp only at nonnull ⊢
    split at nonnull
    · exact absurd rfl nonnull
    · rename_i frame
      rw [if_neg frame]
      rcases vmmMapPage_cases (s.allocFrame.2.myMemset s.allocFrame.1 0 pageSize).bumpHeap
          (s.allocFrame.2.myMemset s.allocFrame.1 0 pageSize).kernelHeapEnd s.allocFrame.1 0x3 with
        refused | ⟨heap, low, accepted⟩
      · rw [refused] at nonnull
        exact absurd rfl nonnull
      · rw [accepted, if_neg heap]
        exact ⟨rfl, heap, low⟩

/-- While frame zero is free, it is what the allocator hands out, and its address counts as a
failure. -/
theorem allocFrame_zero (bounded : s.totalPages ≤ 2 ^ 52) (zero : s.Free 0) :
    s.allocFrame.1 = 0 := by
  rcases allocFrame_cases bounded with ⟨none, _⟩ | ⟨page, _, least, result⟩
  · exact absurd zero (none 0)
  · obtain rfl := Nat.le_zero.mp (least 0 zero)
    rw [result, Nat.zero_mul]

theorem vmmAllocUserPages_zero (bounded : s.totalPages ≤ 2 ^ 52) (zero : s.Free 0) (count : Nat) :
    (vmmAllocUserPages s count).1 = 0 := by
  unfold vmmAllocUserPages
  split
  · rfl
  · rename_i given
    obtain ⟨remaining, rfl⟩ := Nat.exists_eq_succ_of_ne_zero fun zero => given (.inl zero)
    rw [allocUserFrom]
    dsimp only
    rw [if_pos (allocFrame_zero bounded zero)]

theorem vmmAllocPage_zero (bounded : s.totalPages ≤ 2 ^ 52) (zero : s.Free 0) :
    (vmmAllocPage s).1 = 0 := by
  unfold vmmAllocPage
  split
  · rfl
  · dsimp only
    rw [if_pos (allocFrame_zero bounded zero)]

end Results

/-! ## What a call maps -/

section Turn

variable {s t u : VmmState} {frame flags : Nat} {frames : List Nat}

/-- What mapping a fresh frame at the next virtual page does. -/
structure Turn (flags frame : Nat) (s t : VmmState) : Prop where
  place : s.SamePlace t
  heapEnd : t.kernelHeapEnd = (s.kernelHeapEnd + pageSize) % 2 ^ 64
  free : ∀ page, t.Free page ↔ s.Free page ∧ page ≠ frame
  pte : ∀ page < entriesPerTable,
    t.pte page = if page = s.kernelHeapEnd / pageSize then frame * pageSize + flags else s.pte page
  cleared : ∀ address ∈ frameBlock frame, t.mem address = 0
  kept : ∀ region : Set Nat, Disjoint region s.tables → Disjoint region (frameBlock frame) →
    Set.EqOn t.mem s.mem region

/-- A frame that is free is cleared and mapped, as long as the next virtual page has an entry. -/
theorem turn_spec (apart : s.Apart) (free : s.Free frame) (nonzero : frame ≠ 0)
    (small : flags < pageSize) (table : s.currentPageTable ≠ 0) (nonnull : s.kernelHeapEnd ≠ 0)
    (low : s.kernelHeapEnd / pageSize < entriesPerTable) :
    ∃ t, vmmMapPage (s.freshFrame frame) s.kernelHeapEnd (frame * pageSize) flags =
        (s.kernelHeapEnd, t) ∧ t.Apart ∧ Turn flags frame s t := by
  obtain ⟨place, same, freeIff⟩ := freshFrame_same apart free
  have separate := apart.toSeparate.of_samePlace place
  have entries : (s.freshFrame frame).entriesBlock ⊆ s.tables := by
    rw [← place.tables]
    exact entriesBlock_subset
  have away := apart.free frame free
  have given : ¬ ((s.freshFrame frame).currentPageTable = 0 ∨ s.kernelHeapEnd = 0 ∨
      frame * pageSize = 0) := by
    rw [place.header, not_or, not_or]
    exact ⟨table, nonnull, Nat.mul_ne_zero nonzero (by decide)⟩
  have value : pteValue (frame * pageSize) flags = frame * pageSize + flags := by
    have wide := free.1.trans_le apart.bounded
    have plain : flags % 2 ^ 12 = flags := Nat.mod_eq_of_lt small
    rw [pteValue_eq (by simp only [pageSize]; omega), Nat.mul_div_cancel _ (by decide), plain]
  have mapped := place.trans (@setPte_samePlace _ _ (frame * pageSize) flags
    separate.header_entries low)
  have freed : ∀ page, ((s.freshFrame frame).setPte (s.kernelHeapEnd / pageSize)
      (frame * pageSize) flags).Free page ↔ s.Free page ∧ page ≠ frame := by
    intro page
    rw [free_setPte separate low]
    exact freeIff page
  refine ⟨_, ?_, apart.of_samePlace mapped fun page known => .inl ((freed page).mp known).1,
    ⟨mapped, rfl, freed, ?_, ?_, ?_⟩⟩
  · rw [vmmMapPage, if_neg given, if_neg (Nat.not_le.mpr low)]
  · intro page inside
    rw [pte_setPte separate.header_entries low, same page inside, value]
  · intro address member
    have outside : Disjoint (frameBlock frame) (s.freshFrame frame).entriesBlock :=
      away.mono_right entries
    rw [setPte_mem_eqOn outside low member, freshFrame, bumpHeap_mem, myMemset]
    exact store_of_mem _ (fun _ => BitVec.ofNat 8 0) member
  · intro region offTables offFrame
    have outside : Disjoint region (s.freshFrame frame).entriesBlock := offTables.mono_right entries
    have bit := apart.toSeparate.bit_mem free.1
    have offBit : s.bitmap + frame / 8 ∉ region := fun member =>
      Set.disjoint_left.mp offTables member (bitmapBlock_subset bit)
    refine (setPte_mem_eqOn outside low).trans (Set.EqOn.trans ?_
      ((s.takeFrame_bitWrite frame).mem region offBit))
    rw [freshFrame, bumpHeap_mem]
    exact myMemset_mem_eqOn offFrame

/-- Nothing is mapped to begin with. -/
theorem PagesMapped.nil (flags : Nat) (s : VmmState) (start : Nat) :
    PagesMapped flags s s start [] where
  mapped i frame given := by
    rw [List.getElem?_nil] at given
    cases given
  taken _ member := absurd member List.not_mem_nil
  distinct := List.nodup_nil
  cleared _ member := absurd member List.not_mem_nil
  others _ _ _ := rfl

/-- One more page is mapped. -/
theorem PagesMapped.snoc {start : Nat} (apart : s.Apart)
    (pages : PagesMapped flags s t start frames) (place : s.SamePlace t) (turn : Turn flags frame t u)
    (heapEnd : t.kernelHeapEnd / pageSize = start / pageSize + frames.length)
    (inside : start / pageSize + frames.length < entriesPerTable)
    (free : ∀ page, t.Free page ↔ s.Free page ∧ page ∉ frames) (fresh : t.Free frame) :
    PagesMapped flags s u start (frames ++ [frame]) := by
  obtain ⟨freeBefore, unlisted⟩ := (free frame).mp fresh
  have disjoint : ∀ old ∈ frames, Disjoint (frameBlock old) (frameBlock frame) := by
    intro old member
    apply frameBlock_disjoint
    rintro rfl
    exact unlisted member
  refine ⟨?_, ?_, ?_, ?_, ?_⟩
  · intro i other given
    have short : i < frames.length + 1 := by
      have := (List.getElem?_eq_some_iff.mp given).1
      simpa using this
    rw [turn.pte _ (by omega), heapEnd]
    rcases Nat.lt_succ_iff_lt_or_eq.mp short with old | rfl
    · rw [List.getElem?_append_left old] at given
      rw [if_neg (by omega)]
      exact pages.mapped i other given
    · rw [List.getElem?_concat_length] at given
      cases given
      rw [if_pos rfl]
  · intro other member
    rcases List.mem_append.mp member with old | new
    · obtain ⟨before, after⟩ := pages.taken other old
      exact ⟨before, fun known => after ((turn.free other).mp known).1⟩
    · obtain rfl := List.mem_singleton.mp new
      exact ⟨freeBefore, fun known => ((turn.free other).mp known).2 rfl⟩
  · rw [List.nodup_append']
    exact ⟨pages.distinct, List.nodup_singleton frame, List.disjoint_singleton.mpr unlisted⟩
  · intro other member address inFrame
    rcases List.mem_append.mp member with old | new
    · have onTables : Disjoint (frameBlock other) t.tables := by
        rw [place.tables]
        exact apart.free other (pages.taken other old).1
      rw [turn.kept _ onTables (disjoint other old) inFrame]
      exact pages.cleared other old address inFrame
    · obtain rfl := List.mem_singleton.mp new
      exact turn.cleared address inFrame
  · intro page low outside
    rw [List.length_append, List.length_singleton] at outside
    rw [turn.pte page low, heapEnd, if_neg (by omega)]
    exact pages.others page low (by omega)

end Turn

section Success

variable {s : VmmState} {count : Nat}

/-- The loop of `vmm_alloc_user_pages` goes on as long as there are frames and entries. -/
theorem allocUserFrom_maps {start : Nat} (apart : s.Apart) (table : s.currentPageTable ≠ 0)
    (nonnull : start ≠ 0) (zero : ¬ s.Free 0) : ∀ (remaining : Nat) {t : VmmState} {firstVirt : Nat}
    {frames : List Nat}, PagesMapped 0x7 s t start frames → t.Apart → s.SamePlace t →
    t.kernelHeapEnd = start + frames.length * pageSize →
    (∀ page, t.Free page ↔ s.Free page ∧ page ∉ frames) →
    (firstVirt = if frames = [] then 0 else start) → remaining ≤ t.freeFrames.card →
    start / pageSize + (frames.length + remaining) ≤ entriesPerTable →
    (remaining = 0 → frames ≠ []) →
    ∃ added u, added.length = remaining ∧
      allocUserFrom firstVirt frames.length remaining t = (start, u) ∧
      PagesMapped 0x7 s u start (frames ++ added) ∧ s.SamePlace u ∧
      ∀ page, u.Free page ↔ s.Free page ∧ page ∉ frames ++ added := by
  intro remaining
  induction remaining with
  | zero =>
      intro t firstVirt frames pages _ place _ free first _ _ begun
      refine ⟨[], t, rfl, ?_, by rwa [List.append_nil], place, by rwa [List.append_nil]⟩
      rw [allocUserFrom, first, if_neg (begun rfl)]
  | succ remaining ih =>
      intro t firstVirt frames pages tApart place heapEnd free first enough inside _
      have number : t.kernelHeapEnd / pageSize = start / pageSize + frames.length := by
        rw [heapEnd, Nat.add_mul_div_right _ _ (by decide)]
      have tZero : ¬ t.Free 0 := fun known => zero ((free 0).mp known).1
      have tTable : t.currentPageTable ≠ 0 := by
        rw [place.header]
        exact table
      have heap : t.kernelHeapEnd ≠ 0 := by
        rw [heapEnd]
        omega
      rcases allocFrame_cases tApart.bounded with ⟨none, _⟩ | ⟨frame, fresh, _, result⟩
      · have empty : t.freeFrames = ∅ := by
          rw [Finset.eq_empty_iff_forall_notMem]
          exact fun page member => none page (PmmState.mem_freeFrames.mp member)
        rw [empty, Finset.card_empty] at enough
        omega
      · have nonzero : frame ≠ 0 := by
          rintro rfl
          exact tZero fresh
        obtain ⟨u, mapped, uApart, turn⟩ := turn_spec tApart fresh nonzero
          (by decide : 0x7 < pageSize) tTable heap (by omega)
        have card := PmmState.freeFrames_card_of_take fresh turn.free
        have unlisted := ((free frame).mp fresh).2
        have more := PagesMapped.snoc apart pages place turn number (by omega) free fresh
        have nonempty : frames ++ [frame] ≠ [] := List.append_ne_nil_of_right_ne_nil _ (by simp)
        have length : (frames ++ [frame]).length = frames.length + 1 := List.length_append
        obtain ⟨added, v, count, loop, done⟩ := @ih u start _ more uApart
          (place.trans turn.place)
          (by
            rw [turn.heapEnd, heapEnd, length]
            simp only [pageSize, entriesPerTable] at inside ⊢
            omega)
          (by
            intro page
            rw [turn.free, free, List.mem_append, List.mem_singleton, not_or, and_assoc])
          (by rw [if_neg nonempty]) (by omega) (by rw [length]; omega) (fun _ => nonempty)
        refine ⟨frame :: added, v, by rw [List.length_cons, count], ?_, ?_⟩
        · have next : (if firstVirt = 0 then t.kernelHeapEnd else firstVirt) = start := by
            rw [first]
            by_cases begin : frames = []
            · rw [if_pos begin, if_pos rfl, heapEnd, begin, List.length_nil, Nat.zero_mul,
                Nat.add_zero]
            · rw [if_neg begin, if_neg nonnull]
          rw [length] at loop
          rw [allocUserFrom]
          simp only [result, myMemset_takeFrame_kernelHeapEnd]
          rw [if_neg (Nat.mul_ne_zero nonzero (by decide)), ← freshFrame, mapped]
          simp only [if_neg heap, next]
          exact loop
        · rw [← List.append_cons] at done
          exact done

/-- Frames other than frame zero are frames. -/
theorem card_erase_le (enough : count ≤ (s.freeFrames.erase 0).card) :
    count ≤ s.freeFrames.card :=
  enough.trans (Finset.card_le_card (Finset.erase_subset _ _))

/-- A call that finds all it needs maps its pages. -/
theorem vmmAllocUserPages_serves (apart : s.Apart) (table : s.currentPageTable ≠ 0)
    (positive : 1 ≤ count) (enough : count ≤ s.freeFrames.card) (zero : ¬ s.Free 0)
    (nonnull : s.kernelHeapEnd ≠ 0)
    (inside : s.kernelHeapEnd / pageSize + count ≤ entriesPerTable) :
    ∃ frames u, frames.length = count ∧ vmmAllocUserPages s count = (s.kernelHeapEnd, u) ∧
      PagesMapped 0x7 s u s.kernelHeapEnd frames ∧ s.SamePlace u ∧
      ∀ page, u.Free page ↔ s.Free page ∧ page ∉ frames := by
  obtain ⟨added, u, length, loop, pages⟩ := allocUserFrom_maps apart table nonnull zero count
    (PagesMapped.nil 0x7 s s.kernelHeapEnd) apart (.refl s)
    (by rw [List.length_nil, Nat.zero_mul, Nat.add_zero])
    (fun page => (and_iff_left List.not_mem_nil).symm) (if_pos rfl).symm enough
    (by rw [List.length_nil, Nat.zero_add]; exact inside) (fun none => by omega)
  have given : ¬ (count = 0 ∨ s.currentPageTable = 0) := not_or.mpr ⟨by omega, table⟩
  refine ⟨added, u, length, ?_, pages⟩
  rw [vmmAllocUserPages, if_neg given]
  exact loop

theorem vmmAllocUserPages_maps (apart : s.Apart) (table : s.currentPageTable ≠ 0)
    (positive : 1 ≤ count) (enough : count ≤ (s.freeFrames.erase 0).card) (can : s.CanMap count) :
    Allocated 0x7 s count (vmmAllocUserPages s count) := by
  obtain ⟨nonnull, inside, unmapped, zero⟩ := can
  obtain ⟨frames, u, length, result, pages, _⟩ := vmmAllocUserPages_serves apart table positive
    (card_erase_le enough) zero nonnull inside
  rw [result]
  exact ⟨nonnull, inside, unmapped, frames, length, pages⟩

/-- `vmm_alloc_page` maps its page if it finds a frame and an entry. -/
theorem vmmAllocPage_serves (apart : s.Apart) (table : s.currentPageTable ≠ 0)
    (enough : 1 ≤ s.freeFrames.card) (zero : ¬ s.Free 0) (nonnull : s.kernelHeapEnd ≠ 0)
    (inside : s.kernelHeapEnd / pageSize + 1 ≤ entriesPerTable) :
    ∃ frame u, vmmAllocPage s = (s.kernelHeapEnd, u) ∧
      PagesMapped 0x3 s u s.kernelHeapEnd [frame] := by
  rcases allocFrame_cases apart.bounded with ⟨none, _⟩ | ⟨frame, fresh, _, result⟩
  · obtain ⟨page, member⟩ := Finset.card_pos.mp enough
    exact absurd (PmmState.mem_freeFrames.mp member) (none page)
  · have nonzero : frame ≠ 0 := by
      rintro rfl
      exact zero fresh
    obtain ⟨u, mapped, -, turn⟩ := turn_spec apart fresh nonzero (by decide : 0x3 < pageSize)
      table nonnull inside
    have pages := PagesMapped.snoc apart (PagesMapped.nil 0x3 s s.kernelHeapEnd) (.refl s) turn rfl
      inside (fun page => (and_iff_left List.not_mem_nil).symm) fresh
    refine ⟨frame, u, ?_, pages⟩
    rw [vmmAllocPage, if_neg table]
    simp only [result, myMemset_takeFrame_kernelHeapEnd]
    rw [if_neg (Nat.mul_ne_zero nonzero (by decide)), ← freshFrame, mapped]
    exact if_neg nonnull

theorem vmmAllocPage_maps (apart : s.Apart) (table : s.currentPageTable ≠ 0)
    (enough : 1 ≤ (s.freeFrames.erase 0).card) (can : s.CanMap 1) :
    Allocated 0x3 s 1 (vmmAllocPage s) := by
  obtain ⟨nonnull, inside, unmapped, zero⟩ := can
  obtain ⟨frame, u, result, pages⟩ := vmmAllocPage_serves apart table (card_erase_le enough) zero
    nonnull inside
  rw [result]
  exact ⟨nonnull, inside, unmapped, [frame], rfl, pages⟩

/-- What was found before a call that returned pages. -/
theorem canMap_of_result {flags : Nat} {result : Nat × VmmState}
    (allocated : Allocated flags s count result) (same : result.1 = s.kernelHeapEnd)
    (zero : ¬ s.Free 0) : s.CanMap count := by
  obtain ⟨nonnull, inside, unmapped, -⟩ := allocated
  rw [same] at nonnull inside unmapped
  exact ⟨nonnull, inside, unmapped, zero⟩

/-- Where there are frames, a call maps its pages exactly if it can. -/
theorem allocated_iff (apart : s.Apart) (table : s.currentPageTable ≠ 0) (positive : 1 ≤ count)
    (enough : count ≤ (s.freeFrames.erase 0).card) :
    (Allocated 0x7 s count (vmmAllocUserPages s count) ↔ s.CanMap count) ∧
      (Allocated 0x3 s 1 (vmmAllocPage s) ↔ s.CanMap 1) := by
  have bounded := apart.bounded
  refine ⟨⟨fun allocated => ?_, vmmAllocUserPages_maps apart table positive enough⟩,
    ⟨fun allocated => ?_, vmmAllocPage_maps apart table (positive.trans enough)⟩⟩
  · exact canMap_of_result allocated (vmmAllocUserPages_result allocated.nonnull).1
      fun free => allocated.nonnull (vmmAllocUserPages_zero bounded free count)
  · exact canMap_of_result allocated (vmmAllocPage_result allocated.nonnull).1
      fun free => allocated.nonnull (vmmAllocPage_zero bounded free)

end Success

/-! ## Runs -/

section Table

variable {s : VmmState}

theorem vmmFreePage_currentPageTable (s : VmmState) (addr : Nat) :
    (vmmFreePage s addr).currentPageTable = s.currentPageTable := by
  rcases vmmFreePage_cases s addr with same | ⟨_, _, _, freed⟩
  · rw [same]
  · rw [freed]
    rfl

theorem freePagesFrom_currentPageTable (base i remaining : Nat) (s : VmmState) :
    (freePagesFrom base i remaining s).currentPageTable = s.currentPageTable := by
  induction remaining generalizing i s with
  | zero => rfl
  | succ remaining ih => rw [freePagesFrom, ih, vmmFreePage_currentPageTable]

theorem vmmMapPage_currentPageTable (s : VmmState) (virt phys flags : Nat) :
    (vmmMapPage s virt phys flags).2.currentPageTable = s.currentPageTable := by
  rcases vmmMapPage_cases s virt phys flags with refused | ⟨_, _, accepted⟩
  · rw [refused]
  · rw [accepted]
    rfl

theorem rollback_currentPageTable (firstVirt i : Nat) (s : VmmState) :
    (if firstVirt ≠ 0 then freePagesFrom firstVirt 0 i s else s).currentPageTable =
      s.currentPageTable := by
  split
  · exact freePagesFrom_currentPageTable _ _ _ s
  · rfl

theorem allocUserFrom_currentPageTable (firstVirt i remaining : Nat) (s : VmmState) :
    (allocUserFrom firstVirt i remaining s).2.currentPageTable = s.currentPageTable := by
  induction remaining generalizing firstVirt i s with
  | zero => rfl
  | succ remaining ih =>
      rw [allocUserFrom]
      dsimp only
      split
      · exact rollback_currentPageTable _ _ _
      · split
        · refine (rollback_currentPageTable _ _ _).trans ?_
          exact vmmMapPage_currentPageTable _ _ _ _
        · refine (ih _ _ _).trans ?_
          exact vmmMapPage_currentPageTable _ _ _ _

theorem vmmAllocUserPages_currentPageTable (s : VmmState) (count : Nat) :
    (vmmAllocUserPages s count).2.currentPageTable = s.currentPageTable := by
  unfold vmmAllocUserPages
  split
  · rfl
  · exact allocUserFrom_currentPageTable _ _ _ s

theorem vmmUnmapPage_currentPageTable (s : VmmState) (virt : Nat) :
    (vmmUnmapPage s virt).currentPageTable = s.currentPageTable := by
  unfold vmmUnmapPage
  split
  · rfl
  · split <;> rfl

theorem vmmAllocPage_currentPageTable (s : VmmState) :
    (vmmAllocPage s).2.currentPageTable = s.currentPageTable := by
  unfold vmmAllocPage
  split
  · rfl
  · dsimp only
    split
    · rfl
    · split
      · exact vmmMapPage_currentPageTable _ _ _ _
      · exact vmmMapPage_currentPageTable _ _ _ _

/-- No call moves the page table. -/
theorem perform_currentPageTable (s : VmmState) (call : VmmCall) :
    (call.perform s).currentPageTable = s.currentPageTable := by
  cases call with
  | pmmAllocPage => rfl
  | allocPage => exact vmmAllocPage_currentPageTable s
  | freePage addr => exact vmmFreePage_currentPageTable s addr
  | mapPage virt phys flags => exact vmmMapPage_currentPageTable s virt phys flags
  | unmapPage virt => exact vmmUnmapPage_currentPageTable s virt
  | allocUserPages count => exact vmmAllocUserPages_currentPageTable s count
  | allocStack pages =>
      rw [VmmCall.perform, vmmAllocStack]
      split
      · rfl
      · dsimp only
        split
        · exact vmmAllocUserPages_currentPageTable s _
        · exact (vmmUnmapPage_currentPageTable _ _).trans (vmmAllocUserPages_currentPageTable s _)
  | freePagesRegion base count =>
      rw [VmmCall.perform, vmmFreePagesRegion]
      split
      · rfl
      · exact freePagesFrom_currentPageTable _ _ _ s

end Table

/-- **When virtual pages are allocated.** In every run of calls that respect the ownership of
frames, from a state that `vmm_init` leaves ready, a call for as many pages as there are free
frames maps them exactly if `kernel_heap_end` has come to pages of the page table that are not
mapped, and frame zero is not free. -/
theorem vmmAlloc_maps_iff {memmap carved : Memmap} {s start t : VmmState} {init : PmmState}
    {calls : List VmmCall} {count : Nat}
    (physical : pmmInit memmap s.toPmmState = some (init, carved))
    (virtual : vmmInit memmap s = some start) (ready : VmmReady start)
    (run : Run (Guarded (CallOwned init) VmmStep) start calls t) (positive : 1 ≤ count)
    (enough : count ≤ (t.freeFrames.erase 0).card) :
    (Allocated 0x7 t count (vmmAllocUserPages t count) ↔ t.CanMap count) ∧
      (Allocated 0x3 t 1 (vmmAllocPage t) ↔ t.CanMap 1) := by
  rw [vmmInit_of_pmmInit physical] at virtual
  cases virtual
  have keeps : ∀ source call target, source.Owned init ∧ source.currentPageTable ≠ 0 →
      Guarded (CallOwned init) VmmStep source call target →
      target.Owned init ∧ target.currentPageTable ≠ 0 := by
    rintro source call target ⟨owned, table⟩ step
    refine ⟨VmmStep.owned owned step, ?_⟩
    obtain ⟨-, -, rfl⟩ := step
    rw [perform_currentPageTable]
    exact table
  obtain ⟨owned, table⟩ := run.invariant keeps ⟨ready.owned, ready.table⟩
  exact allocated_iff owned.apart table positive enough

/-- After `vmm_init` under `highMap` a frame is left. -/
theorem highMap_enough {s : VmmState} (total : s.totalPages = 517) (bitmap : s.bitmap = 0x200000)
    (size : s.bitmapSize = 65) (free : ∀ page, s.Free page ↔ 513 ≤ page ∧ page < 517) :
    1 ≤ ((buildPageTable s).freeFrames.erase 0).card := by
  have ready := vmmReady_high total bitmap size free
  obtain ⟨-, -, -, taken, length, kept⟩ := buildPageTable_spec ready.table ready.apart.toSeparate
  have untaken : ∃ page ∈ Finset.Ico 513 517, page ∉ taken.toFinset := by
    apply Finset.exists_mem_notMem_of_card_lt_card
    have bound := taken.toFinset_card_le
    rw [Nat.card_Ico]
    omega
  obtain ⟨page, member, unlisted⟩ := untaken
  obtain ⟨low, high⟩ := Finset.mem_Ico.mp member
  rw [List.mem_toFinset] at unlisted
  have left := kept page ((free page).mpr ⟨low, high⟩) unlisted
  refine Finset.card_pos.mpr ⟨page, Finset.mem_erase.mpr ⟨by omega, ?_⟩⟩
  exact PmmState.mem_freeFrames.mpr left

theorem vmmAlloc_maps_highMap :
    ∃ init carved start, pmmInit highMap clearBoot.toPmmState = some (init, carved) ∧
      vmmInit highMap clearBoot = some start ∧
      (Allocated 0x7 start 1 (vmmAllocUserPages start 1) ↔ start.CanMap 1) ∧
      (Allocated 0x3 start 1 (vmmAllocPage start) ↔ start.CanMap 1) := by
  obtain ⟨init, carved, physical, total, bitmap, size, free⟩ := highMap_pmmInit
  have virtual := vmmInit_of_pmmInit physical
  have ready : VmmReady (buildPageTable { clearBoot with toPmmState := init }) :=
    vmmReady_high total bitmap size free
  have enough := highMap_enough (s := { clearBoot with toPmmState := init }) total bitmap size free
  exact ⟨init, carved, _, physical, virtual,
    vmmAlloc_maps_iff physical virtual ready (.nil _) le_rfl enough⟩

theorem identityMap_kernelHeapEnd (s : VmmState) (count : Nat) :
    (s.identityMap count).kernelHeapEnd = s.kernelHeapEnd := by
  induction count with
  | zero => rfl
  | succ count ih => exact ih

theorem installTable_kernelHeapEnd (s : VmmState) (table : Nat) :
    (installTable s table).kernelHeapEnd = s.kernelHeapEnd := by
  generalize cleared :
    ({ s with currentPageTable := table } : VmmState).myMemset table 0 16 = v
  have vHeap : v.kernelHeapEnd = s.kernelHeapEnd := by
    rw [← cleared, myMemset_kernelHeapEnd]
  obtain ⟨entries, w, allocated, wHeap⟩ : ∃ entries w, v.allocFrame = (entries, w) ∧
      w.kernelHeapEnd = v.kernelHeapEnd := ⟨_, _, rfl, rfl⟩
  generalize named : (w.setEntries entries).myMemset (w.setEntries entries).entries 0 pageSize = y
  have yHeap : y.kernelHeapEnd = w.kernelHeapEnd := by
    rw [← named, myMemset_kernelHeapEnd, setEntries_kernelHeapEnd]
  have unfolded : installTable s table = y.identityMap entriesPerTable := by
    rw [installTable]
    simp only [cleared, allocated, named]
  rw [unfolded, identityMap_kernelHeapEnd, yHeap, wHeap, vHeap]

/-- `vmm_init` does not move the virtual heap. -/
theorem buildPageTable_kernelHeapEnd (s : VmmState) :
    (buildPageTable s).kernelHeapEnd = s.kernelHeapEnd := by
  obtain ⟨t, table, same, halves⟩ : ∃ t table, t.kernelHeapEnd = s.kernelHeapEnd ∧
      buildPageTable s = installTable t table := ⟨_, _, rfl, buildPageTable_eq s⟩
  rw [halves, installTable_kernelHeapEnd, same]

/-- Right after `vmm_init`, with a frame free, no page can be had. -/
theorem vmmAlloc_fails_highMap :
    ¬ ∀ (memmap : Memmap) (s start t : VmmState) (calls : List VmmCall) (count : Nat),
      vmmInit memmap s = some start → s.kernelHeapEnd = vmmHeapStart → Run VmmStep start calls t →
      1 ≤ count → count ≤ (t.freeFrames.erase 0).card →
      Allocated 0x7 t count (vmmAllocUserPages t count) ∧ Allocated 0x3 t 1 (vmmAllocPage t) := by
  intro claim
  obtain ⟨init, carved, physical, total, bitmap, size, free⟩ := highMap_pmmInit
  have virtual := vmmInit_of_pmmInit physical
  have enough := highMap_enough (s := { clearBoot with toPmmState := init }) total bitmap size free
  have heapEnd := buildPageTable_kernelHeapEnd { clearBoot with toPmmState := init }
  obtain ⟨-, one⟩ := claim highMap clearBoot _ _ [] 1 virtual rfl (.nil _) le_rfl enough
  have inside := (vmmAllocPage_result one.nonnull).2.2
  have first : ({ clearBoot with toPmmState := init } : VmmState).kernelHeapEnd = vmmHeapStart := rfl
  rw [heapEnd, first] at inside
  exact absurd inside (by decide)

end NTux.Mem
