import NTux.Mem.FrameOwnership
import NTux.Mem.PmmSoundness

/-! # Frames over whole runs of the memory manager

What `vmm_init` leaves behind (`buildPageTable_spec`), the calls made on the memory
manager after it (`VmmCall`) and the condition on them under which page table and
allocator agree over every run (`vmmFrames_kept`).
-/

namespace NTux.Mem

open NTux.Foundation Memory VmmState

/-! ## The identity map -/

section IdentityMap

variable {s : VmmState} {count page : Nat}

theorem identityMap_place (apart : Disjoint s.headerBlock s.entriesBlock)
    (bound : count ≤ entriesPerTable) : s.SamePlace (s.identityMap count) := by
  induction count with
  | zero => exact .refl s
  | succ count ih =>
      have before := ih (Nat.le_of_succ_le bound)
      refine before.trans (setPte_samePlace ?_ bound)
      rw [headerBlock, entriesBlock, before.header, before.entries]
      exact apart

theorem identityMap_free (separate : s.Separate) (bound : count ≤ entriesPerTable) :
    (s.identityMap count).Free page ↔ s.Free page := by
  induction count with
  | zero => exact Iff.rfl
  | succ count ih =>
      have earlier := Nat.le_of_succ_le bound
      have before := separate.of_samePlace (identityMap_place separate.header_entries earlier)
      rw [← ih earlier]
      exact free_setPte before bound

/-- The identity map refers to every frame it covers. -/
theorem identityMap_pte (separate : s.Separate) (bound : count ≤ entriesPerTable)
    (covered : page < count) : (s.identityMap count).pte page = page * pageSize + 3 := by
  induction count with
  | zero => exact absurd covered (Nat.not_lt_zero page)
  | succ count ih =>
      have earlier := Nat.le_of_succ_le bound
      have before := separate.of_samePlace (identityMap_place separate.header_entries earlier)
      rw [identityMap, pte_setPte before.header_entries bound]
      by_cases last : page = count
      · rw [if_pos last, last, pteValue_eq]
        · simp only [pageSize]
          omega
        · simp only [pageSize, entriesPerTable] at bound ⊢
          omega
      · rw [if_neg last]
        exact ih earlier (by omega)

end IdentityMap

/-! ## What `vmm_init` leaves behind -/

section BuildPageTable

variable {s : VmmState}

/-- The pages `vmm_init` takes and gives back for a test leave it the lowest free
frame for its page table; the second one is lost. -/
theorem testPages_spec (bounded : s.totalPages ≤ 2 ^ 52) {address : Nat} {t : VmmState}
    (result : ((s.allocFrame.2.allocFrame.2).freeFrame s.allocFrame.1).allocFrame = (address, t)) :
    (address = 0 ∧ ((∀ page, ¬ s.Free page) ∨ s.Free 0)) ∨
      ∃ frame second, frame ≠ 0 ∧ s.Free frame ∧ address = frame * pageSize ∧
        (∀ page, t.Free page → s.Free page ∧ page ≠ frame) ∧
        ∀ page, s.Free page → page ≠ frame → page ≠ second → t.Free page := by
  rcases allocFrame_cases bounded with ⟨none, first⟩ | ⟨frame, free, least, first⟩
  · -- no free frame: frame zero is all that may have become free
    refine .inl ⟨?_, .inl none⟩
    simp only [first] at result
    rcases allocFrame_cases (s := s.freeFrame 0)
      ((s.freeFrame_bitWrite 0).layout.totalPages ▸ bounded) with ⟨_, last⟩ | ⟨page, given, _, last⟩
    · rw [last] at result
      cases result
      rfl
    · rw [last] at result
      cases result
      rcases free_freeFrame.mp given with known | ⟨zero, _⟩
      · exact absurd known (none page)
      · rw [zero]
        rfl
  · simp only [first] at result
    have takenLayout := (s.takeFrame_bitWrite frame).layout
    obtain ⟨u, second, tested, layout, uFree, keptFree⟩ :
        ∃ (u : VmmState) (second : Nat), (s.takeFrame frame).allocFrame.2 = u ∧
          s.toPmmState.SameLayout u.toPmmState ∧
          (∀ page, u.Free page → s.Free page ∧ page ≠ frame) ∧
          ∀ page, s.Free page → page ≠ frame → page ≠ second → u.Free page := by
      rcases allocFrame_cases (s := s.takeFrame frame) (takenLayout.totalPages ▸ bounded) with
        ⟨_, other⟩ | ⟨page, _, _, other⟩
      · rw [other]
        exact ⟨_, frame, rfl, takenLayout, fun page => s.toPmmState.free_take.mp,
          fun page known different _ => s.toPmmState.free_take.mpr ⟨known, different⟩⟩
      · rw [other]
        refine ⟨_, page, rfl, takenLayout.trans ((s.takeFrame frame).takeFrame_bitWrite page).layout,
          fun page known => ?_, fun other known different unlost => ?_⟩
        · exact s.toPmmState.free_take.mp ((s.takeFrame frame).toPmmState.free_take.mp known).1
        · exact (s.takeFrame frame).toPmmState.free_take.mpr
            ⟨s.toPmmState.free_take.mpr ⟨known, different⟩, unlost⟩
    rw [tested] at result
    have address_eq : frame * pageSize / pageSize = frame := Nat.mul_div_cancel _ (by decide)
    have backLayout := layout.trans (u.freeFrame_bitWrite (frame * pageSize)).layout
    have given : (u.freeFrame (frame * pageSize)).Free frame := by
      rw [free_freeFrame, address_eq]
      exact .inr ⟨rfl, by rw [layout.totalPages]; exact free.1⟩
    rcases allocFrame_cases (s := u.freeFrame (frame * pageSize))
      (backLayout.totalPages ▸ bounded) with ⟨none, _⟩ | ⟨lowest, known, below, last⟩
    · exact absurd given (none frame)
    · rw [last] at result
      cases result
      have same : lowest = frame := by
        rw [free_freeFrame, address_eq] at known
        rcases known with known | ⟨same, _⟩
        · have := least lowest (uFree lowest known).1
          have := below frame given
          omega
        · exact same
      subst same
      by_cases zero : lowest = 0
      · subst zero
        exact .inl ⟨rfl, .inr free⟩
      · refine .inr ⟨lowest, second, zero, free, rfl, fun page known => ?_,
          fun page known different unlost => ?_⟩
        · obtain ⟨known, different⟩ := (PmmState.free_take _).mp known
          rw [free_freeFrame, address_eq] at known
          rcases known with known | ⟨same, _⟩
          · exact uFree page known
          · exact absurd same different
        · exact (PmmState.free_take _).mpr
            ⟨free_freeFrame.mpr (.inl (keptFree page known different unlost)), different⟩

/-- The second half of `vmm_init`, from the frame of its page table on. -/
def installTable (s : VmmState) (table : Nat) : VmmState :=
  let s := ({ s with currentPageTable := table } : VmmState).myMemset table 0 16
  let (entries, s) := s.allocFrame
  let s := s.setEntries entries
  let s := s.myMemset s.entries 0 pageSize
  s.identityMap entriesPerTable

theorem buildPageTable_eq (s : VmmState) :
    buildPageTable s =
      installTable (((s.allocFrame.2.allocFrame.2).freeFrame s.allocFrame.1).allocFrame).2
        (((s.allocFrame.2.allocFrame.2).freeFrame s.allocFrame.1).allocFrame).1 :=
  rfl

/-- The header lies at the start of its frame. -/
theorem header_subset (frame : Nat) : block (frame * pageSize) 16 ⊆ frameBlock frame :=
  Set.Ico_subset_Ico_right (by simp only [pageSize]; omega)

/-- The page table once its header and its cleared entries are in place. -/
theorem clearedTable_spec {frame entriesFrame : Nat} (different : entriesFrame ≠ frame)
    (small : entriesFrame < 2 ^ 52) (header : s.currentPageTable = frame * pageSize) {t : VmmState}
    (cleared : t = (s.setEntries (entriesFrame * pageSize)).myMemset
      (s.setEntries (entriesFrame * pageSize)).entries 0 pageSize) :
    s.toPmmState.SameLayout t.toPmmState ∧ t.currentPageTable = frame * pageSize ∧
      t.entries = entriesFrame * pageSize ∧
      ∀ region, Disjoint region (block (frame * pageSize) 16) →
        Disjoint region (frameBlock entriesFrame) → Set.EqOn t.mem s.mem region := by
  have value : entriesFrame * pageSize < 2 ^ 64 := by
    simp only [pageSize]
    omega
  rw [entries_setEntries value] at cleared
  have kept : ∀ region, Disjoint region (frameBlock entriesFrame) →
      Set.EqOn t.mem (s.setEntries (entriesFrame * pageSize)).mem region := by
    rw [cleared]
    exact fun _ away => myMemset_mem_eqOn away
  have place : t.currentPageTable = s.currentPageTable := by
    rw [cleared, myMemset_currentPageTable, setEntries_currentPageTable]
  refine ⟨?_, place.trans header, ?_, fun region offHeader offEntries => ?_⟩
  · rw [cleared]
    exact setEntries_sameLayout.trans myMemset_sameLayout
  · rw [← entries_setEntries (s := s) value, VmmState.entries, VmmState.entries, place,
      setEntries_currentPageTable]
    apply readLE_congr
    apply kept
    rw [header]
    exact (frameBlock_disjoint different.symm).mono_left
      ((Set.Ico_subset_Ico_right (by omega)).trans (header_subset frame))
  · refine (kept region offEntries).trans (setEntries_mem_eqOn ?_)
    rw [headerBlock, header]
    exact offHeader

/-- The frame for the entries, or frame zero when there is none. -/
theorem entriesFrame_spec (bounded : s.totalPages ≤ 2 ^ 52) :
    ∃ frame t, s.allocFrame = (frame * pageSize, t) ∧ frame < 2 ^ 52 ∧
      s.toPmmState.SameLayout t.toPmmState ∧ t.currentPageTable = s.currentPageTable ∧
      (∀ page, t.Free page ↔ s.Free page ∧ page ≠ frame) ∧
      (s.Free frame ∨ (frame = 0 ∧ ∀ page, ¬ s.Free page)) := by
  rcases allocFrame_cases bounded with ⟨none, result⟩ | ⟨page, free, _, result⟩
  · exact ⟨0, s, by rw [result, Nat.zero_mul], by decide, .refl _, rfl,
      fun page => ⟨fun known => absurd known (none page), And.left⟩, .inr ⟨rfl, none⟩⟩
  · exact ⟨page, _, result, free.1.trans_le bounded, (s.takeFrame_bitWrite page).layout, rfl,
      fun _ => s.toPmmState.free_take, .inl free⟩

theorem identityMap_fixed (s : VmmState) (count : Nat) :
    s.toPmmState.SameLayout (s.identityMap count).toPmmState ∧
      (s.identityMap count).currentPageTable = s.currentPageTable := by
  induction count with
  | zero => exact ⟨.refl _, rfl⟩
  | succ count ih => exact ⟨ih.1.trans (setPte_sameLayout _ _ _ _), ih.2⟩

theorem allocFrame_sameLayout (s : VmmState) :
    s.toPmmState.SameLayout s.allocFrame.2.toPmmState :=
  pmmAllocPage_sameLayout s.toPmmState

/-- Where `vmm_init` keeps its page table and its entries. If the entries stay clear of
the bitmap, it makes no frame free and maps the first 512 frames. -/
theorem installTable_spec {frame : Nat} (bounded : s.totalPages ≤ 2 ^ 52)
    (covers : s.totalPages < 8 * s.bitmapSize) (nonzero : frame ≠ 0) (used : ¬ s.Free frame)
    (bitmapHeader : Disjoint s.bitmapBlock (block (frame * pageSize) 16)) {t : VmmState}
    (target : installTable s (frame * pageSize) = t) :
    ∃ entriesFrame, entriesFrame ≠ frame ∧
      (s.Free entriesFrame ∨ (entriesFrame = 0 ∧ ∀ page, ¬ s.Free page)) ∧
      t.entries = entriesFrame * pageSize ∧
      (Disjoint s.bitmapBlock (frameBlock entriesFrame) →
        (∀ page, t.Free page ↔ s.Free page ∧ page ≠ entriesFrame) ∧
        ∀ page < entriesPerTable, t.pte page = page * pageSize + 3) := by
  generalize cleared : ({ s with currentPageTable := frame * pageSize } : VmmState).myMemset
    (frame * pageSize) 0 16 = v
  have vLayout : s.toPmmState.SameLayout v.toPmmState := by
    rw [← cleared]
    exact ⟨rfl, rfl, rfl⟩
  have vHeader : v.currentPageTable = frame * pageSize := by
    rw [← cleared, myMemset_currentPageTable]
  obtain ⟨entriesFrame, w, allocated, small, layout, header, wFree, origin⟩ :=
    entriesFrame_spec (s := v) (vLayout.totalPages ▸ bounded)
  rw [vHeader] at header
  generalize named : (w.setEntries (entriesFrame * pageSize)).myMemset
    (w.setEntries (entriesFrame * pageSize)).entries 0 pageSize = y
  have target' : t = y.identityMap entriesPerTable := by
    rw [← target, ← named, installTable]
    simp only [cleared, allocated]
  have vFree : ∀ page, v.Free page ↔ s.Free page := by
    intro page
    apply free_of_eqOn covers vLayout
    rw [← cleared]
    exact myMemset_mem_eqOn bitmapHeader
  simp only [vFree] at wFree origin
  have different : entriesFrame ≠ frame := by
    rintro rfl
    rcases origin with free | ⟨zero, _⟩
    · exact used free
    · exact nonzero zero
  obtain ⟨yLayout, yHeader, yEntries, yKept⟩ := clearedTable_spec different small header named.symm
  have yApart : Disjoint y.headerBlock y.entriesBlock := by
    rw [headerBlock, entriesBlock, yHeader, yEntries]
    exact (frameBlock_disjoint different.symm).mono_left (header_subset frame)
  have place : y.SamePlace t := by
    rw [target']
    exact identityMap_place yApart le_rfl
  refine ⟨entriesFrame, different, origin, place.entries.trans yEntries, fun bitmapEntries => ?_⟩
  have wLayout := vLayout.trans layout
  have wholeLayout := wLayout.trans yLayout
  have wBitmap : w.bitmapBlock = s.bitmapBlock := by
    rw [bitmapBlock, wLayout.bitmap, wLayout.bitmapSize]
  have yBitmap : y.bitmapBlock = s.bitmapBlock := by
    rw [bitmapBlock, wholeLayout.bitmap, wholeLayout.bitmapSize]
  have ySeparate : y.Separate := by
    refine ⟨?_, ?_, ?_, ?_, yApart⟩
    · rw [wholeLayout.totalPages, wholeLayout.bitmapSize]
      exact covers
    · rw [wholeLayout.totalPages]
      exact bounded
    · rw [yBitmap, headerBlock, yHeader]
      exact bitmapHeader
    · rw [yBitmap, entriesBlock, yEntries]
      exact bitmapEntries
  have yFree : ∀ page, y.Free page ↔ w.Free page := by
    intro page
    apply free_of_eqOn (by rw [wLayout.totalPages, wLayout.bitmapSize]; exact covers) yLayout
    rw [wBitmap]
    exact yKept _ bitmapHeader bitmapEntries
  refine ⟨fun page => ?_, fun page low => ?_⟩
  · rw [target', identityMap_free ySeparate le_rfl, yFree]
    exact wFree page
  · rw [target']
    exact identityMap_pte ySeparate le_rfl low

theorem installTable_fixed (s : VmmState) (table : Nat) :
    s.toPmmState.SameLayout (installTable s table).toPmmState ∧
      (installTable s table).currentPageTable = table := by
  generalize cleared :
    ({ s with currentPageTable := table } : VmmState).myMemset table 0 16 = v
  have vLayout : s.toPmmState.SameLayout v.toPmmState := by
    rw [← cleared]
    exact ⟨rfl, rfl, rfl⟩
  have vHeader : v.currentPageTable = table := by
    rw [← cleared, myMemset_currentPageTable]
  obtain ⟨entries, w, allocated, layout, header⟩ : ∃ entries w, v.allocFrame = (entries, w) ∧
      v.toPmmState.SameLayout w.toPmmState ∧ w.currentPageTable = v.currentPageTable :=
    ⟨_, _, rfl, allocFrame_sameLayout v, rfl⟩
  generalize named : (w.setEntries entries).myMemset (w.setEntries entries).entries 0 pageSize = y
  have unfolded : installTable s table = y.identityMap entriesPerTable := by
    rw [installTable]
    simp only [cleared, allocated, named]
  have yLayout : w.toPmmState.SameLayout y.toPmmState := by
    rw [← named]
    exact setEntries_sameLayout.trans myMemset_sameLayout
  have yHeader : y.currentPageTable = table := by
    rw [← named, myMemset_currentPageTable, setEntries_currentPageTable, header, vHeader]
  obtain ⟨tLayout, tHeader⟩ := identityMap_fixed y entriesPerTable
  rw [unfolded]
  exact ⟨((vLayout.trans layout).trans yLayout).trans tLayout, tHeader.trans yHeader⟩

/-- The two halves of `vmm_init`: the frame of the page table, and what is done with it. -/
theorem buildPageTable_halves (s : VmmState) :
    ∃ table t, ((s.allocFrame.2.allocFrame.2).freeFrame s.allocFrame.1).allocFrame = (table, t) ∧
      s.toPmmState.SameLayout t.toPmmState ∧ buildPageTable s = installTable t table :=
  ⟨_, _, rfl,
    (((allocFrame_sameLayout s).trans (allocFrame_sameLayout _)).trans
      (freeFrame_bitWrite _ _).layout).trans (allocFrame_sameLayout _),
    buildPageTable_eq s⟩

/-- If `vmm_init` gets a page table and its tables end up apart from each other, it
makes no frame free, takes three at most and maps the first 512 frames. -/
theorem buildPageTable_spec (ready : (buildPageTable s).currentPageTable ≠ 0)
    (separate : (buildPageTable s).Separate) :
    (buildPageTable s).totalPages = s.totalPages ∧
      (∀ page, (buildPageTable s).Free page → s.Free page) ∧
      (∀ page < entriesPerTable, (buildPageTable s).pte page = page * pageSize + 3) ∧
      ∃ taken : List Nat, taken.length = 3 ∧
        ∀ page, s.Free page → page ∉ taken → (buildPageTable s).Free page := by
  obtain ⟨table, t, taken, layout, built⟩ := buildPageTable_halves s
  obtain ⟨installed, header⟩ := installTable_fixed t table
  rw [built] at ready separate ⊢
  rw [header] at ready
  have bounded : t.totalPages ≤ 2 ^ 52 := by
    rw [← installed.totalPages]
    exact separate.bounded
  have covers : t.totalPages < 8 * t.bitmapSize := by
    rw [← installed.totalPages, ← installed.bitmapSize]
    exact separate.covers
  rcases testPages_spec (layout.totalPages ▸ bounded) taken with
    ⟨null, _⟩ | ⟨frame, second, nonzero, _, rfl, tFree, tKept⟩
  · exact absurd null ready
  · have bitmapHeader := separate.bitmap_header
    rw [bitmapBlock, headerBlock, installed.bitmap, installed.bitmapSize, header] at bitmapHeader
    obtain ⟨entriesFrame, -, -, entries, kept⟩ := installTable_spec bounded covers nonzero
      (fun known => (tFree frame known).2 rfl) bitmapHeader rfl
    have bitmapEntries := separate.bitmap_entries
    rw [bitmapBlock, entriesBlock, installed.bitmap, installed.bitmapSize, entries] at bitmapEntries
    obtain ⟨free, mapped⟩ := kept bitmapEntries
    refine ⟨installed.totalPages.trans layout.totalPages,
      fun page known => (tFree page ((free page).mp known).1).1, mapped,
      [frame, second, entriesFrame], rfl, fun page known untaken => ?_⟩
    simp only [List.mem_cons, List.not_mem_nil, or_false, not_or] at untaken
    exact (free page).mpr ⟨tKept page known untaken.1 untaken.2.1, untaken.2.2⟩

/-- `vmm_init` gets its tables apart from each other if it finds three free frames, all
apart from the bitmap and none of them frame zero. -/
theorem buildPageTable_apart (bounded : s.totalPages ≤ 2 ^ 52)
    (covers : s.totalPages < 8 * s.bitmapSize) (zero : ¬ s.Free 0)
    (clear : ∀ page, s.Free page → Disjoint s.bitmapBlock (frameBlock page))
    (three : ∀ first second, ∃ page, s.Free page ∧ page ≠ first ∧ page ≠ second) :
    (buildPageTable s).currentPageTable ≠ 0 ∧ (buildPageTable s).Apart := by
  obtain ⟨table, t, taken, layout, built⟩ := buildPageTable_halves s
  obtain ⟨installed, header⟩ := installTable_fixed t table
  rw [built]
  rcases testPages_spec bounded taken with
    ⟨_, none | free⟩ | ⟨frame, second, nonzero, frameFree, rfl, tFree, tKept⟩
  · obtain ⟨page, free, _⟩ := three 0 0
    exact absurd free (none page)
  · exact absurd free zero
  · have tBounded : t.totalPages ≤ 2 ^ 52 := layout.totalPages ▸ bounded
    have tCovers : t.totalPages < 8 * t.bitmapSize := by
      rw [layout.totalPages, layout.bitmapSize]
      exact covers
    have tBitmap : t.bitmapBlock = s.bitmapBlock := by
      rw [bitmapBlock, layout.bitmap, layout.bitmapSize]
    have bitmapHeader : Disjoint t.bitmapBlock (block (frame * pageSize) 16) := by
      rw [tBitmap]
      exact (clear frame frameFree).mono_right (header_subset frame)
    obtain ⟨entriesFrame, different, origin, entries, kept⟩ := installTable_spec tBounded tCovers
      nonzero (fun known => (tFree frame known).2 rfl) bitmapHeader rfl
    obtain ⟨third, thirdFree, unframe, unlost⟩ := three frame second
    have entriesFree : s.Free entriesFrame := by
      rcases origin with free | ⟨_, none⟩
      · exact (tFree entriesFrame free).1
      · exact absurd (tKept third thirdFree unframe unlost) (none third)
    have bitmapEntries : Disjoint t.bitmapBlock (frameBlock entriesFrame) := by
      rw [tBitmap]
      exact clear entriesFrame entriesFree
    obtain ⟨free, _⟩ := kept bitmapEntries
    have target : (installTable t (frame * pageSize)).bitmapBlock = t.bitmapBlock := by
      rw [bitmapBlock, installed.bitmap, installed.bitmapSize]
    refine ⟨?_, ⟨?_, ?_, ?_, ?_, ?_⟩, fun page known => ?_⟩
    · rw [header]
      exact Nat.mul_ne_zero nonzero (by decide)
    · rw [installed.totalPages, installed.bitmapSize]
      exact tCovers
    · rw [installed.totalPages]
      exact tBounded
    · rw [target, headerBlock, header]
      exact bitmapHeader
    · rw [target, entriesBlock, entries]
      exact bitmapEntries
    · rw [headerBlock, entriesBlock, header, entries]
      exact (frameBlock_disjoint different.symm).mono_left (header_subset frame)
    · obtain ⟨tPage, unentries⟩ := (free page).mp known
      obtain ⟨sPage, untable⟩ := tFree page tPage
      rw [tables, target, tBitmap, headerBlock, entriesBlock, header, entries,
        Set.disjoint_union_right, Set.disjoint_union_right]
      exact ⟨(clear page sPage).symm,
        (frameBlock_disjoint untable).mono_right (header_subset frame),
        frameBlock_disjoint unentries⟩

end BuildPageTable

/-! ## Runs of the memory manager -/

/-- The calls made on the memory manager once it is initialized. -/
inductive VmmCall where
  | pmmAllocPage
  | allocPage
  | freePage (addr : Nat)
  | mapPage (virt phys flags : Nat)
  | unmapPage (virt : Nat)
  | allocUserPages (count : Nat)
  | allocStack (pages : Nat)
  | freePagesRegion (base count : Nat)
  deriving DecidableEq, Repr

/-- The state a call leaves behind. -/
def VmmCall.perform (s : VmmState) : VmmCall → VmmState
  | pmmAllocPage => s.allocFrame.2
  | allocPage => (vmmAllocPage s).2
  | freePage addr => vmmFreePage s addr
  | mapPage virt phys flags => (vmmMapPage s virt phys flags).2
  | unmapPage virt => vmmUnmapPage s virt
  | allocUserPages count => (vmmAllocUserPages s count).2
  | allocStack pages => (vmmAllocStack s pages).2
  | freePagesRegion base count => vmmFreePagesRegion s base count

/-- Physical addresses are 64-bit numbers. -/
def VmmCall.Wide : VmmCall → Prop
  | mapPage _ phys _ => phys < 2 ^ 64
  | _ => True

/-- One call. -/
def VmmStep (s : VmmState) (call : VmmCall) (t : VmmState) : Prop :=
  call.Wide ∧ t = call.perform s

/-- The calls that respect the ownership of frames: a frame that is mapped is not free,
and a frame that is freed was handed out by the allocator, is mapped nowhere else and
holds none of the memory manager's own data. -/
def CallOwned (base : PmmState) (s : VmmState) : VmmCall → Prop
  | .mapPage _ phys flags => s.Mappable phys flags
  | .freePage addr => s.Freeable base addr
  | .freePagesRegion virt count => virt ≠ 0 → FreeableFrom base virt 0 count s
  | _ => True

/-- One call keeps the frames owned. -/
theorem VmmStep.owned {base : PmmState} {s t : VmmState} {call : VmmCall} (owned : s.Owned base)
    (step : Guarded (CallOwned base) VmmStep s call t) : t.Owned base := by
  obtain ⟨allowed, wide, rfl⟩ := step
  cases call with
  | pmmAllocPage =>
      rw [VmmCall.perform]
      rcases allocFrame_cases owned.apart.bounded with ⟨_, result⟩ | ⟨frame, free, _, result⟩
      · rw [result]
        exact owned
      · rw [result]
        exact owned.takeFrame free
  | allocPage => exact vmmAllocPage_owned owned
  | freePage addr => exact (vmmFreePage_owned owned allowed).1
  | mapPage virt phys flags => exact vmmMapPage_owned owned wide allowed
  | unmapPage virt => exact vmmUnmapPage_owned owned virt
  | allocUserPages count => exact vmmAllocUserPages_owned owned count
  | allocStack pages => exact vmmAllocStack_owned owned pages
  | freePagesRegion base count => exact vmmFreePagesRegion_owned owned allowed

/-- Page table and allocator agree: no frame that a present entry refers to is free,
and what was not free when `pmm_init` returned has not become so. -/
structure FramesKept (init : PmmState) (s : VmmState) : Prop where
  mapped : ∀ page < entriesPerTable, s.Present page → ¬ s.Free (s.frameOf page)
  reserved : ∀ frame, s.Free frame → init.Free frame

/-- What `vmm_init` has to leave behind for this: a page table, its own data apart from
each other and from the free frames, and none of the frames it maps free. -/
structure VmmReady (start : VmmState) : Prop where
  table : start.currentPageTable ≠ 0
  apart : start.Apart
  unmapped : ∀ page < entriesPerTable, ¬ start.Free page

theorem VmmReady.owned {s : VmmState} (ready : VmmReady (buildPageTable s)) :
    (buildPageTable s).Owned s.toPmmState := by
  obtain ⟨totalPages, free, pte, -⟩ := buildPageTable_spec ready.table ready.apart.toSeparate
  refine ⟨ready.apart, totalPages, fun page low _ => ?_, free⟩
  have identity : (page * pageSize + 3) / pageSize = page := by
    simp only [pageSize]
    omega
  rw [frameOf, pte page low, identity]
  exact ready.unmapped page low

theorem vmmInit_of_pmmInit {memmap carved : Memmap} {s : VmmState} {init : PmmState}
    (physical : pmmInit memmap s.toPmmState = some (init, carved)) :
    vmmInit memmap s = some (buildPageTable { s with toPmmState := init }) := by
  rw [vmmInit, physical, Option.map_some]

/-- **Frames stay with their owner.** From a state that `vmm_init` leaves ready, every
run of calls that respect the ownership of frames keeps page table and allocator in
agreement. -/
theorem vmmFrames_kept {memmap carved : Memmap} {s start t : VmmState} {init : PmmState}
    {calls : List VmmCall} (physical : pmmInit memmap s.toPmmState = some (init, carved))
    (virtual : vmmInit memmap s = some start) (ready : VmmReady start)
    (run : Run (Guarded (CallOwned init) VmmStep) start calls t) : FramesKept init t := by
  rw [vmmInit_of_pmmInit physical] at virtual
  cases virtual
  have owned : t.Owned init :=
    run.invariant (fun _ _ _ owned step => VmmStep.owned owned step) ready.owned
  exact ⟨owned.mapped, owned.origin⟩

/-- Five pages of usable memory above the identity map, the first one for the bitmap. -/
def highMap : Memmap := [⟨0x200000, 0x1000, .usable⟩, ⟨0x201000, 0x4000, .usable⟩]

/-- The memory manager before `vmm_init`, in cleared memory. -/
def clearBoot : VmmState := .boot fun _ => 0

theorem highMap_pmmInit : ∃ init carved, pmmInit highMap clearBoot.toPmmState = some (init, carved) ∧
    init.totalPages = 517 ∧ init.bitmap = 0x200000 ∧ init.bitmapSize = 65 ∧
    ∀ page, init.Free page ↔ 513 ≤ page ∧ page < 517 := by
  have values : (pmmInit highMap clearBoot.toPmmState).map (fun result =>
      (result.1.totalPages, result.1.bitmap, result.1.bitmapSize,
        (List.range 517).filter fun page => !result.1.testBit page)) =
        some (517, 0x200000, 65, [513, 514, 515, 516]) := by decide +kernel
  obtain ⟨⟨init, carved⟩, result, value⟩ := Option.map_eq_some_iff.mp values
  simp only [Prod.mk.injEq] at value
  obtain ⟨total, bitmap, size, free⟩ := value
  refine ⟨init, carved, result, total, bitmap, size, fun page => ?_⟩
  have known : page ∈ (List.range 517).filter (fun page => !init.testBit page) ↔
      page ∈ [513, 514, 515, 516] := by rw [free]
  simp only [List.mem_filter, List.mem_range, Bool.not_eq_true', List.mem_cons,
    List.not_mem_nil, or_false] at known
  rw [PmmState.Free, total, known]
  omega

/-- Above the identity map `vmm_init` finds everything it needs. -/
theorem vmmReady_high {s : VmmState} (total : s.totalPages = 517) (bitmap : s.bitmap = 0x200000)
    (size : s.bitmapSize = 65) (free : ∀ page, s.Free page ↔ 513 ≤ page ∧ page < 517) :
    VmmReady (buildPageTable s) := by
  have clear : ∀ page, s.Free page → Disjoint s.bitmapBlock (frameBlock page) := by
    intro page known
    have := (free page).mp known
    rw [bitmapBlock, bitmap, size]
    apply block_disjoint
    simp only [pageSize]
    omega
  have three : ∀ first second, ∃ page, s.Free page ∧ page ≠ first ∧ page ≠ second := by
    intro first second
    by_cases one : 513 ≠ first ∧ 513 ≠ second
    · exact ⟨513, (free _).mpr (by decide), one⟩
    · by_cases two : 514 ≠ first ∧ 514 ≠ second
      · exact ⟨514, (free _).mpr (by decide), two⟩
      · exact ⟨515, (free _).mpr (by decide), by omega⟩
  obtain ⟨table, apart⟩ := buildPageTable_apart (by rw [total]; decide)
    (by rw [total, size]; decide) (fun zero => absurd ((free 0).mp zero) (by decide)) clear three
  refine ⟨table, apart, fun page low known => ?_⟩
  have := (free page).mp ((buildPageTable_spec table apart.toSeparate).2.1 page known)
  simp only [entriesPerTable] at low
  omega

theorem vmmFrames_kept_highMap :
    ∃ init carved start, pmmInit highMap clearBoot.toPmmState = some (init, carved) ∧
      vmmInit highMap clearBoot = some start ∧
      FramesKept init (VmmCall.perform (VmmCall.perform (VmmCall.perform start .pmmAllocPage)
        (.unmapPage 0x3000)) (.allocStack 2)) := by
  obtain ⟨init, carved, physical, total, bitmap, size, free⟩ := highMap_pmmInit
  have virtual := vmmInit_of_pmmInit physical
  have ready : VmmReady (buildPageTable { clearBoot with toPmmState := init }) :=
    vmmReady_high total bitmap size free
  generalize buildPageTable { clearBoot with toPmmState := init } = start at virtual ready
  have step : ∀ s call, CallOwned init s call → call.Wide →
      Guarded (CallOwned init) VmmStep s call (call.perform s) :=
    fun _ _ allowed wide => ⟨allowed, wide, rfl⟩
  exact ⟨init, carved, start, physical, virtual, vmmFrames_kept physical virtual ready
    (.cons (step _ .pmmAllocPage trivial trivial)
      (.cons (step _ (.unmapPage 0x3000) trivial trivial)
        (.single (step _ (.allocStack 2) trivial trivial))))⟩

/-- Freeing an identity-mapped page makes a frame allocatable that was never handed out. -/
theorem vmmFrames_lost_highMap :
    ¬ ∀ (memmap carved : Memmap) (s start t : VmmState) (init : PmmState) (calls : List VmmCall),
      pmmInit memmap s.toPmmState = some (init, carved) → vmmInit memmap s = some start →
      Run VmmStep start calls t → FramesKept init t := by
  intro claim
  obtain ⟨init, carved, physical, total, bitmap, size, free⟩ := highMap_pmmInit
  have virtual := vmmInit_of_pmmInit physical
  have ready : VmmReady (buildPageTable { clearBoot with toPmmState := init }) :=
    vmmReady_high total bitmap size free
  obtain ⟨totalPages, _, pte, -⟩ := buildPageTable_spec ready.table ready.apart.toSeparate
  generalize buildPageTable { clearBoot with toPmmState := init } = start at *
  have five : start.frameOf (0x5000 / pageSize) = 5 := by
    rw [frameOf, pte _ (by decide)]
    decide
  have freed := vmmFreePage_of_held ready.table (by decide : 0x5000 ≠ 0) (by decide)
    (by rw [five]; decide)
  rw [five] at freed
  have kept := claim highMap carved clearBoot start _ init [.freePage 0x5000] physical virtual
    (.single ⟨trivial, rfl⟩)
  have allocatable : (VmmCall.perform start (.freePage 0x5000)).Free 5 := by
    rw [VmmCall.perform, freed, free_freeFrame]
    refine .inr ⟨by decide, ?_⟩
    rw [(setPte_sameLayout start (0x5000 / pageSize) 0 0).totalPages, totalPages]
    change 5 < init.totalPages
    omega
  exact absurd ((free 5).mp (kept.reserved 5 allocatable)) (by decide)

end NTux.Mem
