import NTux.Elf.Loader
import NTux.Mem.HeapFailure
import Mathlib.Order.Interval.Finset.Nat

/-! # The image the ELF loader leaves

What each page holds once the loader is through (`LoadInv`): the bytes of the file
from the offset of the segment on, placed from the start of the page on, and behind
them whatever the frame held before. An image is therefore correct exactly if every
segment begins on a page boundary, takes all its bytes from the file and lies within
the pages that `vmm_map_page` accepts (`elf64Load_image_iff`).
-/

namespace NTux.Elf

open NTux.Foundation NTux.Mem Memory VmmState

/-! ## One page -/

/-- The virtual page that the loader fills at offset `off` of a segment. -/
def Phdr.pageAt (segment : Phdr) (off : Nat) : Nat :=
  (segment.pageBase + off) % 2 ^ 64 / pageSize

theorem Phdr.pageBase_eq {segment : Phdr} (small : segment.vaddr < 2 ^ 64) :
    segment.pageBase = segment.vaddr / pageSize * pageSize :=
  land_highMask small (by decide)

/-- The copy of a page stops where the bytes of the file do. -/
theorem Phdr.lt_copySize {segment : Phdr} {off i : Nat} (aligned : off + pageSize < 2 ^ 64)
    (inside : i < pageSize) : i < segment.copySize off ↔ off + i < segment.filesz := by
  rw [copySize, Nat.mod_eq_of_lt aligned]
  simp only [pageSize] at inside ⊢
  split
  · omega
  · split <;> omega

section LoadPage

variable {file : Memory} {segment : Phdr} {off frame : Nat} {s : LoadState}

/-- `vmm_map_page` refuses page zero and the pages behind its table only. -/
theorem vmmMapPage_eq {vmm : VmmState} {virt phys flags : Nat} (table : vmm.currentPageTable ≠ 0)
    (physical : phys ≠ 0) (aligned : virt % pageSize = 0) :
    vmmMapPage vmm virt phys flags =
      if virt / pageSize ≠ 0 ∧ virt / pageSize < entriesPerTable then
        (virt, vmm.setPte (virt / pageSize) phys flags)
      else (0, vmm) := by
  simp only [pageSize, entriesPerTable] at aligned ⊢
  unfold vmmMapPage
  by_cases null : virt = 0
  · rw [if_pos (.inr (.inl null)), if_neg (by omega)]
  · rw [if_neg (by simp only [table, null, physical, or_self, not_false_eq_true])]
    by_cases low : virt / 4096 < 512
    · rw [if_neg (by simp only [pageSize, entriesPerTable]; omega), if_pos ⟨by omega, low⟩]
    · rw [if_pos (by simp only [pageSize, entriesPerTable]; omega), if_neg fun known => low known.2]

/-- What one turn of the loop over the pages leaves behind. -/
structure PageLoaded (file : Memory) (segment : Phdr) (off frame : Nat) (s t : LoadState) : Prop where
  free : ∀ other, t.Free other ↔ s.Free other ∧ other ≠ frame
  place : s.toVmmState.SamePlace t.toVmmState
  others : ∀ other, other ≠ frame → Disjoint (frameBlock other) s.tables →
    Set.EqOn t.mem s.mem (frameBlock other)
  given : (segment.pageAt off = 0 ∨ entriesPerTable ≤ segment.pageAt off) ∧ t.given = s.given ∨
    (segment.pageAt off ≠ 0 ∧ segment.pageAt off < entriesPerTable ∧
      t.given = Function.update s.given (segment.pageAt off) (some frame) ∧
      ∀ i < pageSize, t.mem (frame * pageSize + i) =
        if i < segment.copySize off then file ((segment.offset + off) % 2 ^ 64 + i)
        else s.mem (frame * pageSize + i))

theorem Phdr.copySize_le (segment : Phdr) (off : Nat) : segment.copySize off ≤ pageSize := by
  rw [copySize]
  split
  · exact Nat.zero_le _
  · split
    · rename_i short
      have := Nat.mod_le (off + pageSize) (2 ^ 64)
      omega
    · exact le_rfl

/-- A frame apart from the tables, taken and then filled. -/
theorem takeFrame_mem (apart : s.Apart) (free : s.Free frame) {other : Nat}
    (away : Disjoint (frameBlock other) s.tables) :
    Set.EqOn (s.toVmmState.takeFrame frame).mem s.mem (frameBlock other) := by
  apply (s.toVmmState.takeFrame_bitWrite frame).mem
  intro member
  exact Set.disjoint_left.mp away member (bitmapBlock_subset (apart.toSeparate.bit_mem free.1))

/-- Filling part of a frame apart from the tables changes nothing else. -/
theorem copyToPage_spec {virt size : Nat} {bytes : Nat → Byte} (separate : s.Separate)
    (given : s.given (virt / pageSize) = some frame) (fits : size ≤ pageSize)
    (away : Disjoint (frameBlock frame) s.tables) :
    (∀ other, (s.copyToPage virt size bytes).Free other ↔ s.Free other) ∧
      s.toVmmState.SamePlace (s.copyToPage virt size bytes).toVmmState ∧
      (∀ other, other ≠ frame →
        Set.EqOn (s.copyToPage virt size bytes).mem s.mem (frameBlock other)) ∧
      (s.copyToPage virt size bytes).given = s.given ∧
      ∀ i < pageSize, (s.copyToPage virt size bytes).mem (frame * pageSize + i) =
        if i < size then bytes i else s.mem (frame * pageSize + i) := by
  have copied : s.copyToPage virt size bytes =
      { s with mem := s.mem.store (frame * pageSize) size bytes } := by
    rw [LoadState.copyToPage, given]
  have within : block (frame * pageSize) size ⊆ frameBlock frame :=
    Set.Ico_subset_Ico_right (Nat.add_le_add_left fits _)
  have kept : ∀ region, Disjoint region (frameBlock frame) →
      Set.EqOn (s.mem.store (frame * pageSize) size bytes) s.mem region :=
    fun region off => s.mem.store_eqOn bytes (off.mono_right within)
  rw [copied]
  refine ⟨fun other => ?_, ?_, fun other different => kept _ (frameBlock_disjoint different), rfl,
    fun i inside => ?_⟩
  · exact free_of_eqOn separate.covers ⟨rfl, rfl, rfl⟩
      (kept _ (away.symm.mono_left bitmapBlock_subset))
  · exact samePlace_of_eqOn ⟨rfl, rfl, rfl⟩ rfl (kept _ (away.symm.mono_left headerBlock_subset))
  · by_cases filled : i < size
    · rw [if_pos filled]
      exact s.mem.store_at bytes filled
    · rw [if_neg filled]
      exact s.mem.store_of_notMem bytes fun member => filled (by have := member.2; omega)

/-- A frame taken and mapped: no frame apart from the tables changes. -/
theorem takenAndMapped_spec {page physAddr flags : Nat} (apart : s.Apart) (free : s.Free frame)
    (low : page < entriesPerTable) :
    let vmm := (s.toVmmState.takeFrame frame).setPte page physAddr flags
    vmm.Separate ∧ s.toVmmState.SamePlace vmm ∧
      (∀ other, vmm.Free other ↔ s.Free other ∧ other ≠ frame) ∧
      ∀ other, Disjoint (frameBlock other) s.tables → Set.EqOn vmm.mem s.mem (frameBlock other) := by
  have separate := apart.toSeparate
  have place := (s.toVmmState.takeFrame_bitWrite frame).samePlace separate free.1
  have taken := separate.of_samePlace place
  have mapped := @setPte_samePlace _ _ physAddr flags taken.header_entries low
  refine ⟨taken.of_samePlace mapped, place.trans mapped, fun other => ?_, fun other away => ?_⟩
  · rw [free_setPte taken low]
    exact PmmState.free_take _
  · refine (setPte_mem_eqOn ?_ low).trans (takeFrame_mem apart free away)
    rw [entriesBlock, place.entries]
    exact away.mono_right entriesBlock_subset

/-- One turn takes the lowest free frame and, if the page is accepted, fills it. -/
theorem loadPage_spec (small : segment.vaddr < 2 ^ 64) (offAligned : off % pageSize = 0)
    (apart : s.Apart) (table : s.currentPageTable ≠ 0) (zero : ¬ s.Free 0)
    (available : ∃ page, s.Free page)
    (accepted : ∀ page, s.given page ≠ none → page ≠ 0 ∧ page < entriesPerTable) :
    ∃ frame, s.Free frame ∧ PageLoaded file segment off frame s (loadPage file segment off s) := by
  have separate := apart.toSeparate
  rcases allocFrame_cases separate.bounded with ⟨none, _⟩ | ⟨frame, free, _, result⟩
  · obtain ⟨page, free⟩ := available
    exact absurd free (none page)
  · have physical : frame * pageSize ≠ 0 := by
      refine Nat.mul_ne_zero ?_ (by decide)
      rintro rfl
      exact zero free
    have virtAligned : (segment.pageBase + off) % 2 ^ 64 % pageSize = 0 := by
      rw [segment.pageBase_eq small]
      simp only [pageSize] at offAligned ⊢
      omega
    have frameOf : frame * pageSize / pageSize = frame := Nat.mul_div_cancel _ (by decide)
    have mapped := @vmmMapPage_eq (s.toVmmState.takeFrame frame) _ _ segment.mapFlags
      table physical virtAligned
    have pageEq : (segment.pageBase + off) % 2 ^ 64 / pageSize = segment.pageAt off := rfl
    rw [pageEq] at mapped
    refine ⟨frame, free, ?_⟩
    rw [loadPage]
    generalize (segment.pageBase + off) % 2 ^ 64 = virt at *
    by_cases inside : segment.pageAt off ≠ 0 ∧ segment.pageAt off < entriesPerTable
    · rw [if_pos inside] at mapped
      have nonnull : virt ≠ 0 := by
        rintro rfl
        exact inside.1 (pageEq.symm.trans (Nat.zero_div _))
      obtain ⟨mSeparate, mPlace, mFree, mMem⟩ := @takenAndMapped_spec _ s
        (segment.pageAt off) (frame * pageSize) segment.mapFlags
        apart free inside.2
      generalize (s.toVmmState.takeFrame frame).setPte (segment.pageAt off) (frame * pageSize)
        segment.mapFlags = vmm at mapped mSeparate mPlace mFree mMem
      simp only [result, LoadState.mapPage, mapped, if_pos nonnull, pageEq, frameOf]
      have given : (Function.update s.given (segment.pageAt off) (some frame)) (virt / pageSize) =
          some frame := by
        rw [pageEq, Function.update_self]
      have away := apart.free frame free
      obtain ⟨fFree, fPlace, fOthers, fGiven, fMem⟩ := @copyToPage_spec _
        ⟨vmm, Function.update s.given (segment.pageAt off) (some frame)⟩ _ _
        (fun i => file ((segment.offset + off) % 2 ^ 64 + i)) mSeparate given
        (segment.copySize_le off) (by rw [mPlace.tables]; exact away)
      split
      · refine ⟨fun other => (fFree other).trans (mFree other), mPlace.trans fPlace,
          fun other different off => (fOthers other different).trans (mMem other off),
          .inr ⟨inside.1, inside.2, fGiven, fun i low => ?_⟩⟩
        rw [fMem i low]
        exact if_congr Iff.rfl rfl (mMem frame away ⟨Nat.le_add_right _ _, by omega⟩)
      · rename_i empty
        refine ⟨mFree, mPlace, fun other _ => mMem other,
          .inr ⟨inside.1, inside.2, rfl, fun i low => ?_⟩⟩
        rw [if_neg fun copied => empty (Nat.zero_lt_of_lt copied)]
        exact mMem frame away ⟨Nat.le_add_right _ _, by omega⟩
    · rw [if_neg inside] at mapped
      have unmapped : s.given (segment.pageAt off) = none := by
        by_contra given
        exact inside (accepted _ given)
      have outside : segment.pageAt off = 0 ∨ entriesPerTable ≤ segment.pageAt off := by
        rw [not_and_or, not_not, Nat.not_lt] at inside
        exact inside
      simp only [result, LoadState.mapPage, mapped, LoadState.copyToPage, pageEq, unmapped, ne_eq,
        not_true_eq_false, ↓reduceIte, ite_self]
      have write := s.toVmmState.takeFrame_bitWrite frame
      exact ⟨fun _ => PmmState.free_take _, write.samePlace separate free.1,
        fun other _ away => takeFrame_mem apart free away, .inl ⟨outside, rfl⟩⟩

end LoadPage

/-! ## All pages -/

/-- What the pages hold after some turns of the loader: each page that was given a frame
holds what one of the turns put there, and behind it what the frame held at first. -/
structure LoadInv (file : Memory) (initial s : LoadState) (turns : Set (Phdr × Nat)) : Prop where
  place : initial.toVmmState.SamePlace s.toVmmState
  free : ∀ frame, s.Free frame → initial.Free frame
  untouched : ∀ frame, s.Free frame → Set.EqOn s.mem initial.mem (frameBlock frame)
  given : ∀ page frame, s.given page = some frame →
    initial.Free frame ∧ ¬ s.Free frame ∧ page ≠ 0 ∧ page < entriesPerTable
  filled : ∀ page frame, s.given page = some frame →
    ∃ turn ∈ turns, turn.1.pageAt turn.2 = page ∧ ∀ i < pageSize, s.mem (frame * pageSize + i) =
      if i < turn.1.copySize turn.2 then file ((turn.1.offset + turn.2) % 2 ^ 64 + i)
      else initial.mem (frame * pageSize + i)
  reached : ∀ turn ∈ turns, turn.1.pageAt turn.2 ≠ 0 → turn.1.pageAt turn.2 < entriesPerTable →
    s.given (turn.1.pageAt turn.2) ≠ none

namespace LoadInv

variable {file : Memory} {initial s t : LoadState} {turns : Set (Phdr × Nat)} {segment : Phdr}
  {off frame : Nat}

theorem start (file : Memory) (s : VmmState) : LoadInv file (.start s) (.start s) ∅ where
  place := .refl s
  free _ := id
  untouched _ _ := Set.eqOn_refl _ _
  given _ _ given := nomatch given
  filled _ _ given := nomatch given
  reached _ member := absurd member (Set.notMem_empty _)

theorem apart (inv : LoadInv file initial s turns) (apart : initial.Apart) : s.Apart :=
  apart.of_samePlace inv.place fun frame free => .inl (inv.free frame free)

theorem accepted (inv : LoadInv file initial s turns) (page : Nat) (given : s.given page ≠ none) :
    page ≠ 0 ∧ page < entriesPerTable := by
  obtain ⟨frame, given⟩ := Option.ne_none_iff_exists'.mp given
  exact (inv.given page frame given).2.2

/-- One more turn. -/
theorem turn (inv : LoadInv file initial s turns) (apart : initial.Apart) (free : s.Free frame)
    (loaded : PageLoaded file segment off frame s t) :
    LoadInv file initial t (insert (segment, off) turns) := by
  have away : ∀ other, initial.Free other → Disjoint (frameBlock other) s.tables := by
    intro other known
    rw [inv.place.tables]
    exact apart.free other known
  have kept : ∀ other, initial.Free other → ¬ s.Free other → ∀ i < pageSize,
      t.mem (other * pageSize + i) = s.mem (other * pageSize + i) := by
    intro other known used i low
    refine loaded.others other ?_ (away other known) ⟨Nat.le_add_right _ _, by omega⟩
    rintro rfl
    exact used free
  have unfree : ∀ other, ¬ s.Free other → ¬ t.Free other :=
    fun other used known => used ((loaded.free other).mp known).1
  have oldFilled : ∀ page old, s.given page = some old →
      ∃ turn ∈ insert (segment, off) turns, turn.1.pageAt turn.2 = page ∧ ∀ i < pageSize,
        t.mem (old * pageSize + i) =
          if i < turn.1.copySize turn.2 then file ((turn.1.offset + turn.2) % 2 ^ 64 + i)
          else initial.mem (old * pageSize + i) := by
    intro page old given
    obtain ⟨origin, used, _⟩ := inv.given page old given
    obtain ⟨turn, member, same, bytes⟩ := inv.filled page old given
    refine ⟨turn, Set.mem_insert_of_mem _ member, same, fun i low => ?_⟩
    rw [kept old origin used i low]
    exact bytes i low
  refine ⟨inv.place.trans loaded.place, fun other known => ?_, fun other known => ?_, ?_, ?_, ?_⟩
  · exact inv.free other ((loaded.free other).mp known).1
  · obtain ⟨early, different⟩ := (loaded.free other).mp known
    exact (loaded.others other different (away other (inv.free other early))).trans
      (inv.untouched other early)
  · intro page old given
    rcases loaded.given with ⟨_, same⟩ | ⟨nonzero, low, updated, _⟩
    · rw [same] at given
      obtain ⟨origin, used, range⟩ := inv.given page old given
      exact ⟨origin, unfree old used, range⟩
    · rw [updated, Function.update_apply] at given
      split at given
      · rename_i here
        cases given
        exact ⟨inv.free frame free, fun known => ((loaded.free frame).mp known).2 rfl,
          here ▸ nonzero, here ▸ low⟩
      · obtain ⟨origin, used, range⟩ := inv.given page old given
        exact ⟨origin, unfree old used, range⟩
  · intro page old given
    rcases loaded.given with ⟨_, same⟩ | ⟨_, _, updated, bytes⟩
    · rw [same] at given
      exact oldFilled page old given
    · rw [updated, Function.update_apply] at given
      split at given
      · rename_i here
        cases given
        refine ⟨(segment, off), Set.mem_insert _ _, here.symm, fun i low => ?_⟩
        rw [bytes i low]
        exact if_congr Iff.rfl rfl
          (inv.untouched frame free ⟨Nat.le_add_right _ _, by omega⟩)
      · exact oldFilled page old given
  · rintro turn member nonzero low
    rcases loaded.given with ⟨outside, same⟩ | ⟨_, _, updated, _⟩
    · rw [same]
      rcases Set.mem_insert_iff.mp member with rfl | old
      · exact (outside.elim nonzero (Nat.not_le_of_lt low)).elim
      · exact inv.reached turn old nonzero low
    · rw [updated, Function.update_apply]
      split
      · exact Option.some_ne_none frame
      · rename_i different
        rcases Set.mem_insert_iff.mp member with rfl | old
        · exact absurd rfl different
        · exact inv.reached turn old nonzero low

end LoadInv

/-- A state in which a load may start: the page table is there, apart from the free
frames, and frame zero is not among these. -/
structure LoadReady (s : LoadState) : Prop where
  apart : s.Apart
  table : s.currentPageTable ≠ 0
  zero : ¬ s.Free 0

/-- The turns of the loop over the pages of a segment from offset `off` on. -/
def Phdr.turnsFrom (segment : Phdr) (off : Nat) : Set (Phdr × Nat) :=
  {turn | turn.1 = segment ∧ turn.2 % pageSize = 0 ∧ off ≤ turn.2 ∧ turn.2 < segment.memsz}

/-- The frames a segment takes from offset `off` on. -/
def Phdr.framesFrom (segment : Phdr) (off : Nat) : Nat :=
  (segment.memsz - off + (pageSize - 1)) / pageSize

theorem Phdr.turnsFrom_nil (segment : Phdr) {off : Nat} (done : ¬ off < segment.memsz) :
    segment.turnsFrom off = ∅ := by
  rw [Set.eq_empty_iff_forall_notMem]
  rintro turn ⟨_, _, low, high⟩
  omega

theorem Phdr.turnsFrom_cons (segment : Phdr) {off : Nat} (aligned : off % pageSize = 0)
    (more : off < segment.memsz) :
    segment.turnsFrom off = insert (segment, off) (segment.turnsFrom (off + pageSize)) := by
  ext ⟨other, turn⟩
  simp only [turnsFrom, Set.mem_ofPred_eq, Set.mem_insert_iff, Prod.mk.injEq, pageSize] at aligned ⊢
  constructor
  · rintro ⟨same, turnAligned, low, high⟩
    by_cases first : turn = off
    · exact .inl ⟨same, first⟩
    · exact .inr ⟨same, turnAligned, by omega, high⟩
  · rintro (⟨same, rfl⟩ | ⟨same, turnAligned, low, high⟩)
    · exact ⟨same, aligned, le_rfl, more⟩
    · exact ⟨same, turnAligned, by omega, high⟩

section Loops

variable {file : Memory} {initial s : LoadState} {turns : Set (Phdr × Nat)} {segment : Phdr}

theorem freeFrames_card_lt {s : PmmState} (bounded : s.totalPages ≤ 2 ^ 52) (zero : ¬ s.Free 0) :
    s.freeFrames.card < 2 ^ 52 := by
  have positive : s.freeFrames ⊆ Finset.Ico 1 (2 ^ 52) := by
    intro page member
    have free := PmmState.mem_freeFrames.mp member
    have low := free.1
    have nonzero : page ≠ 0 := by
      rintro rfl
      exact zero free
    rw [Finset.mem_Ico]
    omega
  have := Finset.card_le_card positive
  rw [Nat.card_Ico] at this
  omega

/-- The loop over the pages of a segment takes one frame after the other. -/
theorem loadPages_spec (ready : LoadReady initial) (small : segment.vaddr < 2 ^ 64)
    (bounded : segment.memsz ≤ 2 ^ 64 - pageSize) {fuel : Nat} :
    ∀ {off : Nat} {s : LoadState} {turns : Set (Phdr × Nat)}, LoadInv file initial s turns →
      off % pageSize = 0 → segment.framesFrom off ≤ s.freeFrames.card →
      segment.framesFrom off < fuel → ∃ t, loadPages file segment fuel off s = some t ∧
        LoadInv file initial t (turns ∪ segment.turnsFrom off) ∧
        t.freeFrames.card + segment.framesFrom off = s.freeFrames.card := by
  induction fuel with
  | zero => exact fun _ _ _ enough => absurd enough (Nat.not_lt_zero _)
  | succ fuel ih =>
      intro off s turns inv aligned frames enough
      rw [loadPages]
      by_cases more : off < segment.memsz
      · rw [if_pos more]
        have next : (off + pageSize) % 2 ^ 64 = off + pageSize := by
          simp only [pageSize] at bounded ⊢
          omega
        have fewer : segment.framesFrom off = segment.framesFrom (off + pageSize) + 1 := by
          simp only [Phdr.framesFrom, pageSize]
          omega
        have available : ∃ page, s.Free page := by
          have positive : 0 < s.freeFrames.card := by omega
          obtain ⟨page, member⟩ := Finset.card_pos.mp positive
          exact ⟨page, PmmState.mem_freeFrames.mp member⟩
        have table : s.currentPageTable ≠ 0 := by
          rw [inv.place.header]
          exact ready.table
        obtain ⟨frame, free, loaded⟩ := @loadPage_spec file _ _ _ small aligned
          (inv.apart ready.apart) table (fun known => ready.zero (inv.free 0 known)) available
          inv.accepted
        have taken := PmmState.freeFrames_card_of_take free loaded.free
        obtain ⟨t, result, after, card⟩ := @ih (off + pageSize) _ _
          (inv.turn ready.apart free loaded) (by simp only [pageSize] at aligned ⊢; omega)
          (by omega) (by omega)
        refine ⟨t, by rw [next]; exact result, ?_, by omega⟩
        rw [segment.turnsFrom_cons aligned more, Set.union_insert, ← Set.insert_union]
        exact after
      · rw [if_neg more]
        have none : segment.framesFrom off = 0 := by
          simp only [Phdr.framesFrom, pageSize]
          omega
        refine ⟨s, rfl, ?_, by rw [none, Nat.add_zero]⟩
        rw [segment.turnsFrom_nil more, Set.union_empty]
        exact inv

/-- The turns of the loader for a list of program headers. -/
def turnsOf (segments : List Phdr) : Set (Phdr × Nat) :=
  {turn | turn.1 ∈ segments ∧ turn.1.type = ptLoad ∧ turn.2 % pageSize = 0 ∧
    turn.2 < turn.1.memsz}

/-- The frames the loader takes for a list of program headers. -/
def framesNeeded (segments : List Phdr) : Nat :=
  ((segments.filter fun segment => segment.type = ptLoad).map fun segment =>
    segment.framesFrom 0).sum

theorem turnsOf_cons_of_load {segments : List Phdr} (load : segment.type = ptLoad) :
    turnsOf (segment :: segments) = segment.turnsFrom 0 ∪ turnsOf segments := by
  ext ⟨other, turn⟩
  simp only [turnsOf, Phdr.turnsFrom, Set.mem_union, Set.mem_ofPred_eq, List.mem_cons]
  constructor
  · rintro ⟨rfl | listed, rest⟩
    · exact .inl ⟨rfl, rest.2.1, Nat.zero_le _, rest.2.2⟩
    · exact .inr ⟨listed, rest⟩
  · rintro (⟨rfl, aligned, _, high⟩ | ⟨listed, rest⟩)
    · exact ⟨.inl rfl, load, aligned, high⟩
    · exact ⟨.inr listed, rest⟩

theorem turnsOf_cons_of_other {segments : List Phdr} (other : segment.type ≠ ptLoad) :
    turnsOf (segment :: segments) = turnsOf segments := by
  ext ⟨first, turn⟩
  simp only [turnsOf, Set.mem_ofPred_eq, List.mem_cons]
  constructor
  · rintro ⟨rfl | listed, rest⟩
    · exact absurd rest.1 other
    · exact ⟨listed, rest⟩
  · exact fun ⟨listed, rest⟩ => ⟨.inr listed, rest⟩

/-- The loop over the program headers. -/
theorem loadSegments_spec (ready : LoadReady initial) {segments : List Phdr} :
    ∀ {s : LoadState} {turns : Set (Phdr × Nat)}, LoadInv file initial s turns →
      (∀ segment ∈ segments, segment.vaddr < 2 ^ 64 ∧ segment.memsz < 2 ^ 64) →
      framesNeeded segments ≤ s.freeFrames.card →
      ∃ t, loadSegments file segments s = some t ∧
        LoadInv file initial t (turns ∪ turnsOf segments) := by
  induction segments with
  | nil =>
      intro s turns inv _ _
      refine ⟨s, rfl, ?_⟩
      have empty : turnsOf [] = ∅ := by
        rw [Set.eq_empty_iff_forall_notMem]
        exact fun turn member => absurd member.1 List.not_mem_nil
      rw [empty, Set.union_empty]
      exact inv
  | cons segment rest ih =>
      intro s turns inv small frames
      have tail := fun other member => small other (List.mem_cons_of_mem segment member)
      rw [loadSegments]
      by_cases load : segment.type = ptLoad
      · rw [if_neg (not_not_intro load), turnsOf_cons_of_load load, ← Set.union_assoc]
        have split : framesNeeded (segment :: rest) = segment.framesFrom 0 + framesNeeded rest := by
          simp only [framesNeeded, List.filter_cons, load, decide_true, ↓reduceIte, List.map_cons,
            List.sum_cons]
        have total := freeFrames_card_lt (inv.apart ready.apart).bounded
          fun known => ready.zero (inv.free 0 known)
        have here := small segment List.mem_cons_self
        have pages : segment.framesFrom 0 < 2 ^ 52 := by omega
        have bounded : segment.memsz ≤ 2 ^ 64 - pageSize := by
          simp only [Phdr.framesFrom, pageSize] at pages ⊢
          omega
        obtain ⟨t, result, after, card⟩ := @loadPages_spec _ _ _ ready here.1 bounded
          pageLoopFuel _ _ _ inv (Nat.zero_mod _) (by omega) (by simp only [pageLoopFuel]; omega)
        rw [result, Option.bind_some]
        exact ih after tail (by omega)
      · rw [if_pos load, turnsOf_cons_of_other load]
        refine ih inv tail ?_
        rw [framesNeeded, List.filter_cons, if_neg (by simpa using load)] at frames
        exact frames

end Loops

/-! ## The image -/

/-- The `PT_LOAD` segments. -/
def loadable (file : Memory) : List Phdr :=
  (phdrs file).filter fun segment => segment.type = ptLoad

/-- A file that `elf64_check` accepts, whose segments lie within it, have room for their
bytes and do not overlap in memory. -/
structure Valid (file : Memory) (length : Nat) : Prop where
  check : elf64Check file = true
  addressable : length < 2 ^ 64
  inFile : ∀ segment ∈ loadable file, segment.offset + segment.filesz ≤ length
  sizes : ∀ segment ∈ loadable file, segment.filesz ≤ segment.memsz
  apart : (loadable file).Pairwise fun first second =>
    Disjoint (block first.vaddr first.memsz) (block second.vaddr second.memsz)

/-- The segment is in memory: its bytes of the file, and zeros behind them. -/
structure SegmentImage (file : Memory) (t : LoadState) (segment : Phdr) : Prop where
  bytes : ∀ k < segment.filesz, t.read (segment.vaddr + k) = some (file (segment.offset + k))
  zeros : ∀ k, segment.filesz ≤ k → k < segment.memsz → t.read (segment.vaddr + k) = some 0

/-- The loader puts the segment where it belongs. -/
structure Placed (segment : Phdr) : Prop where
  aligned : segment.vaddr % pageSize = 0
  filled : segment.filesz = segment.memsz
  low : pageSize ≤ segment.vaddr
  high : segment.vaddr + segment.memsz ≤ entriesPerTable * pageSize

section Image

variable {file : Memory} {length : Nat} {s : VmmState} {initial t : LoadState} {segment : Phdr}

theorem phdr_small (member : segment ∈ phdrs file) :
    segment.vaddr < 2 ^ 64 ∧ segment.memsz < 2 ^ 64 := by
  obtain ⟨i, _, rfl⟩ := List.mem_map.mp member
  exact ⟨file.readLE_lt _ _, file.readLE_lt _ _⟩

theorem mem_loadable : segment ∈ loadable file ↔ segment ∈ phdrs file ∧ segment.type = ptLoad := by
  rw [loadable, List.mem_filter, decide_eq_true_iff]

/-- The loader returns, and every page holds what one of its turns put there. -/
theorem elf64Load_spec (valid : Valid file length) (ready : LoadReady initial)
    (fresh : initial.given = fun _ => none)
    (enough : framesNeeded (phdrs file) ≤ initial.freeFrames.card) :
    ∃ t, elf64LoadAndPrepare file initial = some (entry file, t) ∧
      LoadInv file initial t (turnsOf (phdrs file)) := by
  have initially : LoadInv file initial initial ∅ := by
    have start := LoadInv.start file initial.toVmmState
    rw [LoadState.start, ← fresh] at start
    exact start
  obtain ⟨t, result, inv⟩ := loadSegments_spec ready initially (fun _ => phdr_small) enough
  rw [Set.empty_union] at inv
  refine ⟨t, ?_, inv⟩
  rw [elf64LoadAndPrepare, valid.check, result]
  rfl

/-- A byte of the image comes from the turn that filled its page. -/
theorem LoadInv.read_some (inv : LoadInv file initial t (turnsOf (phdrs file))) {addr : Nat}
    {byte : Byte} (value : t.read addr = some byte) :
    addr / pageSize ≠ 0 ∧ addr / pageSize < entriesPerTable ∧ ∃ source off frame,
      (source, off) ∈ turnsOf (phdrs file) ∧ source.pageAt off = addr / pageSize ∧
      initial.Free frame ∧ byte = if addr % pageSize < source.copySize off then
        file ((source.offset + off) % 2 ^ 64 + addr % pageSize)
      else initial.mem (frame * pageSize + addr % pageSize) := by
  rw [LoadState.read, Option.map_eq_some_iff] at value
  obtain ⟨frame, given, rfl⟩ := value
  obtain ⟨origin, _, nonzero, low⟩ := inv.given _ frame given
  obtain ⟨⟨source, off⟩, member, page, bytes⟩ := inv.filled _ frame given
  exact ⟨nonzero, low, source, off, frame, member, page, origin, bytes _ (Nat.mod_lt _ (by decide))⟩

/-- An image in which every byte is readable lies in the pages of the table. -/
theorem image_range (inv : LoadInv file initial t (turnsOf (phdrs file)))
    (positive : 0 < segment.memsz) (image : SegmentImage file t segment) :
    pageSize ≤ segment.vaddr ∧ segment.vaddr + segment.memsz ≤ entriesPerTable * pageSize := by
  have readable : ∀ k < segment.memsz, ∃ byte, t.read (segment.vaddr + k) = some byte := by
    intro k inside
    rcases Nat.lt_or_ge k segment.filesz with early | late
    · exact ⟨_, image.bytes k early⟩
    · exact ⟨_, image.zeros k late inside⟩
  obtain ⟨_, first⟩ := readable 0 positive
  obtain ⟨_, last⟩ := readable (segment.memsz - 1) (by omega)
  have nonzero := (inv.read_some first).1
  have low := (inv.read_some last).2.1
  simp only [pageSize, entriesPerTable] at nonzero low ⊢
  omega

/-- The page and the place in it of a byte that a turn covers. -/
theorem pageAt_eq {off addr : Nat} (member : (segment, off) ∈ turnsOf (phdrs file))
    (high : segment.vaddr + segment.memsz ≤ entriesPerTable * pageSize)
    (page : segment.pageAt off = addr / pageSize) :
    addr = segment.vaddr / pageSize * pageSize + off + addr % pageSize := by
  obtain ⟨listed, _, aligned, inside⟩ := member
  rw [Phdr.pageAt, segment.pageBase_eq (phdr_small listed).1] at page
  dsimp only at aligned inside
  simp only [pageSize, entriesPerTable] at aligned high page ⊢
  omega

theorem Valid.disjoint (valid : Valid file length) {other : Phdr} (member : segment ∈ loadable file)
    (member' : other ∈ loadable file) (different : segment ≠ other) :
    Disjoint (block segment.vaddr segment.memsz) (block other.vaddr other.memsz) :=
  have : Std.Symm fun first second : Phdr =>
      Disjoint (block first.vaddr first.memsz) (block second.vaddr second.memsz) :=
    ⟨fun _ _ apart => apart.symm⟩
  valid.apart.forall member member' different

/-- Where every segment is placed, the image is correct. -/
theorem segmentImage_of_placed (valid : Valid file length)
    (inv : LoadInv file initial t (turnsOf (phdrs file)))
    (placed : ∀ segment ∈ loadable file, 0 < segment.memsz → Placed segment)
    (member : segment ∈ loadable file) : SegmentImage file t segment := by
  obtain ⟨listed, load⟩ := mem_loadable.mp member
  refine ⟨fun k inside => ?_, fun k late inside => ?_⟩
  · have sizes := valid.sizes segment member
    obtain ⟨aligned, filled, low, high⟩ := placed segment member (by omega)
    have small := phdr_small listed
    have inFile := valid.inFile segment member
    have addressable := valid.addressable
    have turn : (segment, k / pageSize * pageSize) ∈ turnsOf (phdrs file) := by
      refine ⟨listed, load, Nat.mul_mod_left _ _, ?_⟩
      have := Nat.div_mul_le_self k pageSize
      dsimp only
      omega
    have page : segment.pageAt (k / pageSize * pageSize) = (segment.vaddr + k) / pageSize := by
      rw [Phdr.pageAt, segment.pageBase_eq small.1]
      simp only [pageSize, entriesPerTable] at aligned high ⊢
      omega
    have nonzero : (segment.vaddr + k) / pageSize ≠ 0 := by
      simp only [pageSize] at low ⊢
      omega
    have inTable : (segment.vaddr + k) / pageSize < entriesPerTable := by
      simp only [pageSize, entriesPerTable] at high ⊢
      omega
    have given := inv.reached _ turn (by rw [page]; exact nonzero) (by rw [page]; exact inTable)
    rw [page] at given
    obtain ⟨frame, given⟩ := Option.ne_none_iff_exists'.mp given
    have value : t.read (segment.vaddr + k) =
        some (t.mem (frame * pageSize + (segment.vaddr + k) % pageSize)) := by
      rw [LoadState.read, given, Option.map_some]
    obtain ⟨_, _, source, off, _, sourceTurn, sourcePage, _, byte⟩ := inv.read_some value
    -- two segments that begin on page boundaries share no page
    have same : source = segment := by
      by_contra different
      have ⟨sourceListed, sourceLoad, _, sourceInside⟩ := sourceTurn
      have sourceMember := mem_loadable.mpr ⟨sourceListed, sourceLoad⟩
      have sourcePlaced := placed source sourceMember (Nat.zero_lt_of_lt sourceInside)
      have place := pageAt_eq sourceTurn sourcePlaced.high sourcePage
      have sourceAligned := sourcePlaced.aligned
      have shared : source.vaddr + off ∈ block segment.vaddr segment.memsz := by
        simp only [pageSize] at aligned sourceAligned place
        exact ⟨by omega, by omega⟩
      exact Set.disjoint_left.mp (valid.disjoint member sourceMember (Ne.symm different)) shared
        ⟨Nat.le_add_right _ _, Nat.add_lt_add_left sourceInside _⟩
    subst same
    have place := pageAt_eq sourceTurn high sourcePage
    have covered : (source.vaddr + k) % pageSize < source.copySize off := by
      rw [source.lt_copySize (by simp only [pageSize, entriesPerTable] at *; omega)
        (Nat.mod_lt _ (by decide))]
      simp only [pageSize] at aligned place ⊢
      omega
    have position : (source.offset + off) % 2 ^ 64 + (source.vaddr + k) % pageSize =
        source.offset + k := by
      simp only [pageSize] at aligned place ⊢
      omega
    rw [value, byte, if_pos covered, position]
  · have positive : 0 < segment.memsz := by omega
    have := (placed segment member positive).filled
    omega

open Classical in
/-- Memory that holds one byte everywhere but in the tables. -/
noncomputable def staleMemory (s : VmmState) (byte : Byte) : Memory := fun addr =>
  if addr ∈ s.tables then s.mem addr else byte

theorem staleMemory_eqOn (s : VmmState) (byte : Byte) :
    Set.EqOn (staleMemory s byte) s.mem s.tables := fun _ member => if_pos member

/-- The contents of the memory outside the tables do not matter for a load to start. -/
theorem ready_of_contents {contents : Memory} (ready : LoadReady (.start s))
    (same : Set.EqOn contents s.mem s.tables) :
    LoadReady (.start { s with mem := contents }) ∧
      s.SamePlace { s with mem := contents } ∧
      ∀ frame, ({ s with mem := contents } : VmmState).Free frame ↔ s.Free frame := by
  have place : s.SamePlace { s with mem := contents } :=
    samePlace_of_eqOn ⟨rfl, rfl, rfl⟩ rfl (same.mono headerBlock_subset)
  have free : ∀ frame, ({ s with mem := contents } : VmmState).Free frame ↔ s.Free frame :=
    fun frame => free_of_eqOn ready.apart.covers ⟨rfl, rfl, rfl⟩ (same.mono bitmapBlock_subset)
  exact ⟨⟨ready.apart.of_samePlace place fun frame known => .inl ((free frame).mp known),
    ready.table, fun known => ready.zero ((free 0).mp known)⟩, place, free⟩

/-- The loader leaves a correct image whatever the frames held before. -/
def ImageCorrect (file : Memory) (s : VmmState) : Prop :=
  ∀ contents : Memory, Set.EqOn contents s.mem s.tables →
    ∃ t, elf64LoadAndPrepare file (.start { s with mem := contents }) = some (entry file, t) ∧
      ∀ segment ∈ loadable file, SegmentImage file t segment

/-- A byte that no turn covers is whatever its frame held before, so in a correct image
every byte is covered. -/
theorem covered_of_correct (valid : Valid file length) (ready : LoadReady (.start s))
    (enough : framesNeeded (phdrs file) ≤ s.freeFrames.card) (correct : ImageCorrect file s)
    (member : segment ∈ loadable file) {k : Nat} (inside : k < segment.memsz) :
    ∃ source off, (source, off) ∈ turnsOf (phdrs file) ∧
      source.pageAt off = (segment.vaddr + k) / pageSize ∧
      (segment.vaddr + k) % pageSize < source.copySize off := by
  by_contra uncovered
  have stale : ∀ byte : Byte, byte =
      if k < segment.filesz then file (segment.offset + k) else 0 := by
    intro byte
    have same := staleMemory_eqOn s byte
    obtain ⟨ready', place, free⟩ := ready_of_contents ready same
    have enough' : framesNeeded (phdrs file) ≤
        ({ s with mem := staleMemory s byte } : VmmState).freeFrames.card := by
      refine enough.trans_eq (congrArg Finset.card ?_)
      ext frame
      rw [PmmState.mem_freeFrames, PmmState.mem_freeFrames]
      exact (free frame).symm
    obtain ⟨t, result, images⟩ := correct _ same
    obtain ⟨t', result', inv⟩ := elf64Load_spec valid ready' rfl enough'
    cases result.symm.trans result'
    have image := images segment member
    have value : t.read (segment.vaddr + k) =
        some (if k < segment.filesz then file (segment.offset + k) else 0) := by
      split
      · rename_i early
        exact image.bytes k early
      · rename_i late
        exact image.zeros k (Nat.le_of_not_lt late) inside
    obtain ⟨_, _, source, off, frame, turn, page, origin, held⟩ := inv.read_some value
    rw [held, if_neg fun covered => uncovered ⟨source, off, turn, page, covered⟩]
    have outside : frame * pageSize + (segment.vaddr + k) % pageSize ∉ s.tables := by
      refine Set.disjoint_left.mp (ready.apart.free frame ((free frame).mp origin)) ?_
      exact ⟨Nat.le_add_right _ _, Nat.add_lt_add_left (Nat.mod_lt _ (by decide)) _⟩
    exact (if_neg outside).symm
  exact absurd ((stale 0).trans (stale 1).symm) (by decide)

/-- In a correct image every segment is placed: the last byte of one that is not would
have to come from a segment that is not placed either and ends later. -/
theorem placed_of_correct (valid : Valid file length) (ready : LoadReady (.start s))
    (enough : framesNeeded (phdrs file) ≤ s.freeFrames.card) (correct : ImageCorrect file s)
    (member : segment ∈ loadable file) (positive : 0 < segment.memsz) : Placed segment := by
  obtain ⟨t, result, images⟩ := correct s.mem (Set.eqOn_refl _ _)
  obtain ⟨t', result', inv⟩ := elf64Load_spec valid ready rfl enough
  cases result.symm.trans result'
  -- by induction on the distance of the end of the segment from the end of the table
  induction gapEq : entriesPerTable * pageSize - (segment.vaddr + segment.memsz) using
    Nat.strong_induction_on generalizing segment with
  | _ gap ih =>
      obtain ⟨low, high⟩ := image_range inv positive (images segment member)
      have inside : segment.memsz - 1 < segment.memsz := by omega
      obtain ⟨source, off, turn, page, covered⟩ :=
        covered_of_correct valid ready enough correct member inside
      have sourceMember := mem_loadable.mpr ⟨turn.1, turn.2.1⟩
      have sourceInside : off < source.memsz := turn.2.2.2
      have sourcePositive : 0 < source.memsz := Nat.zero_lt_of_lt sourceInside
      obtain ⟨_, sourceHigh⟩ := image_range inv sourcePositive (images source sourceMember)
      have sizes := valid.sizes source sourceMember
      have place := pageAt_eq turn sourceHigh page
      have within : off + (segment.vaddr + (segment.memsz - 1)) % pageSize < source.filesz := by
        rw [← source.lt_copySize _ (Nat.mod_lt _ (by decide))]
        · exact covered
        · simp only [pageSize, entriesPerTable] at sourceHigh ⊢
          omega
      simp only [pageSize] at place within
      by_cases same : source = segment
      · subst same
        exact ⟨by simp only [pageSize]; omega, by omega, low, high⟩
      · exfalso
        have apart := valid.disjoint member sourceMember (Ne.symm same)
        have last : segment.vaddr + (segment.memsz - 1) ∉ block source.vaddr source.memsz :=
          Set.disjoint_left.mp apart ⟨by omega, by omega⟩
        have before : segment.vaddr + (segment.memsz - 1) < source.vaddr := by
          by_contra behind
          exact last ⟨Nat.le_of_not_lt behind, by omega⟩
        have later : entriesPerTable * pageSize - (source.vaddr + source.memsz) < gap := by
          rw [← gapEq]
          simp only [pageSize, entriesPerTable] at high sourceHigh ⊢
          omega
        have aligned := (ih _ later sourceMember sourcePositive rfl).aligned
        simp only [pageSize] at aligned
        omega

/-- **Which executables the loader puts into memory correctly.** Whatever the frames held
before, every segment is in memory with its bytes and zeros exactly if every segment
that is not empty begins on a page boundary, takes all its bytes from the file and lies
in the pages that `vmm_map_page` accepts. -/
theorem elf64Load_image_iff (valid : Valid file length) (ready : LoadReady (.start s))
    (enough : framesNeeded (phdrs file) ≤ s.freeFrames.card) :
    ImageCorrect file s ↔ ∀ segment ∈ loadable file, 0 < segment.memsz → Placed segment := by
  constructor
  · intro correct segment member positive
    exact placed_of_correct valid ready enough correct member positive
  · intro placed contents same
    obtain ⟨ready', _, free⟩ := ready_of_contents ready same
    have enough' : framesNeeded (phdrs file) ≤
        ({ s with mem := contents } : VmmState).freeFrames.card := by
      refine enough.trans_eq (congrArg Finset.card ?_)
      ext frame
      rw [PmmState.mem_freeFrames, PmmState.mem_freeFrames]
      exact (free frame).symm
    obtain ⟨t, result, inv⟩ := elf64Load_spec valid ready' rfl enough'
    exact ⟨t, result, fun segment member => segmentImage_of_placed valid inv placed member⟩

end Image

/-- A machine with frames four and five free and not cleared; the page table is in frame
one, its entries in frame two and the bitmap in frame three. -/
def smallMachine : VmmState where
  mem addr := if addr = 0x1001 then 0x20 else if addr = 0x3000 then 0x0F
    else if 0x4000 ≤ addr then 0xFF else 0
  bitmap := 0x3000
  bitmapSize := 1
  totalPages := 6
  freePages := 2
  memoryStart := 0x3001
  currentPageTable := 0x1000
  kernelHeapEnd := vmmHeapStart

theorem smallMachine_free (page : Nat) : smallMachine.Free page ↔ page = 4 ∨ page = 5 := by
  have bits : ∀ page < 6, smallMachine.testBit page = false ↔ page = 4 ∨ page = 5 := by
    decide +kernel
  constructor
  · exact fun free => (bits page free.1).mp free.2
  · rintro (rfl | rfl)
    · exact ⟨by decide, (bits 4 (by decide)).mpr (.inl rfl)⟩
    · exact ⟨by decide, (bits 5 (by decide)).mpr (.inr rfl)⟩

theorem smallMachine_ready : LoadReady (.start smallMachine) where
  apart := by
    have entries : smallMachine.entries = 0x2000 := by decide +kernel
    refine ⟨⟨by decide, by decide, block_disjoint (by decide), ?_, ?_⟩, fun page free => ?_⟩
    · change Disjoint _ smallMachine.entriesBlock
      rw [entriesBlock, entries]
      exact block_disjoint (by decide)
    · change Disjoint _ smallMachine.entriesBlock
      rw [entriesBlock, entries]
      exact block_disjoint (by decide)
    · change Disjoint _ smallMachine.tables
      have later : 4 ≤ page := by
        rcases (smallMachine_free page).mp free with rfl | rfl <;> decide
      rw [tables, entriesBlock, entries, Set.disjoint_union_right, Set.disjoint_union_right]
      refine ⟨block_disjoint (.inr ?_), block_disjoint (.inr ?_), block_disjoint (.inr ?_)⟩ <;>
        simp only [smallMachine, pageSize] <;> omega
  table := by decide
  zero free := absurd ((smallMachine_free 0).mp free) (by decide)

/-- An executable with one segment of one byte in the file and `memsz` bytes in memory. -/
def sampleFile (memsz : Nat) : Memory :=
  [(0, 4, 0x464C457F), (4, 1, 2), (5, 1, 1), (16, 2, 2), (18, 2, 0x3E), (24, 8, 0x1000),
    (32, 8, 64), (56, 2, 1), (64, 4, 1), (68, 4, 5), (72, 8, 120), (80, 8, 0x1000),
    (96, 8, 1), (104, 8, memsz), (120, 1, 0x5A)].foldl
      (fun file field => writeLE file field.1 field.2.1 field.2.2) fun _ => 0

theorem sampleFile_valid {memsz : Nat} (check : elf64Check (sampleFile memsz) = true)
    (segments : loadable (sampleFile memsz) = [⟨1, 5, 120, 0x1000, 1, memsz⟩])
    (positive : 0 < memsz) : Valid (sampleFile memsz) 121 where
  check := check
  addressable := by decide
  inFile segment member := by
    rw [segments] at member
    cases List.mem_singleton.mp member
    exact le_rfl
  sizes segment member := by
    rw [segments] at member
    cases List.mem_singleton.mp member
    exact positive
  apart := by
    rw [segments]
    exact List.pairwise_singleton _ _

theorem smallMachine_freeFrames : smallMachine.freeFrames = {4, 5} := by
  ext page
  rw [PmmState.mem_freeFrames, smallMachine_free, Finset.mem_insert, Finset.mem_singleton]

theorem smallMachine_frames {file : Memory} (enough : framesNeeded (phdrs file) ≤ 2) :
    framesNeeded (phdrs file) ≤ smallMachine.freeFrames.card := by
  rw [smallMachine_freeFrames]
  exact enough

theorem elf64Load_image_sample : ImageCorrect (sampleFile 1) smallMachine := by
  have segments : loadable (sampleFile 1) = [⟨1, 5, 120, 0x1000, 1, 1⟩] := by decide +kernel
  refine (elf64Load_image_iff (sampleFile_valid (by decide +kernel) segments (by decide))
    smallMachine_ready (smallMachine_frames (by decide +kernel))).mpr ?_
  rw [segments]
  intro segment member _
  cases List.mem_singleton.mp member
  exact ⟨by decide, rfl, by decide, by decide⟩

/-- One byte of uninitialised data behind the byte in the file is not cleared. -/
theorem elf64Load_stale_sample :
    ¬ ∀ (file : Memory) (length : Nat) (s : VmmState), Valid file length → LoadReady (.start s) →
      framesNeeded (phdrs file) ≤ s.freeFrames.card → ImageCorrect file s := by
  intro claim
  have segments : loadable (sampleFile 2) = [⟨1, 5, 120, 0x1000, 1, 2⟩] := by decide +kernel
  obtain ⟨t, result, images⟩ := claim _ _ _
    (sampleFile_valid (by decide +kernel) segments (by decide)) smallMachine_ready
    (smallMachine_frames (by decide +kernel)) smallMachine.mem (Set.eqOn_refl _ _)
  have stale : (elf64LoadAndPrepare (sampleFile 2) (.start smallMachine)).map
      (fun loaded => loaded.2.read 0x1001) = some (some 0xFF) := by decide +kernel
  have loaded : elf64LoadAndPrepare (sampleFile 2) (.start smallMachine) =
      some (entry (sampleFile 2), t) := result
  rw [loaded, Option.map_some, Option.some_inj] at stale
  have image := (images ⟨1, 5, 120, 0x1000, 1, 2⟩ (by rw [segments]; exact List.mem_cons_self)).zeros 1
    le_rfl (by decide)
  rw [stale] at image
  exact absurd image (by decide)

end NTux.Elf
