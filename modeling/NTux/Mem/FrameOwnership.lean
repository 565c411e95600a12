import NTux.Mem.PageTable
import NTux.Foundation.Runs

/-! # Who owns the frames

`vmm_init` maps the first 512 frames without asking the physical allocator, and
`vmm_free_page` gives back whatever frame the entry holds. So a frame in the page
table may be free from the start, and freeing an identity-mapped page makes a
reserved frame allocatable. When `vmm_init` leaves none of the mapped frames free
and each page freed holds a frame that the allocator handed out and that no other
entry maps (`CallOwned`), no mapped frame is ever free and no reserved frame is
ever given back (`vmmFrames_owned`).
-/

namespace NTux.Mem

open NTux.Foundation Memory VmmState

namespace VmmState

/-- The entry of a page is present. -/
def Present (s : VmmState) (page : Nat) : Prop :=
  s.pte page % 2 = 1

/-- The frame the entry of a page refers to. -/
def frameOf (s : VmmState) (page : Nat) : Nat :=
  s.pte page / pageSize

/-- No frame a present entry refers to is free, and a frame is free only if it was
free at the start. -/
structure Owned (base : PmmState) (s : VmmState) : Prop where
  apart : s.Apart
  totalPages : s.totalPages = base.totalPages
  mapped : ∀ page < entriesPerTable, s.Present page → ¬ s.Free (s.frameOf page)
  origin : ∀ page, s.Free page → base.Free page

/-- The frame an entry holds, if any, is one the allocator handed out, is not one of
the memory manager's own and is mapped by no other present entry. -/
def Removable (base : PmmState) (s : VmmState) (page : Nat) : Prop :=
  s.frameOf page ≠ 0 → base.Free (s.frameOf page) ∧
    Disjoint (frameBlock (s.frameOf page)) s.tables ∧
    ∀ other < entriesPerTable, other ≠ page → s.Present other → s.frameOf other ≠ s.frameOf page

variable {base : PmmState} {s t : VmmState} {page : Nat}

/-- States with the same tables in the same place have the same removable pages. -/
theorem Removable.of_same (removable : s.Removable base page) (place : s.SamePlace t)
    (same : ∀ page < entriesPerTable, t.pte page = s.pte page) (low : page < entriesPerTable) :
    t.Removable base page := by
  intro nonzero
  have frame : t.frameOf page = s.frameOf page := by rw [frameOf, frameOf, same page low]
  rw [frame] at nonzero ⊢
  obtain ⟨origin, away, unshared⟩ := removable nonzero
  refine ⟨origin, by rw [place.tables]; exact away, fun other inside different present => ?_⟩
  rw [frameOf, same other inside]
  rw [Present, same other inside] at present
  exact unshared other inside different present

/-! ## The primitives keep the frames owned -/

theorem Owned.of_same (owned : s.Owned base) (place : s.SamePlace t)
    (same : ∀ page < entriesPerTable, t.pte page = s.pte page)
    (free : ∀ page, t.Free page → s.Free page) : t.Owned base where
  apart := owned.apart.of_samePlace place fun page known => .inl (free page known)
  totalPages := place.layout.totalPages.trans owned.totalPages
  mapped page low present known := by
    rw [Present, same page low] at present
    rw [frameOf, same page low] at known
    exact owned.mapped page low present (free _ known)
  origin page known := owned.origin page (free page known)

theorem Owned.takeFrame (owned : s.Owned base) (free : s.Free page) :
    (s.takeFrame page).Owned base :=
  have write := s.takeFrame_bitWrite page
  owned.of_same (write.samePlace owned.apart.toSeparate free.1)
    (fun _ => write.pte owned.apart.toSeparate free.1)
    fun _ known => ((s.toPmmState.free_take).mp known).1

theorem Owned.setPte {physAddr flags : Nat} (owned : s.Owned base) (low : page < entriesPerTable)
    (used : pteValue physAddr flags % 2 = 1 → ¬ s.Free (pteValue physAddr flags / pageSize)) :
    (s.setPte page physAddr flags).Owned base where
  apart := owned.apart.of_samePlace (setPte_samePlace owned.apart.header_entries low)
    fun _ known => .inl ((free_setPte owned.apart.toSeparate low).mp known)
  totalPages := owned.totalPages
  mapped other inside present := by
    rw [free_setPte owned.apart.toSeparate low]
    rw [Present, pte_setPte owned.apart.header_entries low] at present
    rw [frameOf, pte_setPte owned.apart.header_entries low]
    by_cases same : other = page
    · rw [if_pos same] at present ⊢
      exact used present
    · rw [if_neg same] at present ⊢
      exact owned.mapped other inside present
  origin other known := owned.origin other ((free_setPte owned.apart.toSeparate low).mp known)

theorem Owned.freeFrame {addr : Nat} (owned : s.Owned base)
    (origin : base.Free (addr / pageSize))
    (away : Disjoint (frameBlock (addr / pageSize)) s.tables)
    (unmapped : ∀ page < entriesPerTable, s.Present page → s.frameOf page ≠ addr / pageSize) :
    (s.freeFrame addr).Owned base := by
  have low : addr / pageSize < s.totalPages := by
    rw [owned.totalPages]
    exact origin.1
  have write := s.freeFrame_bitWrite addr
  have place := write.samePlace owned.apart.toSeparate low
  have same : ∀ page < entriesPerTable, (s.freeFrame addr).pte page = s.pte page :=
    fun _ => write.pte owned.apart.toSeparate low
  refine ⟨owned.apart.of_samePlace place fun page known => ?_,
    place.layout.totalPages.trans owned.totalPages,
    fun page inside present known => ?_, fun page known => ?_⟩
  · exact (free_freeFrame.mp known).imp_right fun ⟨same, _⟩ => same ▸ away
  · rw [Present, same page inside] at present
    rw [frameOf, same page inside] at known
    rcases free_freeFrame.mp known with earlier | ⟨freed, _⟩
    · exact owned.mapped page inside present earlier
    · exact unmapped page inside present freed
  · rcases free_freeFrame.mp known with earlier | ⟨rfl, _⟩
    · exact owned.origin page earlier
    · exact origin

/-! ## The operations keep the frames owned -/

theorem pteValue_eq {physAddr flags : Nat} (small : physAddr < 2 ^ 64) :
    pteValue physAddr flags = physAddr / pageSize * pageSize + flags % 2 ^ 12 := by
  rw [pteValue, land_highMask small (by decide), Nat.and_two_pow_sub_one_eq_mod]
  exact lor_low (Nat.mod_lt _ (by decide))

/-- The frame address `get_phys_addr_from_pte` reads from an entry. -/
theorem getPhysAddr_pte (s : VmmState) (page : Nat) :
    getPhysAddrFromPte (s.pte page) = s.frameOf page * pageSize :=
  land_highMask (s.mem.readLE_lt _ _) (by decide)

theorem frame_pteValue {flags : Nat} (small : page < 2 ^ 52) :
    pteValue (page * pageSize) flags / pageSize = page := by
  rw [pteValue_eq (by simp only [pageSize]; omega)]
  simp only [pageSize]
  omega

theorem pteValue_zero : pteValue 0 0 = 0 := by decide

/-- Clearing an entry maps nothing. -/
theorem Owned.clearPte (owned : s.Owned base) (low : page < entriesPerTable) :
    (s.setPte page 0 0).Owned base :=
  owned.setPte low fun present => by
    rw [pteValue_zero] at present
    cases present

theorem vmmUnmapPage_owned (owned : s.Owned base) (virt : Nat) :
    (vmmUnmapPage s virt).Owned base := by
  unfold vmmUnmapPage
  split
  · exact owned
  · split
    · exact owned
    · rename_i low
      exact owned.clearPte (Nat.lt_of_not_le low)

/-- `vmm_free_page` clears an entry that holds a frame and gives the frame back. -/
theorem vmmFreePage_of_held {addr : Nat} (table : s.currentPageTable ≠ 0) (nonnull : addr ≠ 0)
    (low : addr / pageSize < entriesPerTable) (held : s.frameOf (addr / pageSize) ≠ 0) :
    vmmFreePage s addr =
      (s.setPte (addr / pageSize) 0 0).freeFrame (s.frameOf (addr / pageSize) * pageSize) := by
  have given : ¬ (s.currentPageTable = 0 ∨ addr = 0) := fun either => either.elim table nonnull
  have physical : s.frameOf (addr / pageSize) * pageSize ≠ 0 := Nat.mul_ne_zero held (by decide)
  rw [vmmFreePage, if_neg given, if_neg (Nat.not_le_of_lt low)]
  simp only [getPhysAddr_pte, if_neg physical]

/-- Everything a call of `vmm_free_page` can do: nothing, or clear an entry and give
back the frame it held. -/
theorem vmmFreePage_cases (s : VmmState) (addr : Nat) :
    vmmFreePage s addr = s ∨
      (addr ≠ 0 ∧ addr / pageSize < entriesPerTable ∧ s.frameOf (addr / pageSize) ≠ 0 ∧
        vmmFreePage s addr =
          (s.setPte (addr / pageSize) 0 0).freeFrame (s.frameOf (addr / pageSize) * pageSize)) := by
  by_cases given : s.currentPageTable = 0 ∨ addr = 0
  · exact .inl (if_pos given)
  · obtain ⟨table, nonnull⟩ := not_or.mp given
    by_cases low : addr / pageSize < entriesPerTable
    · by_cases held : s.frameOf (addr / pageSize) = 0
      · left
        rw [vmmFreePage, if_neg given, if_neg (Nat.not_le_of_lt low)]
        simp only [getPhysAddr_pte, held, Nat.zero_mul, ↓reduceIte]
      · exact .inr ⟨nonnull, low, held, vmmFreePage_of_held table nonnull low held⟩
    · left
      rw [vmmFreePage, if_neg given, if_pos (Nat.le_of_not_lt low)]

theorem Removable.clearPte {other : Nat} (removable : s.Removable base page) (separate : s.Separate)
    (low : other < entriesPerTable) : (s.setPte other 0 0).Removable base page := by
  intro nonzero
  rw [frameOf, pte_setPte separate.header_entries low] at nonzero
  by_cases same : page = other
  · rw [if_pos same, pteValue_zero] at nonzero
    exact absurd (Nat.zero_div _) nonzero
  · rw [if_neg same] at nonzero
    obtain ⟨origin, away, unshared⟩ := removable nonzero
    rw [frameOf, pte_setPte separate.header_entries low, if_neg same,
      (setPte_samePlace separate.header_entries low).tables]
    refine ⟨origin, away, fun mapped inside different present => ?_⟩
    rw [Present, pte_setPte separate.header_entries low] at present
    rw [frameOf, pte_setPte separate.header_entries low]
    by_cases cleared : mapped = other
    · rw [if_pos cleared, pteValue_zero] at present
      cases present
    · rw [if_neg cleared] at present ⊢
      exact unshared mapped inside different present

/-- What `vmm_free_page` may be called on: an address it ignores or a removable page. -/
def Freeable (base : PmmState) (s : VmmState) (addr : Nat) : Prop :=
  addr ≠ 0 → addr / pageSize < entriesPerTable → s.Removable base (addr / pageSize)

/-- Freeing a removable page keeps the frames owned and other removable pages removable. -/
theorem vmmFreePage_owned {addr : Nat} (owned : s.Owned base) (freeable : s.Freeable base addr) :
    (vmmFreePage s addr).Owned base ∧
      ∀ page < entriesPerTable, s.Removable base page →
        (vmmFreePage s addr).Removable base page := by
  rcases vmmFreePage_cases s addr with same | ⟨nonnull, low, held, result⟩
  · rw [same]
    exact ⟨owned, fun _ _ => id⟩
  · rw [result]
    obtain ⟨origin, away, unshared⟩ := freeable nonnull low held
    have separate := owned.apart.toSeparate
    have cleared := owned.clearPte low
    have place : s.SamePlace (s.setPte (addr / pageSize) 0 0) :=
      setPte_samePlace separate.header_entries low
    generalize frameEq : s.frameOf (addr / pageSize) = frame at *
    have address : frame * pageSize / pageSize = frame := Nat.mul_div_cancel _ (by decide)
    have unmapped : ∀ page < entriesPerTable, (s.setPte (addr / pageSize) 0 0).Present page →
        (s.setPte (addr / pageSize) 0 0).frameOf page ≠ frame := by
      intro page inside present
      rw [Present, pte_setPte separate.header_entries low] at present
      rw [frameOf, pte_setPte separate.header_entries low]
      by_cases same : page = addr / pageSize
      · rw [if_pos same, pteValue_zero] at present
        cases present
      · rw [if_neg same] at present ⊢
        exact unshared page inside same present
    have frameLow : frame < (s.setPte (addr / pageSize) 0 0).totalPages := by
      rw [cleared.totalPages]
      exact origin.1
    have write := (s.setPte (addr / pageSize) 0 0).freeFrame_bitWrite (frame * pageSize)
    rw [address] at write
    refine ⟨cleared.freeFrame ?_ ?_ ?_, fun page inside known => ?_⟩
    · rw [address]
      exact origin
    · rw [address, place.tables]
      exact away
    · rw [address]
      exact unmapped
    · exact (known.clearPte separate low).of_same
        (write.samePlace cleared.apart.toSeparate frameLow)
        (fun _ => write.pte cleared.apart.toSeparate frameLow) inside

/-- Every turn of the loop of `vmm_free_pages_region` frees a removable page. -/
def FreeableFrom (base : PmmState) (virt : Nat) : Nat → Nat → VmmState → Prop
  | _, 0, _ => True
  | i, remaining + 1, s =>
      s.Freeable base ((virt + i * pageSize) % 2 ^ 64) ∧
        FreeableFrom base virt (i + 1) remaining (vmmFreePage s ((virt + i * pageSize) % 2 ^ 64))

theorem freePagesFrom_owned {virt remaining : Nat} :
    ∀ {i : Nat} {s : VmmState}, s.Owned base → FreeableFrom base virt i remaining s →
      (freePagesFrom virt i remaining s).Owned base := by
  induction remaining with
  | zero => exact fun owned _ => owned
  | succ remaining ih =>
      intro i s owned ⟨first, later⟩
      exact ih (vmmFreePage_owned owned first).1 later

/-- Pages that are removable when the loop starts are removable when their turn comes. -/
theorem freeableFrom_of_removable {virt remaining : Nat} :
    ∀ {i : Nat} {s : VmmState}, s.Owned base →
      (∀ j, i ≤ j → j < i + remaining → s.Freeable base ((virt + j * pageSize) % 2 ^ 64)) →
      FreeableFrom base virt i remaining s := by
  induction remaining with
  | zero => exact fun _ _ => trivial
  | succ remaining ih =>
      intro i s owned freeable
      have first := freeable i le_rfl (by omega)
      obtain ⟨kept, others⟩ := vmmFreePage_owned owned first
      refine ⟨first, ih kept fun j after inside nonnull low => ?_⟩
      exact others _ low (freeable j (by omega) (by omega) nonnull low)

/-! ## Fresh frames -/

/-- A frame the allocator has just handed out: no entry refers to it yet. -/
structure Held (base : PmmState) (s : VmmState) (frame : Nat) : Prop where
  origin : base.Free frame
  used : ¬ s.Free frame
  away : Disjoint (frameBlock frame) s.tables
  unmapped : ∀ page < entriesPerTable, s.Present page → s.frameOf page ≠ frame

/-- The page is mapped and may be freed. -/
structure Revocable (base : PmmState) (s : VmmState) (page : Nat) : Prop where
  low : page < entriesPerTable
  present : s.Present page
  removable : s.Removable base page

/-- What `vmm_alloc_page` and `vmm_alloc_user_pages` do before they map a frame: take
it, clear it and move on to the next virtual page. -/
def freshFrame (s : VmmState) (frame : Nat) : VmmState :=
  ((s.takeFrame frame).myMemset (frame * pageSize) 0 pageSize).bumpHeap

@[simp] theorem bumpHeap_mem (s : VmmState) : s.bumpHeap.mem = s.mem := rfl

section Fresh

variable {frame : Nat}

/-- Clearing a frame apart from the tables changes neither these nor the free frames. -/
theorem freshFrame_same (apart : s.Apart) (free : s.Free frame) :
    s.SamePlace (s.freshFrame frame) ∧
      (∀ page < entriesPerTable, (s.freshFrame frame).pte page = s.pte page) ∧
      ∀ page, (s.freshFrame frame).Free page ↔ s.Free page ∧ page ≠ frame := by
  have write := s.takeFrame_bitWrite frame
  have separate := apart.toSeparate
  have place := write.samePlace separate free.1
  have away : Disjoint (frameBlock frame) (s.takeFrame frame).tables := by
    rw [place.tables]
    exact apart.free frame free
  have kept : Set.EqOn (s.freshFrame frame).mem (s.takeFrame frame).mem
      (s.takeFrame frame).tables := by
    rw [freshFrame, bumpHeap_mem]
    exact myMemset_mem_eqOn away.symm
  have layout : (s.takeFrame frame).toPmmState.SameLayout (s.freshFrame frame).toPmmState :=
    ⟨rfl, rfl, rfl⟩
  have place' := samePlace_of_eqOn layout rfl (kept.mono headerBlock_subset)
  refine ⟨place.trans place', fun page low => ?_, fun page => ?_⟩
  · rw [pte_of_eqOn place' (kept.mono entriesBlock_subset) low]
    exact write.pte separate free.1 low
  · rw [free_of_eqOn (separate.of_samePlace place).covers layout (kept.mono bitmapBlock_subset)]
    exact s.toPmmState.free_take

theorem freshFrame_owned (owned : s.Owned base) (free : s.Free frame) :
    (s.freshFrame frame).Owned base ∧ (s.freshFrame frame).Held base frame := by
  obtain ⟨place, same, freeIff⟩ := freshFrame_same owned.apart free
  refine ⟨owned.of_same place same fun page known => ((freeIff page).mp known).1, ?_⟩
  refine ⟨owned.origin frame free, fun known => ((freeIff frame).mp known).2 rfl, ?_, ?_⟩
  · rw [place.tables]
    exact owned.apart.free frame free
  · intro page low present refers
    rw [Present, same page low] at present
    rw [frameOf, same page low] at refers
    have mapped : ¬ s.Free (s.frameOf page) := owned.mapped page low present
    rw [frameOf, refers] at mapped
    exact mapped free

theorem Revocable.freshFrame (revocable : s.Revocable base page) (owned : s.Owned base)
    (free : s.Free frame) : (s.freshFrame frame).Revocable base page := by
  obtain ⟨place, same, _⟩ := freshFrame_same owned.apart free
  refine ⟨revocable.low, ?_, revocable.removable.of_same place same revocable.low⟩
  rw [Present, same page revocable.low]
  exact revocable.present

/-- A frame that cannot be mapped goes back to the allocator. -/
theorem Held.freeFrame (held : s.Held base frame) (owned : s.Owned base) :
    (s.freeFrame (frame * pageSize)).Owned base := by
  have address : frame * pageSize / pageSize = frame := Nat.mul_div_cancel _ (by decide)
  apply owned.freeFrame
  · rw [address]
    exact held.origin
  · rw [address]
    exact held.away
  · rw [address]
    exact held.unmapped

theorem Revocable.freeFrame (revocable : s.Revocable base page) (owned : s.Owned base)
    (low : frame < s.totalPages) : (s.freeFrame (frame * pageSize)).Revocable base page := by
  have write := s.freeFrame_bitWrite (frame * pageSize)
  rw [Nat.mul_div_cancel _ (by decide : 0 < pageSize)] at write
  have separate := owned.apart.toSeparate
  refine ⟨revocable.low, ?_, revocable.removable.of_same (write.samePlace separate low)
    (fun _ => write.pte separate low) revocable.low⟩
  rw [Present, write.pte separate low revocable.low]
  exact revocable.present

/-- Mapping a fresh frame makes its page revocable and leaves the others so. -/
theorem Held.map {target flags : Nat} (held : s.Held base frame) (owned : s.Owned base)
    (inside : target < entriesPerTable) (present : flags % 2 = 1) (small : frame < 2 ^ 52) :
    (s.setPte target (frame * pageSize) flags).Owned base ∧
      (s.setPte target (frame * pageSize) flags).Revocable base target ∧
      ∀ page, s.Revocable base page →
        (s.setPte target (frame * pageSize) flags).Revocable base page := by
  have separate := owned.apart.toSeparate
  have value := @frame_pteValue _ flags small
  have bit : pteValue (frame * pageSize) flags % 2 = 1 := by
    rw [pteValue_eq (by simp only [pageSize]; omega)]
    simp only [pageSize]
    omega
  have place : s.SamePlace (s.setPte target (frame * pageSize) flags) :=
    setPte_samePlace separate.header_entries inside
  have removable : (s.setPte target (frame * pageSize) flags).Removable base target := by
    intro _
    rw [frameOf, pte_setPte separate.header_entries inside, if_pos rfl, value, place.tables]
    refine ⟨held.origin, held.away, fun other low different known => ?_⟩
    rw [Present, pte_setPte separate.header_entries inside, if_neg different] at known
    rw [frameOf, pte_setPte separate.header_entries inside, if_neg different]
    exact held.unmapped other low known
  refine ⟨owned.setPte inside fun _ => ?_, ⟨inside, ?_, removable⟩, fun page revocable => ?_⟩
  · rw [value]
    exact held.used
  · rw [Present, pte_setPte separate.header_entries inside, if_pos rfl]
    exact bit
  · by_cases same : page = target
    · subst same
      refine ⟨inside, ?_, removable⟩
      rw [Present, pte_setPte separate.header_entries inside, if_pos rfl]
      exact bit
    · refine ⟨revocable.low, ?_, fun nonzero => ?_⟩
      · rw [Present, pte_setPte separate.header_entries inside, if_neg same]
        exact revocable.present
      · rw [frameOf, pte_setPte separate.header_entries inside, if_neg same] at nonzero ⊢
        obtain ⟨origin, away, unshared⟩ := revocable.removable nonzero
        rw [place.tables]
        refine ⟨origin, away, fun other low different known => ?_⟩
        rw [Present, pte_setPte separate.header_entries inside] at known
        rw [frameOf, pte_setPte separate.header_entries inside]
        by_cases hit : other = target
        · rw [if_pos hit, value]
          exact (held.unmapped page revocable.low revocable.present).symm
        · rw [if_neg hit] at known ⊢
          exact unshared other low different known

end Fresh

/-! ## Operations that map frames -/

/-- What `vmm_map_page` may be asked for: an entry that is not present, or a frame
that is not free. -/
def Mappable (s : VmmState) (phys flags : Nat) : Prop :=
  flags % 2 = 1 → ¬ s.Free (phys / pageSize)

theorem vmmMapPage_owned {virt phys flags : Nat} (owned : s.Owned base) (small : phys < 2 ^ 64)
    (mappable : s.Mappable phys flags) : (vmmMapPage s virt phys flags).2.Owned base := by
  rcases vmmMapPage_cases s virt phys flags with result | ⟨_, low, result⟩
  · rw [result]
    exact owned
  · rw [result]
    refine owned.setPte low fun present => ?_
    rw [pteValue_eq small] at present ⊢
    have flag : flags % 2 = 1 := by
      simp only [pageSize] at present
      omega
    have frame : (phys / pageSize * pageSize + flags % 2 ^ 12) / pageSize = phys / pageSize := by
      simp only [pageSize]
      omega
    rw [frame]
    exact mappable flag

/-- The frames the allocator manages have 64-bit addresses. -/
theorem Owned.frame_lt (owned : s.Owned base) {frame : Nat} (free : s.Free frame) :
    frame < 2 ^ 52 :=
  free.1.trans_le owned.apart.bounded

theorem Held.frame_low (held : s.Held base page) (owned : s.Owned base) : page < s.totalPages := by
  rw [owned.totalPages]
  exact held.origin.1

/-- A fresh frame is mapped at the next virtual page, or the page is refused and the
frame given back. -/
theorem mapFresh_owned {frame flags : Nat} (owned : s.Owned base) (free : s.Free frame)
    (present : flags % 2 = 1) :
    (vmmMapPage (s.freshFrame frame) s.kernelHeapEnd (frame * pageSize) flags =
        (0, s.freshFrame frame) ∧
      ((s.freshFrame frame).freeFrame (frame * pageSize)).Owned base ∧
      ∀ page, s.Revocable base page →
        ((s.freshFrame frame).freeFrame (frame * pageSize)).Revocable base page) ∨
    ∃ mapped, vmmMapPage (s.freshFrame frame) s.kernelHeapEnd (frame * pageSize) flags =
        (s.kernelHeapEnd, mapped) ∧ s.kernelHeapEnd ≠ 0 ∧
      mapped.kernelHeapEnd = (s.kernelHeapEnd + pageSize) % 2 ^ 64 ∧ mapped.Owned base ∧
      mapped.Revocable base (s.kernelHeapEnd / pageSize) ∧
      ∀ page, s.Revocable base page → mapped.Revocable base page := by
  obtain ⟨freshOwned, held⟩ := freshFrame_owned owned free
  rcases vmmMapPage_cases (s.freshFrame frame) s.kernelHeapEnd (frame * pageSize) flags with
    refused | ⟨nonnull, low, accepted⟩
  · exact .inl ⟨refused, held.freeFrame freshOwned, fun page revocable =>
      (revocable.freshFrame owned free).freeFrame freshOwned (held.frame_low freshOwned)⟩
  · obtain ⟨mappedOwned, target, others⟩ :=
      held.map freshOwned low present (owned.frame_lt free)
    exact .inr ⟨_, accepted, nonnull, rfl, mappedOwned, target, fun page revocable =>
      others page (revocable.freshFrame owned free)⟩

@[simp] theorem myMemset_takeFrame_kernelHeapEnd (s : VmmState) (frame ptr value num : Nat) :
    ((s.takeFrame frame).myMemset ptr value num).kernelHeapEnd = s.kernelHeapEnd := rfl

theorem vmmAllocPage_owned (owned : s.Owned base) : (vmmAllocPage s).2.Owned base := by
  unfold vmmAllocPage
  split
  · exact owned
  · rcases allocFrame_cases owned.apart.bounded with ⟨_, result⟩ | ⟨frame, free, _, result⟩
    · rw [result]
      exact owned
    · simp only [result, myMemset_takeFrame_kernelHeapEnd]
      rw [← freshFrame]
      split
      · exact owned.takeFrame free
      · rcases mapFresh_owned owned free (show 0x3 % 2 = 1 from rfl) with
          ⟨refused, freed, _⟩ | ⟨mapped, accepted, nonnull, _, mappedOwned, _⟩
        · rw [refused]
          exact freed
        · simp only [accepted, if_neg nonnull]
          exact mappedOwned

/-- The pages `vmm_alloc_user_pages` has mapped before turn `i`: they may all be
freed again, and the next virtual page follows them. -/
structure UserPages (base : PmmState) (firstVirt i : Nat) (s : VmmState) : Prop where
  owned : s.Owned base
  started : firstVirt = 0 → i = 0
  next : firstVirt ≠ 0 → s.kernelHeapEnd = (firstVirt + i * pageSize) % 2 ^ 64
  mapped : firstVirt ≠ 0 → ∀ j < i,
    s.Revocable base ((firstVirt + j * pageSize) % 2 ^ 64 / pageSize)

theorem Revocable.freeable {addr : Nat} (revocable : s.Revocable base (addr / pageSize)) :
    s.Freeable base addr :=
  fun _ _ => revocable.removable

/-- Taking the pages mapped so far back keeps the frames owned. -/
theorem rollback_owned {firstVirt i : Nat} (owned : s.Owned base)
    (mapped : firstVirt ≠ 0 → ∀ j < i,
      s.Revocable base ((firstVirt + j * pageSize) % 2 ^ 64 / pageSize)) :
    (if firstVirt ≠ 0 then freePagesFrom firstVirt 0 i s else s).Owned base := by
  split
  · rename_i nonnull
    apply freePagesFrom_owned owned
    apply freeableFrom_of_removable owned
    intro j _ inside
    rw [Nat.zero_add] at inside
    exact (mapped nonnull j inside).freeable
  · exact owned

theorem allocUserFrom_owned {remaining : Nat} :
    ∀ {firstVirt i : Nat} {s : VmmState}, UserPages base firstVirt i s →
      (allocUserFrom firstVirt i remaining s).2.Owned base := by
  induction remaining with
  | zero => exact fun pages => pages.owned
  | succ remaining ih =>
      intro firstVirt i s pages
      have owned := pages.owned
      unfold allocUserFrom
      rcases allocFrame_cases owned.apart.bounded with ⟨_, result⟩ | ⟨frame, free, _, result⟩
      · simp only [result, ↓reduceIte]
        exact rollback_owned owned pages.mapped
      · simp only [result, myMemset_takeFrame_kernelHeapEnd]
        rw [← freshFrame]
        split
        · refine rollback_owned (owned.takeFrame free) fun nonnull j inside => ?_
          have write := s.takeFrame_bitWrite frame
          have separate := owned.apart.toSeparate
          obtain ⟨low, present, removable⟩ := pages.mapped nonnull j inside
          refine ⟨low, ?_, removable.of_same (write.samePlace separate free.1)
            (fun _ => write.pte separate free.1) low⟩
          rw [Present, write.pte separate free.1 low]
          exact present
        · rcases mapFresh_owned owned free (show 0x7 % 2 = 1 from rfl) with
            ⟨refused, freed, kept⟩ | ⟨mapped, accepted, nonnull, next, mappedOwned, target, kept⟩
          · simp only [refused, ↓reduceIte]
            exact rollback_owned freed fun nonnull j inside => kept _ (pages.mapped nonnull j inside)
          · simp only [accepted, if_neg nonnull]
            apply ih
            have low := target.low
            simp only [pageSize, entriesPerTable] at low
            by_cases first : firstVirt = 0
            · have start := pages.started first
              subst start
              rw [if_pos first]
              refine ⟨mappedOwned, fun zero => absurd zero nonnull, fun _ => ?_, fun _ j inside => ?_⟩
              · rw [next, Nat.zero_add, Nat.one_mul]
              · have zero : j = 0 := by omega
                rw [zero, Nat.zero_mul, Nat.add_zero, Nat.mod_eq_of_lt (by omega)]
                exact target
            · have here := pages.next first
              rw [if_neg first]
              refine ⟨mappedOwned, fun zero => absurd zero first, fun _ => ?_, fun _ j inside => ?_⟩
              · rw [next, here, Nat.mod_add_mod, Nat.add_mul, Nat.one_mul, Nat.add_assoc]
              · rcases Nat.lt_succ_iff_lt_or_eq.mp inside with earlier | rfl
                · exact kept _ (pages.mapped first j earlier)
                · rw [← here]
                  exact target

theorem vmmAllocUserPages_owned (owned : s.Owned base) (count : Nat) :
    (vmmAllocUserPages s count).2.Owned base := by
  unfold vmmAllocUserPages
  split
  · exact owned
  · apply allocUserFrom_owned
    exact ⟨owned, fun _ => rfl, fun nonnull => absurd rfl nonnull, fun nonnull => absurd rfl nonnull⟩

theorem vmmAllocStack_owned (owned : s.Owned base) (pages : Nat) :
    (vmmAllocStack s pages).2.Owned base := by
  have allocated := vmmAllocUserPages_owned owned ((pages + 1) % 2 ^ 64)
  unfold vmmAllocStack
  split
  · exact owned
  · dsimp only
    split
    · exact allocated
    · exact vmmUnmapPage_owned allocated _

theorem vmmFreePagesRegion_owned {virt count : Nat} (owned : s.Owned base)
    (freeable : virt ≠ 0 → FreeableFrom base virt 0 count s) :
    (vmmFreePagesRegion s virt count).Owned base := by
  unfold vmmFreePagesRegion
  split
  · exact owned
  · rename_i given
    exact freePagesFrom_owned owned (freeable fun zero => given (.inl zero))

end VmmState

end NTux.Mem
