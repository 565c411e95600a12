import NTux.Mem.Pmm
import NTux.Foundation.Runs
import Mathlib.Tactic.IntervalCases

/-! # Which pages the physical allocator hands out

`pmm_init` shifts the base of the entry it takes the bitmap from by the size of
the bitmap in bytes, and then turns addresses into page numbers by a truncating
division. The first page freed from that entry therefore starts below the end of
the bitmap unless the size happens to be a multiple of the page size
(`Memmap.BitmapPageKept`). Apart from that page, every page handed out lies in a
usable entry and away from the bitmap (`pmmPages_sound_iff`).
-/

namespace NTux.Mem

open NTux.Foundation Memory

/-! ## The loops of `pmm_init` -/

theorem limit_le_highestAddr {entry : MemmapEntry} {memmap : Memmap} (member : entry ∈ memmap) :
    ∀ highest, entry.limit ≤ highestAddr highest memmap := by
  have grows : ∀ (rest : Memmap) highest, highest ≤ highestAddr highest rest := by
    intro rest
    induction rest with
    | nil => exact fun _ => le_rfl
    | cons head rest ih =>
        intro highest
        rw [highestAddr]
        split
        · exact (ih head.limit).trans' (by omega)
        · exact ih highest
  induction member with
  | head rest =>
      intro highest
      rw [highestAddr]
      split
      · exact grows rest entry.limit
      · exact (grows rest highest).trans' (by omega)
  | tail head _ ih => exact fun highest => ih _

theorem highestAddr_lt (memmap : Memmap) :
    ∀ highest, highest < 2 ^ 64 → highestAddr highest memmap < 2 ^ 64 := by
  induction memmap with
  | nil => exact fun _ bound => bound
  | cons entry rest ih =>
      intro highest bound
      rw [highestAddr]
      split
      · exact ih _ (Nat.mod_lt _ (by decide))
      · exact ih _ bound

/-- Page numbers are page numbers of 64-bit addresses. -/
theorem Memmap.totalPages_lt (memmap : Memmap) : memmap.totalPages < 2 ^ 52 := by
  have := highestAddr_lt memmap 0 (by decide)
  simp only [Memmap.totalPages, pageSize]
  omega

/-- An entry is the one the bitmap is taken from: the first usable entry that holds it. -/
def Memmap.bitmapEntry (memmap : Memmap) : Option MemmapEntry :=
  memmap.find? fun entry => entry.type = .usable ∧ entry.length ≥ memmap.bitmapSize

theorem carveBitmap_of_find {size : Nat} {entry : MemmapEntry} {memmap : Memmap}
    (found : memmap.find? (fun entry => entry.type = .usable ∧ entry.length ≥ size) = some entry) :
    ∃ before after, memmap = before ++ entry :: after ∧
      carveBitmap size memmap = (some entry.base, before ++ entry.carve size :: after) := by
  induction memmap with
  | nil => simp at found
  | cons head rest ih =>
      by_cases fits : head.type = .usable ∧ head.length ≥ size
      · have same : head = entry := by simpa [List.find?_cons, fits] using found
        subst same
        exact ⟨[], rest, rfl, by simp [carveBitmap, fits]⟩
      · have later : rest.find? (fun entry => entry.type = .usable ∧ entry.length ≥ size) =
            some entry := by
          rw [List.find?_cons] at found
          simpa only [fits, decide_false] using found
        obtain ⟨before, after, split, carved⟩ := ih later
        refine ⟨head :: before, after, by rw [split]; rfl, ?_⟩
        rw [carveBitmap, if_neg fits, carved]
        rfl

section ClearPages

variable {limit fuel addr page : Nat} {s t : PmmState}

theorem clearPages_sameLayout (result : clearPages limit fuel addr s = some t) :
    s.SameLayout t := by
  induction fuel generalizing addr s with
  | zero => cases result
  | succ fuel ih =>
      rw [clearPages] at result
      split at result
      · exact (s.release_sameLayout _).trans (ih result)
      · cases result
        exact .refl _

theorem clearPages_clear (result : clearPages limit fuel addr s = some t)
    (clear : s.testBit page = false) : t.testBit page = false := by
  induction fuel generalizing addr s with
  | zero => cases result
  | succ fuel ih =>
      rw [clearPages] at result
      split at result
      · refine ih result ?_
        rw [PmmState.testBit_release, clear, Bool.and_false]
      · cases result
        exact clear

/-- The loop frees the page of its first address if it turns at all. -/
theorem clearPages_first (result : clearPages limit fuel addr s = some t)
    (turns : (addr + pageSize) % 2 ^ 64 ≤ limit) : t.testBit (addr / pageSize) = false := by
  cases fuel with
  | zero => cases result
  | succ fuel =>
      rw [clearPages, if_pos turns] at result
      refine clearPages_clear result ?_
      simp

/-- An entry that ends at `2 ^ 64` ends at zero for the source, which frees at most
the last page there is. -/
theorem clearPages_wrapped (result : clearPages 0 fuel addr s = some t) (inside : addr < 2 ^ 64)
    (freed : t.testBit page = false) : s.testBit page = false ∨ page = 2 ^ 52 - 1 := by
  cases fuel with
  | zero => cases result
  | succ fuel =>
      rw [clearPages] at result
      split at result
      · rename_i turns
        have last : (addr + pageSize) % 2 ^ 64 = 0 := by omega
        rw [last] at result
        cases fuel with
        | zero => cases result
        | succ fuel =>
            rw [clearPages, if_neg (by decide)] at result
            cases result
            rw [PmmState.testBit_release, Bool.and_eq_false_iff, decide_eq_false_iff_not] at freed
            refine freed.symm.imp_right fun same => ?_
            have : page = addr / pageSize := by simpa using same
            simp only [pageSize] at this last
            omega
      · cases result
        exact .inl freed

/-- An aligned loop up to the last page of the address space steps over its limit
and never ends. -/
theorem clearPages_endless (aligned : addr % pageSize = 0) :
    clearPages (2 ^ 64 - pageSize) fuel addr s = none := by
  induction fuel generalizing addr s with
  | zero => rfl
  | succ fuel ih =>
      simp only [pageSize] at aligned
      rw [clearPages, if_pos (by simp only [pageSize]; omega)]
      exact ih (by simp only [pageSize]; omega)

/-- Otherwise the loop frees the pages it steps through. -/
theorem clearPages_sound (result : clearPages limit fuel addr s = some t) (below : addr ≤ limit)
    (inside : limit < 2 ^ 64) (aligned : limit % pageSize = 0) (freed : t.testBit page = false) :
    s.testBit page = false ∨
      ∃ turn, page = (addr + turn * pageSize) / pageSize ∧
        addr + turn * pageSize + pageSize ≤ limit := by
  induction fuel generalizing addr s with
  | zero => cases result
  | succ fuel ih =>
      by_cases last : addr = limit ∧ limit = 2 ^ 64 - pageSize
      · obtain ⟨rfl, same⟩ := last
        have endless : clearPages (2 ^ 64 - pageSize) (fuel + 1) addr s = none :=
          clearPages_endless aligned
        rw [← same, result] at endless
        cases endless
      · rw [clearPages] at result
        split at result
        · rename_i turns
          simp only [pageSize] at turns last aligned
          have plain : (addr + pageSize) % 2 ^ 64 = addr + pageSize := by
            simp only [pageSize]
            omega
          rw [plain] at result
          rcases ih result (by simp only [pageSize]; omega) with earlier | ⟨turn, same, fits⟩
          · rw [PmmState.testBit_release, Bool.and_eq_false_iff, decide_eq_false_iff_not] at earlier
            refine earlier.symm.imp_right fun same => ⟨0, ?_, ?_⟩
            · simpa using same
            · simp only [pageSize]
              omega
          · refine .inr ⟨turn + 1, ?_, ?_⟩
            · have shifted : addr + pageSize + turn * pageSize = addr + (turn + 1) * pageSize := by
                ring
              rw [same, shifted]
            · simp only [pageSize] at fits ⊢
              omega
        · cases result
          exact .inl freed

end ClearPages

section ClearUsable

variable {entries : Memmap} {page : Nat} {s t : PmmState}

theorem clearUsable_sameLayout (result : clearUsable entries s = some t) : s.SameLayout t := by
  induction entries generalizing s with
  | nil =>
      cases result
      exact .refl _
  | cons entry rest ih =>
      rw [clearUsable] at result
      split at result
      · obtain ⟨middle, first, later⟩ := Option.bind_eq_some_iff.mp result
        exact (clearPages_sameLayout first).trans (ih later)
      · exact ih result

theorem clearUsable_clear (result : clearUsable entries s = some t)
    (clear : s.testBit page = false) : t.testBit page = false := by
  induction entries generalizing s with
  | nil =>
      cases result
      exact clear
  | cons entry rest ih =>
      rw [clearUsable] at result
      split at result
      · obtain ⟨middle, first, later⟩ := Option.bind_eq_some_iff.mp result
        exact ih later (clearPages_clear first clear)
      · exact ih result clear

/-- The loop frees the page an entry begins in if the entry holds a page from there. -/
theorem clearUsable_first {before after : Memmap} {entry : MemmapEntry}
    (result : clearUsable (before ++ entry :: after) s = some t) (usable : entry.type = .usable)
    (turns : (entry.base + pageSize) % 2 ^ 64 ≤ entry.limit) :
    t.testBit (entry.base / pageSize) = false := by
  induction before generalizing s with
  | nil =>
      rw [List.nil_append, clearUsable, if_pos usable] at result
      obtain ⟨middle, first, later⟩ := Option.bind_eq_some_iff.mp result
      exact clearUsable_clear later (clearPages_first first turns)
  | cons head before ih =>
      rw [List.cons_append, clearUsable] at result
      split at result
      · obtain ⟨middle, _, later⟩ := Option.bind_eq_some_iff.mp result
        exact ih later
      · exact ih result

/-- A range of 64-bit addresses that ends on a page boundary. -/
structure MemmapEntry.Regular (entry : MemmapEntry) : Prop where
  addressable : entry.base < 2 ^ 64
  bounded : entry.base + entry.length ≤ 2 ^ 64
  aligned : (entry.base + entry.length) % pageSize = 0

/-- A page the source finds in an entry, from the base of the entry in steps of a page. -/
def MemmapEntry.Steps (entry : MemmapEntry) (page : Nat) : Prop :=
  ∃ turn, page = (entry.base + turn * pageSize) / pageSize ∧
    entry.base + turn * pageSize + pageSize ≤ entry.base + entry.length

theorem clearPages_entry {entry : MemmapEntry} {fuel : Nat} (regular : entry.Regular)
    (result : clearPages entry.limit fuel entry.base s = some t) (low : page < 2 ^ 52 - 1)
    (freed : t.testBit page = false) :
    s.testBit page = false ∨ (entry.base + entry.length < 2 ^ 64 ∧ entry.Steps page) := by
  have bounded := regular.bounded
  rcases Nat.lt_or_ge (entry.base + entry.length) (2 ^ 64) with inside | wrapped
  · have plain : entry.limit = entry.base + entry.length := Nat.mod_eq_of_lt inside
    rw [plain] at result
    exact (clearPages_sound result (by omega) inside regular.aligned freed).imp_right
      fun steps => ⟨inside, steps⟩
  · have zero : entry.limit = 0 := by
      simp only [MemmapEntry.limit]
      omega
    rw [zero] at result
    exact .inl ((clearPages_wrapped result regular.addressable freed).resolve_right (by omega))

/-- Every page the last loop frees is found in a usable entry. -/
theorem clearUsable_sound (result : clearUsable entries s = some t)
    (regular : ∀ entry ∈ entries, entry.type = .usable → entry.Regular) (low : page < 2 ^ 52 - 1)
    (freed : t.testBit page = false) :
    s.testBit page = false ∨ ∃ entry ∈ entries, entry.type = .usable ∧
      entry.base + entry.length < 2 ^ 64 ∧ entry.Steps page := by
  induction entries generalizing s with
  | nil =>
      cases result
      exact .inl freed
  | cons entry rest ih =>
      have tail := fun other member => regular other (List.mem_cons_of_mem _ member)
      rw [clearUsable] at result
      split at result
      · rename_i usable
        obtain ⟨middle, first, later⟩ := Option.bind_eq_some_iff.mp result
        rcases ih later tail with earlier | ⟨found, member, known⟩
        · exact (clearPages_entry (regular entry List.mem_cons_self usable) first low earlier).imp_right
            fun known => ⟨entry, List.mem_cons_self, usable, known⟩
        · exact .inr ⟨found, List.mem_cons_of_mem _ member, known⟩
      · exact (ih result tail).imp_right fun ⟨found, member, known⟩ =>
          ⟨found, List.mem_cons_of_mem _ member, known⟩

end ClearUsable

/-- Before its last loop `pmm_init` has set every bit of the bitmap. -/
theorem placeBitmap_testBit (memmap : Memmap) (s : PmmState) {page : Nat}
    (inside : page < 8 * memmap.bitmapSize) : (placeBitmap memmap s).testBit page = true := by
  rw [PmmState.testBit_eq]
  simp only [placeBitmap]
  rw [store_at _ _ (by omega)]
  have : page % 8 < 8 := Nat.mod_lt _ (by decide)
  generalize page % 8 = bit at this
  interval_cases bit <;> rfl

/-- The bitmap has a bit for every page. -/
theorem Memmap.totalPages_lt_bits (memmap : Memmap) : memmap.totalPages < 8 * memmap.bitmapSize := by
  simp only [Memmap.bitmapSize]
  omega

/-! ## The pages left free by `pmm_init` -/

/-- A memory map as a boot loader hands it over: the usable entries are
page-aligned ranges of 64-bit addresses, no two of which meet. -/
structure Memmap.WellFormed (memmap : Memmap) : Prop where
  aligned : ∀ entry ∈ memmap, entry.type = .usable →
    entry.base % pageSize = 0 ∧ entry.length % pageSize = 0
  addressable : ∀ entry ∈ memmap, entry.type = .usable →
    entry.base < 2 ^ 64 ∧ entry.base + entry.length ≤ 2 ^ 64
  disjoint : memmap.Pairwise fun first second => first.type = .usable → second.type = .usable →
    Disjoint (block first.base first.length) (block second.base second.length)

/-- The page at an address lies in one usable entry of the map and shares no byte
with the bitmap. -/
structure PageSound (memmap : Memmap) (s : PmmState) (addr : Nat) : Prop where
  usable : ∃ entry ∈ memmap, entry.type = .usable ∧
    block addr pageSize ⊆ block entry.base entry.length
  apart : Disjoint (block addr pageSize) (block s.bitmap s.bitmapSize)

/-- No page that the bitmap only partly fills is freed: the bitmap ends on a page
boundary, or less than a page of its entry is left behind it, or the page is page
zero, or the entry ends at `2 ^ 64` and none of its pages is freed. -/
def Memmap.BitmapPageKept (memmap : Memmap) : Prop :=
  ∀ entry, memmap.bitmapEntry = some entry →
    memmap.bitmapSize % pageSize = 0 ∨ entry.length < memmap.bitmapSize + pageSize ∨
      (entry.base = 0 ∧ memmap.bitmapSize < pageSize) ∨ entry.base + entry.length = 2 ^ 64

/-- What `pmm_init` leaves is what its last loop leaves, apart from `memory_start`. -/
theorem pmmInit_spec {memmap carved : Memmap} {s init : PmmState}
    (result : pmmInit memmap s = some (init, carved)) :
    carved = (carveBitmap memmap.bitmapSize memmap).2 ∧
      ∃ t, clearUsable carved (placeBitmap memmap s) = some t ∧ t.SameLayout init ∧
        ∀ page, init.testBit page = t.testBit page := by
  simp only [pmmInit, Option.map_eq_some_iff, Prod.mk.injEq] at result
  obtain ⟨t, cleared, rfl, rfl⟩ := result
  exact ⟨rfl, t, cleared, ⟨rfl, rfl, rfl⟩, fun _ => PmmState.testBit_congr rfl rfl⟩

section Init

variable {memmap carved : Memmap} {s init : PmmState} {entry : MemmapEntry} {page : Nat}

theorem pmmInit_sameLayout (result : pmmInit memmap s = some (init, carved)) :
    (placeBitmap memmap s).SameLayout init := by
  obtain ⟨_, t, cleared, same, _⟩ := pmmInit_spec result
  exact (clearUsable_sameLayout cleared).trans same

theorem pmmInit_totalPages (result : pmmInit memmap s = some (init, carved)) :
    init.totalPages = memmap.totalPages :=
  (pmmInit_sameLayout result).totalPages

theorem pmmInit_bitmapSize (result : pmmInit memmap s = some (init, carved)) :
    init.bitmapSize = memmap.bitmapSize :=
  (pmmInit_sameLayout result).bitmapSize

theorem pmmInit_bitmap (result : pmmInit memmap s = some (init, carved))
    (found : memmap.bitmapEntry = some entry) : init.bitmap = entry.base := by
  obtain ⟨before, after, _, carvedEq⟩ := carveBitmap_of_find found
  rw [(pmmInit_sameLayout result).bitmap]
  simp only [placeBitmap, carvedEq, Option.getD_some]

theorem bitmapEntry_spec (found : memmap.bitmapEntry = some entry) :
    entry ∈ memmap ∧ entry.type = .usable ∧ memmap.bitmapSize ≤ entry.length := by
  have holds := List.find?_some found
  simp only [ge_iff_le, decide_eq_true_eq] at holds
  exact ⟨List.mem_of_find?_eq_some found, holds.1, holds.2⟩

/-- Carving leaves the end of the entry where it was. -/
theorem carve_regular (wellFormed : memmap.WellFormed) (found : memmap.bitmapEntry = some entry) :
    (entry.carve memmap.bitmapSize).Regular ∧
      (entry.base + memmap.bitmapSize < 2 ^ 64 →
        (entry.carve memmap.bitmapSize).base = entry.base + memmap.bitmapSize ∧
        (entry.carve memmap.bitmapSize).base + (entry.carve memmap.bitmapSize).length =
          entry.base + entry.length) := by
  obtain ⟨member, usable, fits⟩ := bitmapEntry_spec found
  obtain ⟨baseAligned, lengthAligned⟩ := wellFormed.aligned entry member usable
  obtain ⟨_, bounded⟩ := wellFormed.addressable entry member usable
  simp only [pageSize] at baseAligned lengthAligned
  refine ⟨⟨?_, ?_, ?_⟩, fun inside => ⟨?_, ?_⟩⟩ <;>
    simp only [MemmapEntry.carve, pageSize] <;> omega

/-- Every page `pmm_init` leaves free is found in a usable entry, away from the one
the bitmap is taken from, or behind the bitmap in that one. -/
theorem pmmInit_free (wellFormed : memmap.WellFormed) (found : memmap.bitmapEntry = some entry)
    (result : pmmInit memmap s = some (init, carved)) (free : init.Free page) :
    (∃ other ∈ memmap, other.type = .usable ∧ other.Steps page ∧
        Disjoint (block other.base other.length) (block entry.base entry.length)) ∨
      ((entry.carve memmap.bitmapSize).base + (entry.carve memmap.bitmapSize).length < 2 ^ 64 ∧
        (entry.carve memmap.bitmapSize).Steps page) := by
  obtain ⟨low, clear⟩ := free
  rw [pmmInit_totalPages result] at low
  obtain ⟨rfl, t, cleared, _, bits⟩ := pmmInit_spec result
  obtain ⟨before, after, split, carvedEq⟩ := carveBitmap_of_find found
  obtain ⟨_, entryUsable, _⟩ := bitmapEntry_spec found
  have apart := wellFormed.disjoint
  rw [split, List.pairwise_append, List.pairwise_cons] at apart
  obtain ⟨_, ⟨apartAfter, _⟩, apartBefore⟩ := apart
  have inMap : ∀ other ∈ before ++ after, other ∈ memmap := by
    intro other member
    rw [split]
    rcases List.mem_append.mp member with early | late
    · exact List.mem_append_left _ early
    · exact List.mem_append_right _ (List.mem_cons_of_mem _ late)
  have regularOther : ∀ other ∈ before ++ after, other.type = .usable → other.Regular := by
    intro other member usable
    have aligned := wellFormed.aligned other (inMap other member) usable
    have bounded := wellFormed.addressable other (inMap other member) usable
    simp only [pageSize] at aligned
    exact ⟨bounded.1, bounded.2, by simp only [pageSize]; omega⟩
  rw [carvedEq] at cleared
  have regular : ∀ other ∈ before ++ entry.carve memmap.bitmapSize :: after,
      other.type = .usable → other.Regular := by
    intro other member usable
    rcases List.mem_append.mp member with early | late
    · exact regularOther other (List.mem_append_left _ early) usable
    · rcases List.mem_cons.mp late with rfl | late
      · exact (carve_regular wellFormed found).1
      · exact regularOther other (List.mem_append_right _ late) usable
  have freed : t.testBit page = false := by rw [← bits, clear]
  have notLast : page < 2 ^ 52 - 1 := by
    have := memmap.totalPages_lt
    omega
  rcases clearUsable_sound cleared regular notLast freed with
    unset | ⟨other, member, usable, inside, steps⟩
  · rw [placeBitmap_testBit memmap s (low.trans memmap.totalPages_lt_bits)] at unset
    cases unset
  · rcases List.mem_append.mp member with early | late
    · exact .inl ⟨other, inMap other (List.mem_append_left _ early), usable, steps,
        apartBefore other early entry List.mem_cons_self usable entryUsable⟩
    · rcases List.mem_cons.mp late with rfl | late
      · exact .inr ⟨inside, steps⟩
      · exact .inl ⟨other, inMap other (List.mem_append_right _ late), usable, steps,
          (apartAfter other late entryUsable usable).symm⟩

/-- A page found in a page-aligned entry lies inside it. -/
theorem MemmapEntry.Steps.inside {other : MemmapEntry} (steps : other.Steps page)
    (aligned : other.base % pageSize = 0) :
    block (page * pageSize) pageSize ⊆ block other.base other.length := by
  obtain ⟨turn, same, fits⟩ := steps
  simp only [pageSize] at same fits aligned
  intro address member
  have low := member.1
  have high := member.2
  simp only [pageSize] at low high
  exact ⟨by omega, by omega⟩

/-- With the condition on the bitmap, every page left free but page zero is sound. -/
theorem pmmInit_free_sound (wellFormed : memmap.WellFormed)
    (found : memmap.bitmapEntry = some entry)
    (result : pmmInit memmap s = some (init, carved)) (kept : memmap.BitmapPageKept)
    (free : init.Free page) (nonzero : page ≠ 0) : PageSound memmap init (page * pageSize) := by
  obtain ⟨entryMember, entryUsable, fits⟩ := bitmapEntry_spec found
  have bitmapInside : block init.bitmap init.bitmapSize ⊆ block entry.base entry.length := by
    rw [pmmInit_bitmap result found, pmmInit_bitmapSize result]
    exact Set.Ico_subset_Ico_right (by omega)
  rcases pmmInit_free wellFormed found result free with
    ⟨other, member, usable, steps, apart⟩ | ⟨inside, turn, same, room⟩
  · have within := steps.inside (wellFormed.aligned other member usable).1
    exact ⟨⟨other, member, usable, within⟩, apart.mono within bitmapInside⟩
  · obtain ⟨_, carveEnd⟩ := carve_regular wellFormed found
    obtain ⟨baseAligned, lengthAligned⟩ := wellFormed.aligned entry entryMember entryUsable
    obtain ⟨_, bounded⟩ := wellFormed.addressable entry entryMember entryUsable
    have shifted : entry.base + memmap.bitmapSize < 2 ^ 64 := by
      by_contra wrapped
      simp only [MemmapEntry.carve, pageSize] at room
      omega
    obtain ⟨baseEq, endEq⟩ := carveEnd shifted
    rw [endEq] at inside room
    rw [baseEq] at same room
    have condition := kept entry found
    simp only [pageSize] at same room baseAligned lengthAligned condition
    refine ⟨⟨entry, entryMember, entryUsable, ?_⟩, ?_⟩
    · intro address member
      have low := member.1
      have high := member.2
      simp only [pageSize] at low high
      exact ⟨by omega, by omega⟩
    · rw [pmmInit_bitmap result found, pmmInit_bitmapSize result]
      exact block_disjoint (by simp only [pageSize]; omega)

/-- Without it, the page that the bitmap ends in is left free. -/
theorem pmmInit_bitmapPage_free (wellFormed : memmap.WellFormed)
    (result : pmmInit memmap s = some (init, carved)) (unkept : ¬ memmap.BitmapPageKept) :
    ∃ page, init.Free page ∧ page ≠ 0 ∧ ¬ PageSound memmap init (page * pageSize) := by
  simp only [Memmap.BitmapPageKept, not_forall, not_or, not_and, Nat.not_lt] at unkept
  obtain ⟨entry, found, partly, room, notFirst, notLast⟩ := unkept
  obtain ⟨member, usable, fits⟩ := bitmapEntry_spec found
  obtain ⟨baseAligned, lengthAligned⟩ := wellFormed.aligned entry member usable
  obtain ⟨_, bounded⟩ := wellFormed.addressable entry member usable
  simp only [pageSize] at baseAligned lengthAligned partly room notFirst
  have limitEq : entry.limit = entry.base + entry.length := Nat.mod_eq_of_lt (by omega)
  have highest := limit_le_highestAddr member 0
  obtain ⟨_, carveEnd⟩ := carve_regular wellFormed found
  obtain ⟨baseEq, endEq⟩ := carveEnd (by omega)
  refine ⟨(entry.base + memmap.bitmapSize) / pageSize, ⟨?_, ?_⟩, ?_, fun sound => ?_⟩
  · rw [pmmInit_totalPages result]
    simp only [Memmap.totalPages, pageSize]
    omega
  · obtain ⟨rfl, t, cleared, _, bits⟩ := pmmInit_spec result
    obtain ⟨before, after, split, carvedEq⟩ := carveBitmap_of_find found
    rw [carvedEq] at cleared
    rw [bits, ← baseEq]
    apply clearUsable_first cleared usable
    rw [MemmapEntry.limit, endEq, baseEq]
    simp only [pageSize]
    omega
  · simp only [pageSize]
    omega
  · have apart := sound.apart
    rw [pmmInit_bitmap result found, pmmInit_bitmapSize result] at apart
    have inPage : entry.base + memmap.bitmapSize - 1 ∈
        block ((entry.base + memmap.bitmapSize) / pageSize * pageSize) pageSize := by
      constructor <;> simp only [pageSize] <;> omega
    exact Set.disjoint_left.mp apart inPage ⟨by omega, by omega⟩

end Init

/-! ## Runs of the allocator -/

/-- The calls made on the allocator once it is initialized. -/
inductive PmmCall where
  | allocPage
  | freePage (addr : Nat)
  deriving DecidableEq, Repr

/-- The allocator together with the addresses it has returned so far. -/
structure PmmTrace where
  state : PmmState
  returned : List Nat

/-- One call. Only what the allocator has returned is given back to it. -/
inductive PmmStep : PmmTrace → PmmCall → PmmTrace → Prop where
  | allocPage (trace : PmmTrace) :
      PmmStep trace .allocPage
        ⟨(pmmAllocPage trace.state).2, (pmmAllocPage trace.state).1 :: trace.returned⟩
  | freePage (trace : PmmTrace) {addr : Nat} (member : addr ∈ trace.returned) :
      PmmStep trace (.freePage addr) ⟨pmmFreePage trace.state addr, trace.returned⟩

/-- Pages that were free at the start are the only ones free or returned, page
zero apart: its address is the null pointer, which callers may hand back. -/
structure PmmTrace.From (init : PmmState) (trace : PmmTrace) : Prop where
  totalPages : trace.state.totalPages = init.totalPages
  free : ∀ page, trace.state.Free page → init.Free page ∨ page = 0
  returned : ∀ addr ∈ trace.returned, addr = 0 ∨ ∃ page, init.Free page ∧ addr = page * pageSize

/-- One call keeps to the pages that were free at the start. -/
theorem PmmTrace.From.step {init : PmmState} (bounded : init.totalPages < 2 ^ 52)
    {trace next : PmmTrace} {call : PmmCall} (origin : trace.From init)
    (taken : PmmStep trace call next) : next.From init := by
  cases taken with
  | allocPage =>
      have layout := (pmmAllocPage_sameLayout trace.state).totalPages.trans origin.totalPages
      rcases pmmAllocPage_cases trace.state with ⟨_, result⟩ | ⟨page, free, _, result⟩
      · rw [result] at layout ⊢
        refine ⟨layout, origin.free, fun addr member => ?_⟩
        rcases List.mem_cons.mp member with rfl | earlier
        · exact .inl rfl
        · exact origin.returned addr earlier
      · rw [result] at layout ⊢
        refine ⟨layout, fun other known => ?_, fun addr member => ?_⟩
        · exact origin.free other ((PmmState.free_take _).mp known).1
        · rcases List.mem_cons.mp member with rfl | earlier
          · have low := free.1
            rw [origin.totalPages] at low
            have plain : page * pageSize % 2 ^ 64 = page * pageSize := by
              simp only [pageSize]
              omega
            rw [plain]
            exact (origin.free page free).symm.imp (fun zero => by rw [zero, Nat.zero_mul])
              fun known => ⟨page, known, rfl⟩
          · exact origin.returned addr earlier
  | freePage member =>
      rename_i addr
      refine ⟨(pmmFreePage_totalPages _ _).trans origin.totalPages, fun page known => ?_,
        origin.returned⟩
      rcases (free_pmmFreePage _ _).mp known with earlier | ⟨same, low⟩
      · exact origin.free page earlier
      · rcases origin.returned addr member with zero | ⟨other, free, value⟩
        · rw [same, zero]
          exact .inr (Nat.zero_div _)
        · have : page = other := by
            simp only [pageSize] at same value
            omega
          exact .inl (this ▸ free)

/-- Allocating again and again returns every free page sooner or later. -/
theorem alloc_reaches (trace : PmmTrace) {page : Nat} (free : trace.state.Free page) :
    ∃ calls next, Run PmmStep trace calls next ∧ page * pageSize % 2 ^ 64 ∈ next.returned := by
  -- by induction on the number of pages between the first one that may be free and `page`
  suffices search : ∀ (gap first : Nat) (trace : PmmTrace), page < first + gap →
      (∀ other, trace.state.Free other → first ≤ other) → trace.state.Free page →
      ∃ calls next, Run PmmStep trace calls next ∧ page * pageSize % 2 ^ 64 ∈ next.returned from
    search (page + 1) 0 trace (by omega) (fun _ _ => Nat.zero_le _) free
  intro gap
  induction gap with
  | zero =>
      intro first trace reach least free
      have := least page free
      omega
  | succ gap ih =>
      intro first trace reach least free
      rcases pmmAllocPage_cases trace.state with ⟨none, _⟩ | ⟨taken, takenFree, lowest, result⟩
      · exact absurd free (none page)
      · have step := PmmStep.allocPage trace
        rw [result] at step
        by_cases hit : taken = page
        · subst hit
          exact ⟨[.allocPage], _, .single step, List.mem_cons_self⟩
        · have above := lowest page free
          have start := least taken takenFree
          have later : ∀ other, (trace.state.take taken).Free other → first + 1 ≤ other := by
            intro other known
            obtain ⟨known, different⟩ := (PmmState.free_take _).mp known
            have := lowest other known
            omega
          have remains : (trace.state.take taken).Free page :=
            (PmmState.free_take _).mpr ⟨free, Ne.symm hit⟩
          obtain ⟨calls, next, run, returned⟩ := ih (first + 1)
            ⟨trace.state.take taken, taken * pageSize % 2 ^ 64 :: trace.returned⟩ (by omega)
            later remains
          exact ⟨.allocPage :: calls, next, .cons step run, returned⟩

/-- **Which memory maps the allocator serves soundly.** After `pmm_init`, every
non-null page that `pmm_alloc_page` ever returns lies in a usable entry and away
from the bitmap exactly if no page that the bitmap partly fills is freed. -/
theorem pmmPages_sound_iff {memmap carved : Memmap} {s init : PmmState}
    (wellFormed : memmap.WellFormed)
    (room : ∃ entry ∈ memmap, entry.type = .usable ∧ entry.length ≥ memmap.bitmapSize)
    (result : pmmInit memmap s = some (init, carved)) :
    (∀ calls trace, Run PmmStep ⟨init, []⟩ calls trace → ∀ addr ∈ trace.returned, addr ≠ 0 →
      PageSound memmap init addr) ↔ memmap.BitmapPageKept := by
  have bounded : init.totalPages < 2 ^ 52 := by
    rw [pmmInit_totalPages result]
    exact memmap.totalPages_lt
  constructor
  · intro sound
    by_contra unkept
    obtain ⟨page, free, nonzero, unsound⟩ := pmmInit_bitmapPage_free wellFormed result unkept
    obtain ⟨calls, trace, run, returned⟩ := alloc_reaches ⟨init, []⟩ free
    have low : page < init.totalPages := free.1
    have plain : page * pageSize % 2 ^ 64 = page * pageSize := by
      simp only [pageSize]
      omega
    rw [plain] at returned
    exact unsound (sound calls trace run _ returned (by simp only [pageSize]; omega))
  · intro kept calls trace run addr member nonzero
    obtain ⟨entry, found⟩ : ∃ entry, memmap.bitmapEntry = some entry := by
      rw [← Option.isSome_iff_exists, Memmap.bitmapEntry, List.find?_isSome]
      obtain ⟨entry, member, fits⟩ := room
      exact ⟨entry, member, by simpa using fits⟩
    have start : PmmTrace.From init ⟨init, []⟩ :=
      ⟨rfl, fun _ => Or.inl, fun _ member => absurd member List.not_mem_nil⟩
    have keeps : ∀ source call target, source.From init → PmmStep source call target →
        target.From init := fun _ _ _ => PmmTrace.From.step bounded
    have origin : trace.From init := run.invariant keeps start
    obtain ⟨page, free, rfl⟩ := (origin.returned addr member).resolve_left nonzero
    have : page ≠ 0 := by
      rintro rfl
      exact nonzero (Nat.zero_mul _)
    exact pmmInit_free_sound wellFormed found result kept free this

/-- Four pages of memory, the first of which begins with the bitmap. -/
def tightMap : Memmap := [⟨0x1000, 0x3000, .usable⟩]

/-- As above, with the bitmap in an entry of its own. -/
def spareMap : Memmap := [⟨0x1000, 0x1000, .usable⟩, ⟨0x2000, 0x3000, .usable⟩]

theorem spareMap_wellFormed : spareMap.WellFormed where
  aligned := by decide
  addressable := by decide
  disjoint := by
    simp only [spareMap, List.pairwise_cons, List.mem_singleton, forall_eq, List.not_mem_nil,
      false_implies, implies_true, List.Pairwise.nil, and_true]
    exact fun _ _ => block_disjoint (.inl (by decide))

theorem pmmPages_sound_spareMap :
    ∃ init carved, pmmInit spareMap (.boot fun _ => 0) = some (init, carved) ∧
      ∀ calls trace, Run PmmStep ⟨init, []⟩ calls trace → ∀ addr ∈ trace.returned, addr ≠ 0 →
        PageSound spareMap init addr := by
  have returns : (pmmInit spareMap (.boot fun _ => 0)).isSome := by decide +kernel
  obtain ⟨⟨init, carved⟩, result⟩ := Option.isSome_iff_exists.mp returns
  have kept : spareMap.BitmapPageKept := by
    intro entry found
    have : spareMap.bitmapEntry = some ⟨0x1000, 0x1000, .usable⟩ := by decide +kernel
    cases this.symm.trans found
    exact .inr (.inl (by decide +kernel))
  exact ⟨init, carved, result,
    (pmmPages_sound_iff spareMap_wellFormed (by decide +kernel) result).mpr kept⟩

/-- The first page handed out under `tightMap` is the one that holds the bitmap. -/
theorem pmmPages_unsound_tightMap :
    ¬ ∀ (memmap carved : Memmap) (s init : PmmState), memmap.WellFormed →
      (∃ entry ∈ memmap, entry.type = .usable ∧ entry.length ≥ memmap.bitmapSize) →
      pmmInit memmap s = some (init, carved) →
      ∀ calls trace, Run PmmStep ⟨init, []⟩ calls trace → ∀ addr ∈ trace.returned, addr ≠ 0 →
        PageSound memmap init addr := by
  intro sound
  have wellFormed : tightMap.WellFormed := by
    refine ⟨by decide, by decide, ?_⟩
    simp only [tightMap, List.pairwise_cons, List.not_mem_nil, false_implies, implies_true,
      List.Pairwise.nil, and_true]
  have values : (pmmInit tightMap (.boot fun _ => 0)).map (fun result =>
      (result.1.bitmap, result.1.bitmapSize, (pmmAllocPage result.1).1)) =
        some (0x1000, 1, 0x1000) := by decide +kernel
  obtain ⟨⟨init, carved⟩, result, value⟩ := Option.map_eq_some_iff.mp values
  simp only [Prod.mk.injEq] at value
  obtain ⟨bitmap, bitmapSize, page⟩ := value
  have first : 0x1000 ∈ (⟨(pmmAllocPage init).2, [(pmmAllocPage init).1]⟩ : PmmTrace).returned := by
    rw [page]
    exact List.mem_cons_self
  have apart := (sound tightMap carved _ init wellFormed (by decide +kernel) result _ _
    (.single (.allocPage ⟨init, []⟩)) 0x1000 first (by decide)).apart
  rw [bitmap, bitmapSize] at apart
  have overlap : 0x1000 ∈ block 0x1000 pageSize := by constructor <;> decide
  exact Set.disjoint_left.mp apart overlap ⟨by decide, by decide⟩

end NTux.Mem
