import NTux.Mem.PmmSoundness

/-! # The count of free pages

`pmm.c` keeps its bitmap and its counter side by side. They agree after `pmm_init` and over
every run of calls, as long as no usable entry is just the last page of the address space
(`pmm_accounted_iff`): the end of such an entry is computed as zero, `addr + PAGE_SIZE` for
its only page as well, and `pmm_init` counts a page that has no bit.
-/

namespace NTux.Mem

open NTux.Foundation Memory

/-- The counter is the number of free pages. -/
def PmmState.Counted (s : PmmState) : Prop := s.freePages = s.freeFrames.card

namespace PmmState

variable {s : PmmState} {page : Nat}

theorem freePages_release (s : PmmState) (page : Nat) :
    (s.release page).freePages = (s.freePages + 1) % 2 ^ 64 := rfl

/-- A used page that is freed makes one more. -/
theorem freeFrames_card_release (low : page < s.totalPages) (used : s.testBit page = true) :
    (s.release page).freeFrames.card = s.freeFrames.card + 1 := by
  have added : (s.release page).freeFrames = insert page s.freeFrames := by
    ext other
    rw [mem_freeFrames, free_release, Finset.mem_insert, mem_freeFrames, or_comm]
    exact or_congr_left (and_iff_left low)
  have new : page ∉ s.freeFrames := by
    rw [mem_freeFrames]
    exact fun free => Bool.false_ne_true (free.2.symm.trans used)
  rw [added, Finset.card_insert_of_notMem new]

/-- A number that is no page's does not matter. -/
theorem freeFrames_release_of_le (high : s.totalPages ≤ page) :
    (s.release page).freeFrames = s.freeFrames := by
  ext other
  rw [mem_freeFrames, mem_freeFrames, free_release]
  exact ⟨fun known => known.elim id fun ⟨_, low⟩ => absurd low (Nat.not_lt.mpr high), .inl⟩

/-- Giving back the page just taken restores everything. -/
theorem release_take (clear : s.testBit page = false) (small : s.freePages < 2 ^ 64) :
    (s.take page).release page = s := by
  have mem : ((s.take page).release page).mem = s.mem := by
    funext address
    simp only [release, clearBit, take, setBit]
    by_cases byte : address = s.bitmap + page / 8
    · subst byte
      have member : s.bitmap + page / 8 ∈ block (s.bitmap + page / 8) 1 := ⟨le_rfl, by omega⟩
      rw [store_of_mem _ _ member, store_of_mem _ _ member]
      rw [testBit_eq] at clear
      apply BitVec.eq_of_getLsbD_eq
      intro bit _
      by_cases same : bit = page % 8
      · subst same
        simp [clear]
      · grind
    · have outside : address ∉ block (s.bitmap + page / 8) 1 := by
        rintro ⟨low, high⟩
        omega
      rw [store_of_notMem _ _ outside, store_of_notMem _ _ outside]
  have count : ((s.take page).release page).freePages = s.freePages := by
    change ((s.freePages + 2 ^ 64 - 1) % 2 ^ 64 + 1) % 2 ^ 64 = s.freePages
    omega
  have shape : (s.take page).release page =
      { s with mem := ((s.take page).release page).mem
               freePages := ((s.take page).release page).freePages } := rfl
  rw [shape, mem, count]

end PmmState

/-! ## The last loop of `pmm_init` -/

/-- The pages of an entry, by its ends as the source computes them. -/
def MemmapEntry.pages (entry : MemmapEntry) : Set Nat :=
  Set.Ico (entry.base / pageSize) (entry.limit / pageSize)

/-- An entry is just the last page of the address space. -/
def MemmapEntry.LastPage (entry : MemmapEntry) : Prop :=
  entry.base = 2 ^ 64 - pageSize ∧ entry.limit = 0

instance (entry : MemmapEntry) : Decidable entry.LastPage := inferInstanceAs (Decidable (_ ∧ _))

section ClearPages

variable {limit fuel addr extra : Nat} {s t : PmmState}

/-- The loop clears the bits of pages it finds used, and counts them. -/
theorem clearPages_counted (result : clearPages limit fuel addr s = some t) (below : addr ≤ limit)
    (inside : limit < 2 ^ 64) (aligned : limit % pageSize = 0)
    (covered : limit / pageSize ≤ s.totalPages) (total : s.totalPages < 2 ^ 52)
    (used : ∀ page, addr / pageSize ≤ page → page < limit / pageSize → s.testBit page = true)
    (count : s.freePages = s.freeFrames.card + extra) (few : extra ≤ 1) :
    t.freePages = t.freeFrames.card + extra ∧ ∀ page, t.testBit page = false →
      s.testBit page = false ∨ page ∈ Set.Ico (addr / pageSize) (limit / pageSize) := by
  induction fuel generalizing addr s with
  | zero => cases result
  | succ fuel ih =>
      by_cases last : addr = limit ∧ limit = 2 ^ 64 - pageSize
      · obtain ⟨rfl, same⟩ := last
        have endless : clearPages (2 ^ 64 - pageSize) (fuel + 1) addr s = none :=
          clearPages_endless aligned
        rw [← same, result] at endless
        cases endless
      · rw [clearPages] at result
        split at result
        · rename_i turns
          simp only [pageSize] at turns last aligned covered total
          have plain : (addr + pageSize) % 2 ^ 64 = addr + pageSize := by
            simp only [pageSize]
            omega
          have next : (addr + pageSize) / pageSize = addr / pageSize + 1 :=
            Nat.add_div_right _ (by decide)
          have low : addr / pageSize < limit / pageSize := by
            simp only [pageSize]
            omega
          have first := used (addr / pageSize) le_rfl low
          have card := PmmState.freeFrames_card_release (by simp only [pageSize] at low ⊢; omega) first
          have bound := s.freeFrames_card_le
          rw [plain] at result
          obtain ⟨counted, freed⟩ := ih result (by simp only [pageSize]; omega) covered total
            (by
              intro page after before
              rw [next] at after
              have different : page ≠ addr / pageSize := by omega
              rw [PmmState.testBit_release, used page (by omega) before, decide_eq_true different]
              rfl)
            (by
              rw [PmmState.freePages_release, card, count]
              omega)
          refine ⟨counted, fun page clear => ?_⟩
          rcases freed page clear with earlier | ⟨after, before⟩
          · rw [PmmState.testBit_release, Bool.and_eq_false_iff, decide_eq_false_iff_not,
              not_not] at earlier
            rcases earlier with rfl | earlier
            · exact .inr ⟨le_rfl, low⟩
            · exact .inl earlier
          · exact .inr ⟨by omega, before⟩
        · cases result
          exact ⟨count, fun page clear => .inl clear⟩

/-- For an entry that ends at the end of the address space nothing is done, unless it is the
last page. -/
theorem clearPages_top (result : clearPages 0 fuel addr s = some t) (inside : addr < 2 ^ 64) :
    t = if addr = 2 ^ 64 - pageSize then s.release (2 ^ 52 - 1) else s := by
  cases fuel with
  | zero => cases result
  | succ fuel =>
      rw [clearPages] at result
      by_cases last : addr = 2 ^ 64 - pageSize
      · subst last
        rw [if_pos (by decide)] at result
        cases fuel with
        | zero => cases result
        | succ fuel =>
            rw [clearPages, if_neg (by decide)] at result
            cases result
            rw [if_pos rfl]
            rfl
      · rw [if_neg (by simp only [pageSize] at last ⊢; omega)] at result
        cases result
        rw [if_neg last]

end ClearPages

section ClearUsable

variable {entries : Memmap} {s t : PmmState} {extra : Nat}

/-- What the last loop of `pmm_init` asks of an entry: its limit is its end, on a page
boundary, or wraps to zero. -/
structure MemmapEntry.Bounded (totalPages : Nat) (entry : MemmapEntry) : Prop where
  addressable : entry.base < 2 ^ 64
  below : entry.limit = 0 ∨ entry.base ≤ entry.limit
  aligned : entry.limit % pageSize = 0
  covered : entry.limit / pageSize ≤ totalPages

/-- How many entries are just the last page. -/
def lastPages (entries : Memmap) : Nat :=
  entries.countP fun entry => entry.type = .usable ∧ entry.LastPage

/-- One entry adds its pages to the count, and one too many if it is the last page. -/
theorem clearPages_entry_counted {entry : MemmapEntry} {fuel : Nat}
    (result : clearPages entry.limit fuel entry.base s = some t)
    (bounded : entry.Bounded s.totalPages) (total : s.totalPages < 2 ^ 52)
    (used : ∀ page ∈ entry.pages, s.testBit page = true)
    (count : s.freePages = s.freeFrames.card + extra) (few : extra ≤ 1) :
    t.freePages = t.freeFrames.card + (extra + if entry.LastPage then 1 else 0) ∧
      ∀ page, t.testBit page = false → s.testBit page = false ∨
        page ∈ entry.pages ∨ page = 2 ^ 52 - 1 ∧ entry.LastPage := by
  rcases bounded.below with wraps | below
  · rw [wraps] at result
    have known := clearPages_top result bounded.addressable
    by_cases last : entry.LastPage
    · rw [if_pos last.1] at known
      have high : s.totalPages ≤ 2 ^ 52 - 1 := by omega
      have bound := s.freeFrames_card_le
      rw [if_pos last, known, PmmState.freePages_release, PmmState.freeFrames_release_of_le high,
        count]
      refine ⟨by omega, fun page clear => ?_⟩
      rw [PmmState.testBit_release, Bool.and_eq_false_iff, decide_eq_false_iff_not,
        not_not] at clear
      exact clear.symm.imp_right fun same => .inr ⟨same, last⟩
    · rw [if_neg fun base => last ⟨base, wraps⟩] at known
      rw [if_neg last, known]
      exact ⟨count, fun page clear => .inl clear⟩
  · by_cases last : entry.LastPage
    · have wraps := last.2
      rw [wraps, last.1] at below
      simp only [pageSize] at below
      omega
    · have inside : entry.limit < 2 ^ 64 := Nat.mod_lt _ (by decide)
      obtain ⟨counted, freed⟩ := clearPages_counted result below inside bounded.aligned
        bounded.covered total (fun page after before => used page ⟨after, before⟩) count few
      rw [if_neg last]
      exact ⟨counted, fun page clear => (freed page clear).imp_right .inl⟩

/-- The last loop adds the pages of the usable entries to the count, and one too many for
an entry that is the last page. -/
theorem clearUsable_counted (result : clearUsable entries s = some t)
    (bounded : ∀ entry ∈ entries, entry.type = .usable → entry.Bounded s.totalPages)
    (total : s.totalPages < 2 ^ 52)
    (apart : entries.Pairwise fun first second => first.type = .usable → second.type = .usable →
      Disjoint first.pages second.pages ∧ ¬ (first.LastPage ∧ second.LastPage))
    (used : ∀ entry ∈ entries, entry.type = .usable → ∀ page ∈ entry.pages, s.testBit page = true)
    (count : s.freePages = s.freeFrames.card + extra) (few : extra ≤ 1)
    (once : ∀ entry ∈ entries, entry.type = .usable → entry.LastPage → extra = 0) :
    t.freePages = t.freeFrames.card + (extra + lastPages entries) ∧
      ∀ page, t.testBit page = false → s.testBit page = false ∨
        ∃ entry ∈ entries, entry.type = .usable ∧
          (page ∈ entry.pages ∨ page = 2 ^ 52 - 1 ∧ entry.LastPage) := by
  induction entries generalizing s extra with
  | nil =>
      cases result
      exact ⟨count, fun page clear => .inl clear⟩
  | cons entry rest ih =>
      obtain ⟨apartHead, apartRest⟩ := List.pairwise_cons.mp apart
      have tail : ∀ other, other ∈ rest → other ∈ entry :: rest :=
        fun _ member => List.mem_cons_of_mem _ member
      rw [clearUsable] at result
      by_cases usable : entry.type = .usable
      · rw [if_pos usable] at result
        obtain ⟨middle, first, later⟩ := Option.bind_eq_some_iff.mp result
        have layout := clearPages_sameLayout first
        have bounds := bounded entry List.mem_cons_self usable
        obtain ⟨counted, freed⟩ := clearPages_entry_counted first bounds total
          (used entry List.mem_cons_self usable) count few
        have head : lastPages (entry :: rest) =
            (if entry.LastPage then 1 else 0) + lastPages rest := by
          simp only [lastPages, List.countP_cons, usable, true_and, decide_eq_true_eq]
          omega
        obtain ⟨counted', freed'⟩ := ih later
          (fun other member usable' => by
            rw [layout.totalPages]
            exact bounded other (tail other member) usable')
          (by rw [layout.totalPages]; exact total) apartRest
          (fun other member usable' page inside => by
            have before := used other (tail other member) usable' page inside
            by_contra clear
            rw [Bool.not_eq_true] at clear
            have low : page < 2 ^ 52 - 1 := by
              have covered := (bounded other (tail other member) usable').covered
              have high := inside.2
              omega
            rcases freed page clear with unset | shared | ⟨last, -⟩
            · rw [before] at unset
              cases unset
            · exact Set.disjoint_left.mp (apartHead other member usable usable').1 shared inside
            · omega)
          counted
          (by
            by_cases last : entry.LastPage
            · rw [if_pos last, once entry List.mem_cons_self usable last]
            · rw [if_neg last]
              exact few)
          (fun other member usable' last => by
            have notHead : ¬ entry.LastPage := fun head =>
              (apartHead other member usable usable').2 ⟨head, last⟩
            rw [if_neg notHead, once other (tail other member) usable' last])
        rw [head, ← Nat.add_assoc extra]
        refine ⟨counted', fun page clear => ?_⟩
        rcases freed' page clear with earlier | ⟨other, member, usable', inside⟩
        · exact (freed page earlier).imp_right fun inside =>
            ⟨entry, List.mem_cons_self, usable, inside⟩
        · exact .inr ⟨other, tail other member, usable', inside⟩
      · rw [if_neg usable] at result
        have head : lastPages (entry :: rest) = lastPages rest := by
          simp only [lastPages, List.countP_cons, usable, false_and, decide_false,
            Bool.false_eq_true, ↓reduceIte, Nat.add_zero]
        obtain ⟨counted, freed⟩ := ih result (fun other member => bounded other (tail other member))
          total apartRest (fun other member => used other (tail other member)) count few
          (fun other member => once other (tail other member))
        rw [head]
        refine ⟨counted, fun page clear => (freed page clear).imp_right ?_⟩
        rintro ⟨other, member, known⟩
        exact ⟨other, tail other member, known⟩

end ClearUsable

/-! ## What `pmm_init` leaves behind -/

/-- The pages of one entry lie in another, and so does the last page if it is the one. -/
structure MemmapEntry.PartOf (part whole : MemmapEntry) : Prop where
  type : part.type = whole.type
  pages : ∀ page ∈ part.pages, page * pageSize ∈ block whole.base whole.length
  last : part.LastPage → 2 ^ 64 - 1 ∈ block whole.base whole.length

theorem MemmapEntry.PartOf.apart {part whole part' whole' : MemmapEntry} (first : part.PartOf whole)
    (second : part'.PartOf whole')
    (apart : whole.type = .usable → whole'.type = .usable →
      Disjoint (block whole.base whole.length) (block whole'.base whole'.length)) :
    part.type = .usable → part'.type = .usable →
      Disjoint part.pages part'.pages ∧ ¬ (part.LastPage ∧ part'.LastPage) := by
  intro usable usable'
  have disjoint := apart (first.type ▸ usable) (second.type ▸ usable')
  constructor
  · rw [Set.disjoint_left]
    exact fun page inside inside' =>
      Set.disjoint_left.mp disjoint (first.pages page inside) (second.pages page inside')
  · exact fun ⟨last, last'⟩ => Set.disjoint_left.mp disjoint (first.last last) (second.last last')

section Init

variable {memmap carved : Memmap} {s init : PmmState} {entry : MemmapEntry} {page : Nat}

/-- A usable entry that is page-aligned and lies in the address space. -/
theorem partOf_self (baseAligned : entry.base % pageSize = 0)
    (bounded : entry.base + entry.length ≤ 2 ^ 64) (addressable : entry.base < 2 ^ 64) :
    entry.PartOf entry := by
  refine ⟨rfl, ?_, ?_⟩
  · rintro page ⟨low, high⟩
    simp only [MemmapEntry.limit, pageSize] at low high baseAligned
    exact ⟨by simp only [pageSize]; omega, by simp only [pageSize]; omega⟩
  · rintro ⟨base, wraps⟩
    simp only [MemmapEntry.limit, pageSize] at base wraps
    exact ⟨by omega, by omega⟩

theorem bounded_self (baseAligned : entry.base % pageSize = 0)
    (lengthAligned : entry.length % pageSize = 0) (addressable : entry.base < 2 ^ 64)
    (bounded : entry.base + entry.length ≤ 2 ^ 64) (member : entry ∈ memmap) :
    entry.Bounded memmap.totalPages := by
  have highest := limit_le_highestAddr member 0
  have covered : entry.limit / pageSize ≤ memmap.totalPages := Nat.div_le_div_right highest
  simp only [pageSize] at baseAligned lengthAligned
  refine ⟨addressable, ?_, ?_, covered⟩
  · simp only [MemmapEntry.limit]
    omega
  · simp only [MemmapEntry.limit, pageSize]
    omega

/-- Carving keeps the limit of the entry. -/
theorem limit_carve {size : Nat} (fits : size ≤ entry.length) :
    (entry.carve size).limit = entry.limit := by
  simp only [MemmapEntry.limit, MemmapEntry.carve]
  omega

theorem partOf_carve {size : Nat} (fits : size ≤ entry.length)
    (baseAligned : entry.base % pageSize = 0) (bounded : entry.base + entry.length ≤ 2 ^ 64)
    (addressable : entry.base < 2 ^ 64) : (entry.carve size).PartOf entry := by
  have limit := limit_carve fits
  refine ⟨rfl, ?_, ?_⟩
  · rintro page ⟨low, high⟩
    rw [limit] at high
    simp only [MemmapEntry.limit, MemmapEntry.carve, pageSize] at low high baseAligned
    exact ⟨by simp only [pageSize]; omega, by simp only [pageSize]; omega⟩
  · rintro ⟨base, wraps⟩
    rw [limit] at wraps
    simp only [MemmapEntry.limit, MemmapEntry.carve, pageSize] at base wraps
    exact ⟨by omega, by omega⟩

theorem bounded_carve {size total : Nat} (fits : size ≤ entry.length)
    (bounded : entry.base + entry.length ≤ 2 ^ 64) (whole : entry.Bounded total) :
    (entry.carve size).Bounded total := by
  have limit := limit_carve fits
  refine ⟨Nat.mod_lt _ (by decide), ?_, limit ▸ whole.aligned, limit ▸ whole.covered⟩
  rw [limit]
  simp only [MemmapEntry.limit, MemmapEntry.carve]
  omega

/-- The entries that the last loop of `pmm_init` goes through. -/
theorem carved_spec (wellFormed : memmap.WellFormed) (found : memmap.bitmapEntry = some entry) :
    (∀ other ∈ (carveBitmap memmap.bitmapSize memmap).2, other.type = .usable →
        other.Bounded memmap.totalPages) ∧
      (carveBitmap memmap.bitmapSize memmap).2.Pairwise fun first second =>
        first.type = .usable → second.type = .usable →
          Disjoint first.pages second.pages ∧ ¬ (first.LastPage ∧ second.LastPage) := by
  obtain ⟨before, after, split, carvedEq⟩ := carveBitmap_of_find found
  obtain ⟨entryMember, entryUsable, fits⟩ := bitmapEntry_spec found
  have inMap : ∀ other ∈ before ++ after, other ∈ memmap := by
    intro other member
    rw [split]
    rcases List.mem_append.mp member with early | late
    · exact List.mem_append_left _ early
    · exact List.mem_append_right _ (List.mem_cons_of_mem _ late)
  have boundedMap : ∀ other ∈ memmap, other.type = .usable → other.Bounded memmap.totalPages := by
    intro other member usable
    obtain ⟨baseAligned, lengthAligned⟩ := wellFormed.aligned other member usable
    obtain ⟨addressable, bounded⟩ := wellFormed.addressable other member usable
    exact bounded_self baseAligned lengthAligned addressable bounded member
  have partMap : ∀ other ∈ memmap, other.type = .usable → other.PartOf other := by
    intro other member usable
    obtain ⟨addressable, bounded⟩ := wellFormed.addressable other member usable
    exact partOf_self (wellFormed.aligned other member usable).1 bounded addressable
  obtain ⟨addressable, bounded⟩ := wellFormed.addressable entry entryMember entryUsable
  have partCarve : (entry.carve memmap.bitmapSize).PartOf entry :=
    partOf_carve fits (wellFormed.aligned entry entryMember entryUsable).1 bounded addressable
  have apart := wellFormed.disjoint
  rw [split, List.pairwise_append, List.pairwise_cons] at apart
  obtain ⟨apartBefore, ⟨apartEntry, apartAfter⟩, apartAcross⟩ := apart
  rw [carvedEq]
  constructor
  · intro other member usable
    rcases List.mem_append.mp member with early | late
    · exact boundedMap other (inMap other (List.mem_append_left _ early)) usable
    · rcases List.mem_cons.mp late with rfl | late
      · exact bounded_carve fits bounded (boundedMap entry entryMember entryUsable)
      · exact boundedMap other (inMap other (List.mem_append_right _ late)) usable
  · have pairApart : ∀ {first second : MemmapEntry}, first ∈ before ++ after →
        second ∈ before ++ after →
        (first.type = .usable → second.type = .usable →
          Disjoint (block first.base first.length) (block second.base second.length)) →
        first.type = .usable → second.type = .usable →
          Disjoint first.pages second.pages ∧ ¬ (first.LastPage ∧ second.LastPage) := by
      intro first second member member' disjoint usable usable'
      exact (partMap first (inMap first member) usable).apart
        (partMap second (inMap second member') usable') disjoint usable usable'
    rw [List.pairwise_append, List.pairwise_cons]
    refine ⟨?_, ⟨?_, ?_⟩, ?_⟩
    · exact apartBefore.imp_of_mem fun member member' =>
        pairApart (List.mem_append_left _ member) (List.mem_append_left _ member')
    · intro other member usable usable'
      exact partCarve.apart (partMap other (inMap other (List.mem_append_right _ member)) usable')
        (apartEntry other member) usable usable'
    · exact apartAfter.imp_of_mem fun member member' =>
        pairApart (List.mem_append_right _ member) (List.mem_append_right _ member')
    · intro other member second member'
      rcases List.mem_cons.mp member' with rfl | late
      · intro usable usable'
        exact (partMap other (inMap other (List.mem_append_left _ member)) usable).apart partCarve
          (apartAcross other member entry List.mem_cons_self) usable usable'
      · exact pairApart (List.mem_append_left _ member) (List.mem_append_right _ late)
          (apartAcross other member second (List.mem_cons_of_mem _ late))

/-- `pmm_init` counts the free pages, and one too many for an entry that is the last page;
it leaves the spare bits of the bitmap set if there is none. -/
theorem pmmInit_counted (wellFormed : memmap.WellFormed) (found : memmap.bitmapEntry = some entry)
    (boot : s.freePages = 0) (result : pmmInit memmap s = some (init, carved)) :
    init.freePages = init.freeFrames.card + lastPages carved ∧
      (lastPages carved = 0 → ∀ bit, init.totalPages ≤ bit → bit < 8 * init.bitmapSize →
        init.testBit bit = true) := by
  have totalPages := pmmInit_totalPages result
  have bitmapSize := pmmInit_bitmapSize result
  obtain ⟨bounded, apart⟩ := carved_spec wellFormed found
  have count : (pmmInit memmap s).map (fun result => result.1.freePages) =
      (clearUsable (carveBitmap memmap.bitmapSize memmap).2 (placeBitmap memmap s)).map
        PmmState.freePages := by
    rw [pmmInit, Option.map_map]
    rfl
  obtain ⟨rfl, t, cleared, same, bits⟩ := pmmInit_spec result
  rw [result, cleared] at count
  have freePages : init.freePages = t.freePages := Option.some.inj count
  have frames : init.freeFrames = t.freeFrames := by
    ext page
    rw [PmmState.mem_freeFrames, PmmState.mem_freeFrames, PmmState.Free, PmmState.Free, bits,
      same.totalPages]
  have none : (placeBitmap memmap s).freeFrames = ∅ := by
    rw [Finset.eq_empty_iff_forall_notMem]
    intro page member
    obtain ⟨low, clear⟩ := PmmState.mem_freeFrames.mp member
    have inBits : page < 8 * memmap.bitmapSize := low.trans memmap.totalPages_lt_bits
    have set := placeBitmap_testBit memmap s inBits
    exact Bool.false_ne_true (clear.symm.trans set)
  have start : (placeBitmap memmap s).freePages = (placeBitmap memmap s).freeFrames.card + 0 := by
    rw [none]
    exact boot
  have inBitmap : ∀ {page}, page < memmap.totalPages → (placeBitmap memmap s).testBit page = true :=
    fun low => placeBitmap_testBit memmap s (low.trans memmap.totalPages_lt_bits)
  obtain ⟨counted, freed⟩ := clearUsable_counted cleared bounded memmap.totalPages_lt apart
    (fun other member usable page inside =>
      inBitmap (inside.2.trans_le (bounded other member usable).covered))
    start (Nat.zero_le 1) fun _ _ _ _ => rfl
  rw [Nat.zero_add] at counted
  refine ⟨by rw [freePages, frames, counted], fun noLast bit high spare => ?_⟩
  rw [bitmapSize] at spare
  rw [totalPages] at high
  rw [bits]
  by_contra clear
  rw [Bool.not_eq_true] at clear
  rcases freed bit clear with unset | ⟨other, member, usable, inside | ⟨-, last⟩⟩
  · rw [placeBitmap_testBit memmap s spare] at unset
    cases unset
  · have covered := (bounded other member usable).covered
    have low := inside.2
    omega
  · have listed := List.countP_eq_zero.mp noLast other member
    exact listed (decide_eq_true ⟨usable, last⟩)

end Init

/-! ## Runs -/

/-- The allocator together with the pages it has returned that have not been freed since. -/
structure PmmHolder where
  state : PmmState
  held : List Nat

/-- One call. Any address below the end of the managed memory may be freed. -/
inductive HolderStep : PmmHolder → PmmCall → PmmHolder → Prop where
  | allocPage (holder : PmmHolder) :
      HolderStep holder .allocPage ⟨(pmmAllocPage holder.state).2,
        if (pmmAllocPage holder.state).1 = 0 then holder.held
        else (pmmAllocPage holder.state).1 / pageSize :: holder.held⟩
  | freePage (holder : PmmHolder) {addr : Nat} (low : addr < holder.state.totalPages * pageSize) :
      HolderStep holder (.freePage addr) ⟨pmmFreePage holder.state addr,
        holder.held.filter fun page => page ≠ addr / pageSize⟩

/-- The counter is the number of free pages, the spare bits of the bitmap are set, no page is
returned twice without having been freed, and freeing a page just allocated restores the
state. -/
structure Accounted (holder : PmmHolder) : Prop where
  counted : holder.state.Counted
  spare : ∀ bit, holder.state.totalPages ≤ bit → bit < 8 * holder.state.bitmapSize →
    holder.state.testBit bit = true
  held : holder.held.Nodup
  restores : ∀ page, holder.state.Free page →
    pmmFreePage (pmmAllocPage holder.state).2 (pmmAllocPage holder.state).1 = holder.state

/-- What every call keeps: pages that are held are not free, and the address of every page
is a 64-bit number. -/
structure PmmHolder.Inv (holder : PmmHolder) : Prop where
  counted : holder.state.Counted
  spare : ∀ bit, holder.state.totalPages ≤ bit → bit < 8 * holder.state.bitmapSize →
    holder.state.testBit bit = true
  distinct : holder.held.Nodup
  used : ∀ page ∈ holder.held, ¬ holder.state.Free page
  total : holder.state.totalPages < 2 ^ 52

theorem pageAddress {s : PmmState} {page : Nat} (low : page < s.totalPages)
    (total : s.totalPages < 2 ^ 52) :
    page * pageSize % 2 ^ 64 = page * pageSize ∧ page * pageSize / pageSize = page := by
  refine ⟨Nat.mod_eq_of_lt ?_, Nat.mul_div_cancel _ (by decide)⟩
  simp only [pageSize]
  omega

namespace PmmHolder.Inv

variable {holder next : PmmHolder} {call : PmmCall}

theorem freePages_lt (inv : holder.Inv) : holder.state.freePages < 2 ^ 52 := by
  have bound := holder.state.freeFrames_card_le
  have total := inv.total
  rw [inv.counted]
  omega

theorem restores (inv : holder.Inv) {page : Nat} (free : holder.state.Free page) :
    pmmFreePage (pmmAllocPage holder.state).2 (pmmAllocPage holder.state).1 = holder.state := by
  rcases pmmAllocPage_cases holder.state with ⟨none, _⟩ | ⟨lowest, known, _, result⟩
  · exact absurd free (none page)
  · obtain ⟨plain, number⟩ := pageAddress known.1 inv.total
    have small := inv.freePages_lt
    rw [result]
    dsimp only
    rw [plain, pmmFreePage, number, if_pos (by simp)]
    exact PmmState.release_take known.2 (by omega)

theorem accounted (inv : holder.Inv) : Accounted holder :=
  ⟨inv.counted, inv.spare, inv.distinct, fun _ free => inv.restores free⟩

/-- One call keeps the books. -/
theorem step (inv : holder.Inv) (taken : HolderStep holder call next) : next.Inv := by
  have small := inv.freePages_lt
  cases taken with
  | allocPage =>
      rcases pmmAllocPage_cases holder.state with ⟨none, result⟩ | ⟨page, free, _, result⟩
      · rw [result, if_pos rfl]
        exact inv
      · obtain ⟨plain, number⟩ := pageAddress free.1 inv.total
        have card := PmmState.freeFrames_card_of_take free
          fun _ => PmmState.free_take _
        have count := inv.counted
        rw [PmmState.Counted] at count
        have counted : (holder.state.take page).Counted := by
          change (holder.state.freePages + 2 ^ 64 - 1) % 2 ^ 64 = _
          omega
        have spare : ∀ bit, holder.state.totalPages ≤ bit → bit < 8 * holder.state.bitmapSize →
            (holder.state.take page).testBit bit = true := by
          intro bit high inside
          rw [PmmState.testBit_take, inv.spare bit high inside, Bool.or_true]
        have used : ∀ other ∈ holder.held, ¬ (holder.state.take page).Free other :=
          fun other member known => inv.used other member ((PmmState.free_take _).mp known).1
        rw [result, plain, number]
        by_cases null : page * pageSize = 0
        · rw [if_pos null]
          exact ⟨counted, spare, inv.distinct, used, inv.total⟩
        · rw [if_neg null]
          refine ⟨counted, spare, List.nodup_cons.mpr ⟨fun member => inv.used page member free,
            inv.distinct⟩, fun other member => ?_, inv.total⟩
          rcases List.mem_cons.mp member with rfl | old
          · exact fun known => ((PmmState.free_take _).mp known).2 rfl
          · exact used other old
  | freePage low =>
      rename_i addr
      have page : addr / pageSize < holder.state.totalPages :=
        (Nat.div_lt_iff_lt_mul (by decide)).mpr low
      have held : ∀ other ∈ holder.held.filter (fun other => other ≠ addr / pageSize),
          other ∈ holder.held ∧ other ≠ addr / pageSize := by
        intro other member
        obtain ⟨old, different⟩ := List.mem_filter.mp member
        exact ⟨old, of_decide_eq_true different⟩
      refine ⟨?_, ?_, inv.distinct.filter _, fun other member => ?_, ?_⟩
      · by_cases inUse : holder.state.testBit (addr / pageSize) = true
        · have card := PmmState.freeFrames_card_release page inUse
          have count := inv.counted
          rw [PmmState.Counted] at count
          rw [pmmFreePage, if_pos inUse, PmmState.Counted, PmmState.freePages_release, card, count]
          omega
        · rw [pmmFreePage, if_neg inUse]
          exact inv.counted
      · intro bit high inside
        have layout := pmmFreePage_sameLayout holder.state addr
        rw [layout.totalPages] at high
        rw [layout.bitmapSize] at inside
        have set := inv.spare bit high inside
        rw [pmmFreePage]
        split
        · have different : bit ≠ addr / pageSize := by omega
          rw [PmmState.testBit_release, set, decide_eq_true different]
          rfl
        · exact set
      · obtain ⟨old, different⟩ := held other member
        intro known
        rcases (free_pmmFreePage _ _).mp known with free | ⟨same, _⟩
        · exact inv.used other old free
        · exact different same
      · rw [pmmFreePage_totalPages]
        exact inv.total

end PmmHolder.Inv

/-- No usable entry is just the last page of the address space, once the bitmap is taken from
the front of its entry. -/
def Memmap.NoLastPage (memmap : Memmap) : Prop :=
  ∀ entry ∈ (carveBitmap memmap.bitmapSize memmap).2, entry.type = .usable → ¬ entry.LastPage

theorem noLastPage_iff (memmap : Memmap) :
    memmap.NoLastPage ↔ lastPages (carveBitmap memmap.bitmapSize memmap).2 = 0 := by
  rw [lastPages, List.countP_eq_zero, Memmap.NoLastPage]
  refine forall₂_congr fun entry _ => ?_
  rw [decide_eq_true_eq, not_and]

/-- **Which memory maps are accounted for.** After `pmm_init` every run of the allocator, with
pages freed in any order and any number of times, keeps counter and bitmap in agreement
exactly if no usable entry is just the last page of the address space. -/
theorem pmm_accounted_iff {memmap carved : Memmap} {s init : PmmState}
    (wellFormed : memmap.WellFormed)
    (room : ∃ entry ∈ memmap, entry.type = .usable ∧ entry.length ≥ memmap.bitmapSize)
    (boot : s.freePages = 0) (result : pmmInit memmap s = some (init, carved)) :
    (∀ calls holder, Run HolderStep ⟨init, []⟩ calls holder → Accounted holder) ↔
      memmap.NoLastPage := by
  obtain ⟨entry, found⟩ : ∃ entry, memmap.bitmapEntry = some entry := by
    rw [← Option.isSome_iff_exists, Memmap.bitmapEntry, List.find?_isSome]
    obtain ⟨entry, member, fits⟩ := room
    exact ⟨entry, member, by simpa using fits⟩
  obtain ⟨count, spare⟩ := pmmInit_counted wellFormed found boot result
  obtain ⟨rfl, -⟩ := pmmInit_spec result
  rw [noLastPage_iff]
  constructor
  · intro accounted
    have counted := (accounted [] _ (.nil _)).counted
    rw [PmmState.Counted, count] at counted
    exact Nat.add_eq_left.mp counted
  · intro none calls holder run
    have start : PmmHolder.Inv ⟨init, []⟩ := by
      refine ⟨?_, spare none, List.nodup_nil, fun _ member => absurd member List.not_mem_nil, ?_⟩
      · rw [PmmState.Counted, count, none, Nat.add_zero]
      · change init.totalPages < 2 ^ 52
        rw [pmmInit_totalPages result]
        exact memmap.totalPages_lt
    have inv : holder.Inv := run.invariant (fun _ _ _ inv taken => inv.step taken) start
    exact inv.accounted

theorem pmm_accounted_spareMap :
    ∃ init carved, pmmInit spareMap (.boot fun _ => 0) = some (init, carved) ∧
      ((∀ calls holder, Run HolderStep ⟨init, []⟩ calls holder → Accounted holder) ↔
        spareMap.NoLastPage) := by
  have returns : (pmmInit spareMap (.boot fun _ => 0)).isSome := by decide +kernel
  obtain ⟨⟨init, carved⟩, result⟩ := Option.isSome_iff_exists.mp returns
  exact ⟨init, carved, result,
    pmm_accounted_iff spareMap_wellFormed (by decide +kernel) rfl result⟩

/-- A page of usable memory and the last page of the address space. -/
def topMap : Memmap := [⟨0x1000, 0x1000, .usable⟩, ⟨2 ^ 64 - 0x1000, 0x1000, .usable⟩]

/-- Under `topMap` no page is free, and the counter is one. -/
theorem pmm_unaccounted_topMap :
    ¬ ∀ (memmap carved : Memmap) (s init : PmmState), memmap.WellFormed →
      (∃ entry ∈ memmap, entry.type = .usable ∧ entry.length ≥ memmap.bitmapSize) →
      s.freePages = 0 → pmmInit memmap s = some (init, carved) →
      ∀ calls holder, Run HolderStep ⟨init, []⟩ calls holder → Accounted holder := by
  intro claim
  have wellFormed : topMap.WellFormed := by
    refine ⟨by decide, by decide, ?_⟩
    simp only [topMap, List.pairwise_cons, List.mem_singleton, forall_eq, List.not_mem_nil,
      false_implies, implies_true, List.Pairwise.nil, and_true]
    exact fun _ _ => block_disjoint (.inl (by decide))
  have room : ∃ entry ∈ topMap, entry.type = .usable ∧ entry.length ≥ topMap.bitmapSize := by
    decide +kernel
  have returns : (pmmInit topMap (.boot fun _ => 0)).isSome := by decide +kernel
  obtain ⟨⟨init, carved⟩, result⟩ := Option.isSome_iff_exists.mp returns
  have found : topMap.bitmapEntry = some ⟨0x1000, 0x1000, .usable⟩ := by decide +kernel
  obtain ⟨count, -⟩ := pmmInit_counted wellFormed found rfl result
  have counted := (claim topMap carved _ init wellFormed room rfl result [] _ (.nil _)).counted
  obtain ⟨rfl, -⟩ := pmmInit_spec result
  have last : lastPages (carveBitmap topMap.bitmapSize topMap).2 = 1 := by decide +kernel
  rw [PmmState.Counted, count] at counted
  exact absurd (last.symm.trans (Nat.add_eq_left.mp counted)) (by decide)

end NTux.Mem
