import NTux.Elf.Image

/-! # The turns of the ELF loader

The loader takes a turn for every page of every `PT_LOAD` segment, in order. Its offset
counts in 64-bit arithmetic, so a segment whose `p_memsz` exceeds the last multiple of the
page size is never finished, and all others are finished in as many turns as they have pages
(`elf64Load_finishes_iff`). No turn looks at what `pmm_alloc_page` and `vmm_map_page` return,
so the loader hands out its entry point whether the pages are there or not
(`elf64Load_reports_iff`).
-/

namespace NTux.Elf

open NTux.Foundation NTux.Mem Memory VmmState

/-! ## The loops as a list of turns -/

/-- `ceil(p_memsz / 4096)`. -/
def Phdr.pageCount (segment : Phdr) : Nat := (segment.memsz + (pageSize - 1)) / pageSize

/-- The turns for the pages of a segment from the page `first` on. -/
def Phdr.turns (segment : Phdr) (first : Nat) : List (Phdr × Nat) :=
  (List.range' first (segment.pageCount - first)).map fun page => (segment, page * pageSize)

/-- The turns for a list of program headers. -/
def loaderTurns (segments : List Phdr) : List (Phdr × Nat) :=
  segments.flatMap fun segment => if segment.type = ptLoad then segment.turns 0 else []

/-- One turn after the other. -/
def runTurns (file : Memory) (turns : List (Phdr × Nat)) (s : LoadState) : LoadState :=
  turns.foldl (fun s turn => loadPage file turn.1 turn.2 s) s

section Loops

variable {file : Memory} {segment : Phdr} {segments : List Phdr} {s t : LoadState} {fuel : Nat}

theorem Phdr.turns_cons {first : Nat} (more : first < segment.pageCount) :
    segment.turns first = (segment, first * pageSize) :: segment.turns (first + 1) := by
  obtain ⟨rest, count⟩ : ∃ rest, segment.pageCount - first = rest + 1 :=
    ⟨segment.pageCount - first - 1, by omega⟩
  have next : segment.pageCount - (first + 1) = rest := by omega
  rw [turns, turns, count, next, List.range'_succ, List.map_cons]

theorem Phdr.turns_done {first : Nat} (done : segment.pageCount ≤ first) :
    segment.turns first = [] := by
  rw [turns, Nat.sub_eq_zero_of_le done]
  rfl

theorem Phdr.mem_turns {turn : Phdr × Nat} :
    turn ∈ segment.turns 0 ↔ turn.1 = segment ∧ ∃ page < segment.pageCount,
      turn.2 = page * pageSize := by
  rw [turns, List.mem_map]
  constructor
  · rintro ⟨page, member, rfl⟩
    rw [List.mem_range'_1] at member
    exact ⟨rfl, page, by omega, rfl⟩
  · rintro ⟨rfl, page, low, same⟩
    refine ⟨page, List.mem_range'_1.mpr ⟨Nat.zero_le _, by omega⟩, ?_⟩
    rw [← same]

theorem Phdr.more_iff {page : Nat} :
    page * pageSize < segment.memsz ↔ page < segment.pageCount := by
  simp only [pageCount, pageSize]
  omega

theorem mem_loaderTurns {turn : Phdr × Nat} :
    turn ∈ loaderTurns segments ↔ turn.1 ∈ segments ∧ turn.1.type = ptLoad ∧
      ∃ page < turn.1.pageCount, turn.2 = page * pageSize := by
  rw [loaderTurns, List.mem_flatMap]
  constructor
  · rintro ⟨segment, member, inside⟩
    split at inside
    · next load =>
      obtain ⟨rfl, page, low, same⟩ := Phdr.mem_turns.mp inside
      exact ⟨member, load, page, low, same⟩
    · exact absurd inside List.not_mem_nil
  · rintro ⟨member, load, page, low, same⟩
    refine ⟨turn.1, member, ?_⟩
    rw [if_pos load]
    exact Phdr.mem_turns.mpr ⟨rfl, page, low, same⟩

theorem loaderTurns_cons_of_load (load : segment.type = ptLoad) :
    loaderTurns (segment :: segments) = segment.turns 0 ++ loaderTurns segments := by
  rw [loaderTurns, List.flatMap_cons, if_pos load]
  rfl

theorem loaderTurns_cons_of_other (other : segment.type ≠ ptLoad) :
    loaderTurns (segment :: segments) = loaderTurns segments := by
  rw [loaderTurns, List.flatMap_cons, if_neg other]
  rfl

/-- Where the offset cannot wrap around, the loop over the pages of a segment takes a turn for
each page. -/
theorem loadPages_eq (bounded : segment.memsz ≤ 2 ^ 64 - pageSize) :
    ∀ {page : Nat} {s : LoadState}, segment.pageCount - page < fuel →
      loadPages file segment fuel (page * pageSize) s =
        some (runTurns file (segment.turns page) s) := by
  induction fuel with
  | zero => exact fun enough => absurd enough (Nat.not_lt_zero _)
  | succ fuel ih =>
      intro page s enough
      rw [loadPages]
      by_cases more : page < segment.pageCount
      · have next : (page * pageSize + pageSize) % 2 ^ 64 = (page + 1) * pageSize := by
          have inside := Phdr.more_iff.mpr more
          simp only [pageSize] at bounded inside ⊢
          omega
        rw [if_pos (Phdr.more_iff.mpr more), next, ih (by omega), segment.turns_cons more]
        rfl
      · rw [if_neg fun inside => more (Phdr.more_iff.mp inside),
          segment.turns_done (Nat.le_of_not_lt more)]
        rfl

/-- Where the offset wraps around, the loop never ends. -/
theorem loadPages_never (unbounded : 2 ^ 64 - pageSize < segment.memsz) :
    ∀ {off : Nat} {s : LoadState}, off % pageSize = 0 → off < 2 ^ 64 →
      loadPages file segment fuel off s = none := by
  induction fuel with
  | zero => exact fun _ _ => rfl
  | succ fuel ih =>
      intro off s aligned inside
      simp only [pageSize] at unbounded aligned
      rw [loadPages, if_pos (by omega)]
      exact ih (by simp only [pageSize]; omega) (Nat.mod_lt _ (Nat.two_pow_pos 64))

theorem Phdr.pageCount_lt (bounded : segment.memsz ≤ 2 ^ 64 - pageSize) :
    segment.pageCount < pageLoopFuel := by
  simp only [pageCount, pageLoopFuel, pageSize] at bounded ⊢
  omega

/-- The loop over the program headers. -/
theorem loadSegments_eq (bounded : ∀ segment ∈ segments, segment.type = ptLoad →
    segment.memsz ≤ 2 ^ 64 - pageSize) :
    loadSegments file segments s = some (runTurns file (loaderTurns segments) s) := by
  induction segments generalizing s with
  | nil => rfl
  | cons segment segments ih =>
      have rest := fun other member => bounded other (List.mem_cons_of_mem segment member)
      rw [loadSegments]
      by_cases load : segment.type = ptLoad
      · have here := bounded segment List.mem_cons_self load
        have pages := @loadPages_eq file segment pageLoopFuel here 0 s
          (by have := segment.pageCount_lt here; omega)
        rw [Nat.zero_mul] at pages
        rw [if_neg (not_not_intro load), pages, Option.bind_some, ih rest,
          loaderTurns_cons_of_load load, runTurns, runTurns, runTurns, List.foldl_append]
      · rw [if_pos load, ih rest, loaderTurns_cons_of_other load]

/-- Only bounded segments are finished. -/
theorem bounded_of_loadSegments (result : loadSegments file segments s = some t) :
    ∀ segment ∈ segments, segment.type = ptLoad → segment.memsz ≤ 2 ^ 64 - pageSize := by
  induction segments generalizing s with
  | nil => exact fun _ member => absurd member List.not_mem_nil
  | cons first rest ih =>
      rw [loadSegments] at result
      by_cases load : first.type = ptLoad
      · rw [if_neg (not_not_intro load), Option.bind_eq_some_iff] at result
        obtain ⟨u, pages, result⟩ := result
        intro segment member load'
        rcases List.mem_cons.mp member with rfl | later
        · by_contra unbounded
          rw [loadPages_never (Nat.lt_of_not_le unbounded) (Nat.zero_mod _) (by decide)] at pages
          cases pages
        · exact ih result segment later load'
      · rw [if_pos load] at result
        intro segment member load'
        rcases List.mem_cons.mp member with rfl | later
        · exact absurd load' load
        · exact ih result segment later load'

end Loops

/-! ## When the loader is through -/

/-- Every loop over the pages of a `PT_LOAD` segment ends after at most as many turns as the
segment has pages: its condition is checked once more than that. -/
def SegmentsFinish (file : Memory) : List Phdr → LoadState → Prop
  | [], _ => True
  | segment :: rest, s =>
      if segment.type ≠ ptLoad then SegmentsFinish file rest s
      else ∃ t, loadPages file segment (segment.pageCount + 1) 0 s = some t ∧
        SegmentsFinish file rest t

/-- The loader returns, after no more turns than there are pages. -/
def Finishes (file : Memory) (s : LoadState) : Prop :=
  (∃ t, elf64LoadAndPrepare file s = some (entry file, t)) ∧ SegmentsFinish file (phdrs file) s

section Finishes

variable {file : Memory} {segments : List Phdr} {s t : LoadState}

theorem segmentsFinish (bounded : ∀ segment ∈ segments, segment.type = ptLoad →
    segment.memsz ≤ 2 ^ 64 - pageSize) : SegmentsFinish file segments s := by
  induction segments generalizing s with
  | nil => trivial
  | cons segment segments ih =>
      have rest := fun other member => bounded other (List.mem_cons_of_mem segment member)
      rw [SegmentsFinish]
      by_cases load : segment.type = ptLoad
      · have here := bounded segment List.mem_cons_self load
        have pages := @loadPages_eq file segment (segment.pageCount + 1) here 0 s
          (Nat.lt_succ_self _)
        rw [Nat.zero_mul] at pages
        rw [if_neg (not_not_intro load)]
        exact ⟨_, pages, ih rest⟩
      · rw [if_pos load]
        exact ih rest

theorem elf64Load_eq (check : elf64Check file = true) :
    elf64LoadAndPrepare file s =
      (loadSegments file (phdrs file) s).map fun t => (entry file, t) := by
  rw [elf64LoadAndPrepare, check]
  rfl

/-- **When the loader terminates.** Whatever the addresses, offsets and sizes in the file are:
exactly when no `PT_LOAD` segment is larger than the last multiple of the page size. -/
theorem elf64Load_finishes_iff (s : LoadState) (check : elf64Check file = true) :
    Finishes file s ↔ ∀ segment ∈ phdrs file, segment.type = ptLoad →
      segment.memsz ≤ 2 ^ 64 - pageSize := by
  constructor
  · rintro ⟨⟨t, result⟩, _⟩
    rw [elf64Load_eq check, Option.map_eq_some_iff] at result
    obtain ⟨u, loaded, _⟩ := result
    exact bounded_of_loadSegments loaded
  · intro bounded
    refine ⟨⟨runTurns file (loaderTurns (phdrs file)) s, ?_⟩, segmentsFinish bounded⟩
    rw [elf64Load_eq check, loadSegments_eq bounded]
    rfl

end Finishes

theorem sampleFile_phdrs : phdrs (sampleFile 1) = [⟨1, 5, 120, 0x1000, 1, 1⟩] := by
  decide +kernel

theorem elf64Load_finishes_sample : Finishes (sampleFile 1) (.start smallMachine) := by
  refine (elf64Load_finishes_iff _ (by decide +kernel)).mpr ?_
  rw [sampleFile_phdrs]
  intro segment member _
  cases List.mem_singleton.mp member
  decide

/-- A segment of nearly the size of the address space is never finished. -/
theorem elf64Load_endless_sample :
    ¬ ∀ (file : Memory) (s : LoadState), elf64Check file = true → Finishes file s := by
  intro claim
  obtain ⟨⟨t, result⟩, _⟩ := claim (sampleFile (2 ^ 64 - 1)) (.start smallMachine)
    (by decide +kernel)
  have segments : phdrs (sampleFile (2 ^ 64 - 1)) = [⟨1, 5, 120, 0x1000, 1, 2 ^ 64 - 1⟩] := by
    decide +kernel
  rw [elf64Load_eq (by decide +kernel), Option.map_eq_some_iff] at result
  obtain ⟨u, loaded, _⟩ := result
  have bounded := bounded_of_loadSegments loaded _ (by rw [segments]; exact List.mem_cons_self) rfl
  exact absurd bounded (by decide)

/-! ## What the loader reports -/

/-- `vmm_map_page` refuses the page of a turn, perhaps because there was no frame for it. -/
def TurnRefused (turn : Phdr × Nat) (s : LoadState) : Prop :=
  (vmmMapPage s.allocFrame.2 ((turn.1.pageBase + turn.2) % 2 ^ 64) s.allocFrame.1
    turn.1.mapFlags).1 = 0

/-- One of the turns, each in the state that those before it have left, is refused. -/
def Refused (file : Memory) : List (Phdr × Nat) → LoadState → Prop
  | [], _ => False
  | turn :: rest, s => TurnRefused turn s ∨ Refused file rest (loadPage file turn.1 turn.2 s)

/-- The page holds a byte of the segment. -/
def Phdr.Overlaps (segment : Phdr) (page : Nat) : Prop :=
  ∃ addr, segment.vaddr ≤ addr ∧ addr < segment.vaddr + segment.memsz ∧ addr / pageSize = page

/-- If the loader returns an entry point, every page of every segment was given a frame, and
it returns none if a page was refused. -/
def Reports (file : Memory) (s : VmmState) : Prop :=
  ∀ start t, elf64LoadAndPrepare file (.start s) = some (start, t) →
    (start ≠ 0 → ∀ segment ∈ phdrs file, segment.type = ptLoad → ∀ page,
      segment.Overlaps page → t.given page ≠ none) ∧
    (Refused file (loaderTurns (phdrs file)) (.start s) → start = 0)

/-- The page of a turn has an entry in the page table that `vmm_map_page` accepts. -/
def Mappable (turn : Phdr × Nat) : Prop :=
  turn.1.pageAt turn.2 ≠ 0 ∧ turn.1.pageAt turn.2 < entriesPerTable

/-- There is a frame and an entry for every turn. -/
structure Suffices (turns : List (Phdr × Nat)) (s : VmmState) : Prop where
  table : s.currentPageTable ≠ 0
  zero : ¬ s.Free 0
  frames : turns.length ≤ s.freeFrames.card
  mappable : ∀ turn ∈ turns, Mappable turn

/-- Every page that holds a byte of a segment is the page of a turn. -/
def Covered (file : Memory) : Prop :=
  ∀ segment ∈ phdrs file, segment.type = ptLoad → ∀ page, segment.Overlaps page →
    ∃ turn ∈ loaderTurns (phdrs file), turn.1.pageAt turn.2 = page

section Reports

variable {file : Memory} {turn : Phdr × Nat} {turns : List (Phdr × Nat)} {s : LoadState}

/-- A turn of a loop over the pages of a segment. -/
structure TurnValid (turn : Phdr × Nat) : Prop where
  small : turn.1.vaddr < 2 ^ 64
  aligned : turn.2 % pageSize = 0

/-- When a turn is accepted. -/
theorem turnRefused_iff (apart : s.Apart) (valid : TurnValid turn) :
    ¬ TurnRefused turn s ↔
      s.currentPageTable ≠ 0 ∧ ¬ s.Free 0 ∧ (∃ page, s.Free page) ∧ Mappable turn := by
  have aligned : (turn.1.pageBase + turn.2) % 2 ^ 64 % pageSize = 0 := by
    have offset := valid.aligned
    rw [turn.1.pageBase_eq valid.small]
    simp only [pageSize] at offset ⊢
    omega
  have page : (turn.1.pageBase + turn.2) % 2 ^ 64 / pageSize = turn.1.pageAt turn.2 := rfl
  rw [TurnRefused]
  generalize (turn.1.pageBase + turn.2) % 2 ^ 64 = virt at aligned page ⊢
  rcases allocFrame_cases apart.bounded with ⟨none, result⟩ | ⟨frame, free, least, result⟩
  · rw [result]
    have refused : vmmMapPage s.toVmmState virt 0 turn.1.mapFlags = (0, s.toVmmState) :=
      if_pos (.inr (.inr rfl))
    rw [refused]
    exact iff_of_false (not_not_intro rfl) fun ⟨_, _, ⟨page, free⟩, _⟩ => none page free
  · rw [result]
    dsimp only
    by_cases table : s.currentPageTable = 0
    · have refused : vmmMapPage (s.takeFrame frame) virt (frame * pageSize) turn.1.mapFlags =
          (0, s.takeFrame frame) := if_pos (.inl table)
      rw [refused]
      exact iff_of_false (not_not_intro rfl) fun accepted => accepted.1 table
    · by_cases null : frame = 0
      · have refused : vmmMapPage (s.takeFrame frame) virt (frame * pageSize) turn.1.mapFlags =
            (0, s.takeFrame frame) := by
          rw [null, Nat.zero_mul]
          exact if_pos (.inr (.inr rfl))
        rw [refused]
        exact iff_of_false (not_not_intro rfl) fun accepted => accepted.2.1 (null ▸ free)
      · have zero : ¬ s.Free 0 := fun known => null (Nat.le_zero.mp (least 0 known))
        have mapped := @vmmMapPage_eq (s.takeFrame frame) virt (frame * pageSize)
          turn.1.mapFlags table (Nat.mul_ne_zero null (by decide)) aligned
        rw [mapped, page]
        by_cases inside : turn.1.pageAt turn.2 ≠ 0 ∧ turn.1.pageAt turn.2 < entriesPerTable
        · rw [if_pos inside]
          refine iff_of_true ?_ ⟨table, zero, ⟨frame, free⟩, inside⟩
          intro nothing
          dsimp only at nothing
          rw [nothing, Nat.zero_div] at page
          exact inside.1 page.symm
        · rw [if_neg inside]
          exact iff_of_false (not_not_intro rfl) fun accepted => inside accepted.2.2.2

/-- What an accepted turn leaves behind. -/
structure TurnLoaded (turn : Phdr × Nat) (s t : LoadState) : Prop where
  apart : t.Apart
  table : t.currentPageTable = s.currentPageTable
  zero : ¬ s.Free 0 → ¬ t.Free 0
  frames : t.freeFrames.card + 1 = s.freeFrames.card
  given : ∀ page, t.given page ≠ none ↔ s.given page ≠ none ∨ turn.1.pageAt turn.2 = page

/-- The pages given are pages of the table. -/
def GivenMappable (s : LoadState) : Prop :=
  ∀ page, s.given page ≠ none → page ≠ 0 ∧ page < entriesPerTable

theorem turnLoaded (apart : s.Apart) (valid : TurnValid turn) (accepted : GivenMappable s)
    (served : ¬ TurnRefused turn s) :
    TurnLoaded turn s (loadPage file turn.1 turn.2 s) ∧
      GivenMappable (loadPage file turn.1 turn.2 s) := by
  obtain ⟨table, zero, available, mappable⟩ := (turnRefused_iff apart valid).mp served
  obtain ⟨frame, free, loaded⟩ := @loadPage_spec file _ _ _ valid.small valid.aligned apart table
    zero available accepted
  have given : (loadPage file turn.1 turn.2 s).given =
      Function.update s.given (turn.1.pageAt turn.2) (some frame) := by
    rcases loaded.given with ⟨outside, _⟩ | ⟨_, _, updated, _⟩
    · exact (outside.elim mappable.1 (Nat.not_le_of_lt mappable.2)).elim
    · exact updated
  have present : ∀ page, (loadPage file turn.1 turn.2 s).given page ≠ none ↔
      s.given page ≠ none ∨ turn.1.pageAt turn.2 = page := by
    intro page
    rw [given, Function.update_apply]
    split
    · next same => exact iff_of_true (Option.some_ne_none frame) (.inr same.symm)
    · next different => exact (or_iff_left (Ne.symm different)).symm
  refine ⟨⟨?_, loaded.place.header, fun used known => used ((loaded.free 0).mp known).1,
    PmmState.freeFrames_card_of_take free loaded.free, present⟩, fun page known => ?_⟩
  · exact apart.of_samePlace loaded.place fun page known => .inl ((loaded.free page).mp known).1
  · rcases (present page).mp known with old | rfl
    · exact accepted page old
    · exact mappable

/-- No turn is refused exactly when there is all that the turns need, and then the pages of
the turns have been given. -/
theorem refused_iff (valid : ∀ turn ∈ turns, TurnValid turn) :
    ∀ {s : LoadState}, s.Apart → GivenMappable s →
      (¬ Refused file turns s ↔ turns = [] ∨ Suffices turns s.toVmmState) ∧
        (¬ Refused file turns s → ∀ page, (runTurns file turns s).given page ≠ none ↔
          s.given page ≠ none ∨ ∃ turn ∈ turns, turn.1.pageAt turn.2 = page) := by
  induction turns with
  | nil =>
      intro s _ _
      refine ⟨iff_of_true id (.inl rfl), fun _ page => ?_⟩
      refine (or_iff_left ?_).symm
      rintro ⟨turn, member, _⟩
      exact absurd member List.not_mem_nil
  | cons turn rest ih =>
      intro s apart accepted
      have first := valid turn List.mem_cons_self
      have later := fun other member => valid other (List.mem_cons_of_mem turn member)
      rw [Refused, not_or]
      by_cases refused : TurnRefused turn s
      · refine ⟨iff_of_false (fun both => both.1 refused) ?_, fun both => absurd refused both.1⟩
        rintro (none | ⟨table, zero, frames, mappable⟩)
        · cases none
        · refine (turnRefused_iff apart first).mpr ⟨table, zero, ?_,
            mappable turn List.mem_cons_self⟩ refused
          have positive : 0 < s.freeFrames.card := (Nat.succ_pos _).trans_le frames
          obtain ⟨page, member⟩ := Finset.card_pos.mp positive
          exact ⟨page, PmmState.mem_freeFrames.mp member⟩
      · obtain ⟨loaded, accepted'⟩ := @turnLoaded file _ _ apart first accepted refused
        obtain ⟨table, zero, _, mappable⟩ := (turnRefused_iff apart first).mp refused
        obtain ⟨restIff, restGiven⟩ := ih later loaded.apart accepted'
        have paid := loaded.frames
        refine ⟨⟨fun both => .inr ?_, fun whole => ⟨refused, restIff.mpr ?_⟩⟩, fun both page => ?_⟩
        · rcases restIff.mp both.2 with rfl | enough
          · refine ⟨table, zero, ?_, fun other member => ?_⟩
            · rw [List.length_singleton]
              omega
            · obtain rfl := List.mem_singleton.mp member
              exact mappable
          · have frames := enough.frames
            refine ⟨table, zero, ?_, fun other member => ?_⟩
            · rw [List.length_cons]
              omega
            · rcases List.mem_cons.mp member with rfl | member
              · exact mappable
              · exact enough.mappable other member
        · rcases whole with none | ⟨_, _, frames, others⟩
          · cases none
          · rw [List.length_cons] at frames
            exact .inr ⟨by rw [loaded.table]; exact table, loaded.zero zero, by omega,
              fun other member => others other (List.mem_cons_of_mem turn member)⟩
        · have step := restGiven both.2 page
          rw [loaded.given, or_assoc] at step
          refine step.trans (or_congr_right ?_)
          constructor
          · rintro (same | ⟨other, member, same⟩)
            · exact ⟨turn, List.mem_cons_self, same⟩
            · exact ⟨other, List.mem_cons_of_mem turn member, same⟩
          · rintro ⟨other, member, same⟩
            rcases List.mem_cons.mp member with rfl | member
            · exact .inl same
            · exact .inr ⟨other, member, same⟩

theorem turnValid (member : turn ∈ loaderTurns (phdrs file)) : TurnValid turn := by
  obtain ⟨listed, _, page, _, offset⟩ := mem_loaderTurns.mp member
  refine ⟨(phdr_small listed).1, ?_⟩
  rw [offset]
  exact Nat.mul_mod_left _ _

/-- **When the loader reports an incomplete load.** Exactly when it has no entry point to
return, never returns, or there is nothing to report: frames and entries suffice for all
turns, and these cover the pages of all segments. -/
theorem elf64Load_reports_iff {s : VmmState} (check : elf64Check file = true) (apart : s.Apart) :
    Reports file s ↔ entry file = 0 ∨
      (∃ segment ∈ phdrs file, segment.type = ptLoad ∧ 2 ^ 64 - pageSize < segment.memsz) ∨
      ((loaderTurns (phdrs file) = [] ∨ Suffices (loaderTurns (phdrs file)) s) ∧
        Covered file) := by
  have fresh : GivenMappable (.start s) := fun page known => absurd rfl known
  obtain ⟨served, given⟩ := @refused_iff file _ (fun _ => turnValid) (.start s) apart fresh
  have nothing : ∀ page, ¬ (LoadState.start s).given page ≠ none := fun page known => known rfl
  by_cases bounded : ∀ segment ∈ phdrs file, segment.type = ptLoad →
      segment.memsz ≤ 2 ^ 64 - pageSize
  · have result := @elf64Load_eq file (.start s) check
    rw [loadSegments_eq bounded, Option.map_some] at result
    have finite : ¬ ∃ segment ∈ phdrs file, segment.type = ptLoad ∧
        2 ^ 64 - pageSize < segment.memsz := by
      rintro ⟨segment, member, load, large⟩
      exact absurd (bounded segment member load) (Nat.not_le_of_lt large)
    rw [or_iff_right finite]
    constructor
    · intro reports
      obtain ⟨complete, honest⟩ := reports _ _ result
      by_cases null : entry file = 0
      · exact .inl null
      · have accepted := fun refused => null (honest refused)
        refine .inr ⟨served.mp accepted, fun segment member load page overlaps => ?_⟩
        have known := (given accepted page).mp (complete null segment member load page overlaps)
        exact known.resolve_left (nothing page)
    · rintro condition start t returned
      obtain ⟨rfl, rfl⟩ := Prod.mk.inj (Option.some.inj (result.symm.trans returned))
      rcases condition with null | ⟨enough, covered⟩
      · exact ⟨fun nonzero => absurd null nonzero, fun _ => null⟩
      · have accepted := served.mpr enough
        refine ⟨fun _ segment member load page overlaps => ?_, fun refused =>
          absurd refused accepted⟩
        exact (given accepted page).mpr (.inr (covered segment member load page overlaps))
  · have endless : ∃ segment ∈ phdrs file, segment.type = ptLoad ∧
        2 ^ 64 - pageSize < segment.memsz := by
      by_contra none
      refine bounded fun segment member load => Nat.le_of_not_lt fun large => none ?_
      exact ⟨segment, member, load, large⟩
    refine iff_of_true (fun start t returned => ?_) (.inr (.inl endless))
    rw [elf64Load_eq check, Option.map_eq_some_iff] at returned
    obtain ⟨u, loaded, _⟩ := returned
    exact absurd (bounded_of_loadSegments loaded) bounded

end Reports

theorem elf64Load_reports_sample : Reports (sampleFile 1) smallMachine := by
  have turns : loaderTurns (phdrs (sampleFile 1)) = [(⟨1, 5, 120, 0x1000, 1, 1⟩, 0)] := by
    rw [sampleFile_phdrs]
    rfl
  refine (elf64Load_reports_iff (by decide +kernel) smallMachine_ready.apart).mpr
    (.inr (.inr ⟨.inr ⟨smallMachine_ready.table, smallMachine_ready.zero, ?_, ?_⟩, ?_⟩))
  · change _ ≤ smallMachine.freeFrames.card
    rw [turns, smallMachine_freeFrames]
    decide
  · rw [turns]
    intro turn member
    cases List.mem_singleton.mp member
    exact ⟨by decide, by decide⟩
  · intro segment member load page overlaps
    rw [turns]
    rw [sampleFile_phdrs] at member
    cases List.mem_singleton.mp member
    obtain ⟨addr, low, high, rfl⟩ := overlaps
    refine ⟨_, List.mem_cons_self, ?_⟩
    have only : addr = 0x1000 := by
      dsimp only at low high
      omega
    rw [only]
    decide

/-- The sample executable linked at the address that the linker script of the user space
gives. -/
def linkedFile : Memory :=
  writeLE (writeLE (sampleFile 1) 24 8 0xFFFF800040000000) 80 8 0xFFFF800040000000

/-- Its page has no entry in the page table, and its entry point is returned. -/
theorem elf64Load_unreported_linked :
    ¬ ∀ (file : Memory) (s : VmmState), elf64Check file = true → s.Apart → Reports file s := by
  intro claim
  have reports := claim linkedFile smallMachine (by decide +kernel) smallMachine_ready.apart
  have segments : phdrs linkedFile = [⟨1, 5, 120, 0xFFFF800040000000, 1, 1⟩] := by decide +kernel
  have refused : Refused linkedFile (loaderTurns (phdrs linkedFile)) (.start smallMachine) := by
    rw [segments]
    refine .inl ?_
    rw [TurnRefused]
    decide +kernel
  have entered : entry linkedFile = 0xFFFF800040000000 := by decide +kernel
  have result := @elf64Load_eq linkedFile (.start smallMachine) (by decide +kernel)
  rw [loadSegments_eq (by
    rw [segments]
    intro segment member _
    cases List.mem_singleton.mp member
    decide), Option.map_some] at result
  have null := (reports _ _ result).2 refused
  rw [entered] at null
  exact absurd null (by decide)

end NTux.Elf
