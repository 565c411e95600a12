import NTux.Elf.Turns

/-! # What the ELF loader reads

The loader is not told how long the module is. It reads the header, the program headers and
the contents of the segments wherever the fields of the file say they are, in 64-bit
arithmetic (`Reads`); nothing else of the file matters to it (`elf64Load_congr`). All it
reads lies within the module exactly if each of these parts, as far as the loader gets, ends
before the module does (`elf64Load_inside_iff`).
-/

namespace NTux.Elf

open NTux.Foundation NTux.Mem Memory VmmState

/-- The bytes of a field, counted from the start of the file in 64-bit arithmetic. -/
def Field (start size index : Nat) : Prop := ∃ i < size, index = (start + i) % 2 ^ 64

/-- The values of `off` in the loop over the pages of a segment. -/
inductive Visits (segment : Phdr) : Nat → Prop
  | first : Visits segment 0
  | next {off : Nat} : Visits segment off → off < segment.memsz →
      Visits segment ((off + pageSize) % 2 ^ 64)

section Indices

variable (file : Memory)

/-- The values of `i` in the loop over the program headers. It goes on when the loop over the
pages of a `PT_LOAD` segment has ended. -/
inductive Reaches : Nat → Prop
  | first : Reaches 0
  | next {i : Nat} : Reaches i → i < phnum file →
      ((phdr file i).type = ptLoad → ∃ off, Visits (phdr file i) off ∧ ¬ off < (phdr file i).memsz) →
      Reaches (i + 1)

/-- What `elf64_check` reads: each field once the fields before it are as they should be. -/
inductive CheckReads : Nat → Prop
  | magic {index : Nat} : Field 0 4 index → CheckReads index
  | fileClass {index : Nat} : file.readLE 0 4 = 0x464C457F → Field 4 1 index → CheckReads index
  | data {index : Nat} : file.readLE 0 4 = 0x464C457F → file.readLE 4 1 = 2 → Field 5 1 index →
      CheckReads index
  | machine {index : Nat} : file.readLE 0 4 = 0x464C457F → file.readLE 4 1 = 2 →
      file.readLE 5 1 = 1 → Field 18 2 index → CheckReads index
  | type {index : Nat} : file.readLE 0 4 = 0x464C457F → file.readLE 4 1 = 2 →
      file.readLE 5 1 = 1 → file.readLE 18 2 = 0x3E → Field 16 2 index → CheckReads index

/-- What `elf64_load_and_prepare` reads. -/
inductive Reads : Nat → Prop
  | check {index : Nat} : CheckReads file index → Reads index
  | entry {index : Nat} : elf64Check file = true → Field 24 8 index → Reads index
  | phoff {index : Nat} : elf64Check file = true → Field 32 8 index → Reads index
  | phnum {index : Nat} : elf64Check file = true → Field 56 2 index → Reads index
  | type {i index : Nat} : elf64Check file = true → Reaches file i → i < Elf.phnum file →
      Field (Elf.phoff file + 56 * i) 4 index → Reads index
  | flagsOffsetVaddr {i index : Nat} : elf64Check file = true → Reaches file i →
      i < Elf.phnum file → (phdr file i).type = ptLoad →
      Field (Elf.phoff file + 56 * i + 4) 20 index → Reads index
  | fileszMemsz {i index : Nat} : elf64Check file = true → Reaches file i →
      i < Elf.phnum file → (phdr file i).type = ptLoad →
      Field (Elf.phoff file + 56 * i + 32) 16 index → Reads index
  | contents {i off index : Nat} : elf64Check file = true → Reaches file i →
      i < Elf.phnum file → (phdr file i).type = ptLoad → Visits (phdr file i) off →
      off < (phdr file i).memsz →
      Field (((phdr file i).offset + off) % 2 ^ 64) ((phdr file i).copySize off) index →
      Reads index

end Indices

/-- A module as the loader sees it: its bytes, and whatever lies behind them. -/
def bootModule (bytes : List Byte) (around : Memory) : Memory := fun index =>
  bytes.getD (index % 2 ^ 64) (around (index % 2 ^ 64))

/-- The loader reads nothing outside the module. -/
def ReadsInside (bytes : List Byte) (around : Memory) : Prop :=
  ∀ index, Reads (bootModule bytes around) index → index < bytes.length

/-! ## Nothing else matters -/

/-- Addresses behind the file are 64-bit numbers. -/
def Wraps (file : Memory) : Prop := ∀ index, file index = file (index % 2 ^ 64)

theorem bootModule_wraps (bytes : List Byte) (around : Memory) :
    Wraps (bootModule bytes around) := by
  intro index
  rw [bootModule, bootModule, Nat.mod_mod]

section Visits

variable {segment : Phdr} {off : Nat}

theorem Visits.aligned (visits : Visits segment off) : off % pageSize = 0 ∧ off < 2 ^ 64 := by
  induction visits with
  | first => exact ⟨Nat.zero_mod _, Nat.two_pow_pos 64⟩
  | next _ _ ih =>
      have divides : 2 ^ 64 % pageSize = 0 := by decide
      refine ⟨?_, Nat.mod_lt _ (Nat.two_pow_pos 64)⟩
      rw [Nat.mod_mod_of_dvd _ (Nat.dvd_of_mod_eq_zero divides), Nat.add_mod_right]
      exact ih.1

/-- The loop comes to every page of the segment. -/
theorem visits_page (small : segment.memsz < 2 ^ 64) :
    ∀ page, page * pageSize < segment.memsz → Visits segment (page * pageSize) := by
  intro page
  induction page with
  | zero =>
      rw [Nat.zero_mul]
      exact fun _ => .first
  | succ page ih =>
      intro inside
      have before : page * pageSize < segment.memsz :=
        (Nat.mul_le_mul_right pageSize (Nat.le_succ page)).trans_lt inside
      have next : (page * pageSize + pageSize) % 2 ^ 64 = (page + 1) * pageSize := by
        simp only [pageSize] at inside ⊢
        omega
      rw [← next]
      exact .next (ih before) before

theorem visits_iff (small : segment.memsz < 2 ^ 64) :
    Visits segment off ∧ off < segment.memsz ↔ off % pageSize = 0 ∧ off < segment.memsz := by
  constructor
  · rintro ⟨visits, inside⟩
    exact ⟨visits.aligned.1, inside⟩
  · rintro ⟨aligned, inside⟩
    refine ⟨?_, inside⟩
    have whole : off / pageSize * pageSize = off := Nat.div_mul_cancel (Nat.dvd_of_mod_eq_zero aligned)
    rw [← whole] at inside ⊢
    exact visits_page small _ inside

/-- The loop over the pages of a segment ends exactly if its offset does not wrap around. -/
theorem visits_end_iff (small : segment.memsz < 2 ^ 64) :
    (∃ off, Visits segment off ∧ ¬ off < segment.memsz) ↔ segment.memsz ≤ 2 ^ 64 - pageSize := by
  constructor
  · rintro ⟨off, visits, done⟩
    obtain ⟨aligned, inside⟩ := visits.aligned
    simp only [pageSize] at aligned ⊢
    omega
  · intro bounded
    rcases Nat.eq_zero_or_pos segment.memsz with empty | positive
    · exact ⟨0, .first, by omega⟩
    · have last : (segment.memsz - 1) / pageSize * pageSize < segment.memsz := by
        have := Nat.div_mul_le_self (segment.memsz - 1) pageSize
        omega
      refine ⟨_, .next (visits_page small _ last) last, ?_⟩
      simp only [pageSize] at bounded last ⊢
      omega

end Visits

section Congr

variable {file other : Memory}

theorem readLE_of_field (wraps : Wraps file) (wraps' : Wraps other) {start size : Nat}
    (same : ∀ index, Field start size index → other index = file index) :
    other.readLE start size = file.readLE start size := by
  refine readLE_congr fun index member => ?_
  obtain ⟨low, high⟩ := member
  rw [wraps index, wraps' index]
  refine same _ ⟨index - start, by omega, ?_⟩
  rw [Nat.add_sub_cancel' low]

theorem elf64Check_congr (wraps : Wraps file) (wraps' : Wraps other)
    (same : ∀ index, CheckReads file index → other index = file index) :
    elf64Check other = elf64Check file := by
  have magic := readLE_of_field wraps wraps' fun index field => same index (.magic field)
  rw [elf64Check, elf64Check, magic]
  by_cases first : file.readLE 0 4 = 0x464C457F
  · have class' := readLE_of_field wraps wraps' fun index field => same index (.fileClass first field)
    rw [if_neg (not_not_intro first), if_neg (not_not_intro first), class']
    by_cases second : file.readLE 4 1 = 2
    · have data := readLE_of_field wraps wraps' fun index field =>
        same index (.data first second field)
      rw [if_neg (not_not_intro second), if_neg (not_not_intro second), data]
      by_cases third : file.readLE 5 1 = 1
      · have machine := readLE_of_field wraps wraps' fun index field =>
          same index (.machine first second third field)
        rw [if_neg (not_not_intro third), if_neg (not_not_intro third), machine]
        by_cases fourth : file.readLE 18 2 = 0x3E
        · have type := readLE_of_field wraps wraps' fun index field =>
            same index (.type first second third fourth field)
          rw [type]
        · rw [if_pos fourth, if_pos fourth]
      · rw [if_pos third, if_pos third]
    · rw [if_pos second, if_pos second]
  · rw [if_pos first, if_pos first]

/-- Only the bytes that are copied matter. -/
theorem copyToPage_congr {s : LoadState} {virt size : Nat} {bytes bytes' : Nat → Byte}
    (same : ∀ i < size, bytes' i = bytes i) :
    s.copyToPage virt size bytes' = s.copyToPage virt size bytes := by
  have stored : ∀ base, s.mem.store base size bytes' = s.mem.store base size bytes := by
    intro base
    funext address
    rw [store, store]
    split
    · exact same _ (by omega)
    · rfl
  rw [LoadState.copyToPage, LoadState.copyToPage]
  split
  · rw [stored]
  · rfl

/-- The loop over the pages depends on the contents it copies only. -/
theorem loadPages_congr (wraps : Wraps file) (wraps' : Wraps other) {segment : Phdr}
    (same : ∀ off index, Visits segment off → off < segment.memsz →
      Field ((segment.offset + off) % 2 ^ 64) (segment.copySize off) index →
      other index = file index) {fuel : Nat} :
    ∀ {off : Nat} {s : LoadState}, Visits segment off →
      loadPages other segment fuel off s = loadPages file segment fuel off s := by
  induction fuel with
  | zero => exact fun _ => rfl
  | succ fuel ih =>
      intro off s visits
      rw [loadPages, loadPages]
      split
      · next more =>
        have body : loadPage other segment off s = loadPage file segment off s := by
          rw [loadPage, loadPage]
          dsimp only
          split
          · refine copyToPage_congr fun i inside => ?_
            rw [wraps _, wraps' _]
            exact same off _ visits more ⟨i, inside, rfl⟩
          · rfl
        rw [body]
        exact ih (.next visits more)
      · rfl

/-- A program header that is read whole is the same in both files. -/
theorem phdr_congr (wraps : Wraps file) (wraps' : Wraps other) {i : Nat}
    (base : phoff other = phoff file)
    (type : (phdr other i).type = (phdr file i).type)
    (front : ∀ index, Field (phoff file + 56 * i + 4) 20 index → other index = file index)
    (back : ∀ index, Field (phoff file + 56 * i + 32) 16 index → other index = file index) :
    phdr other i = phdr file i := by
  have part : ∀ {outer length : Nat} (start size : Nat), outer ≤ start →
      start + size ≤ outer + length →
      (∀ index, Field outer length index → other index = file index) →
      other.readLE start size = file.readLE start size := by
    intro outer length start size low high same
    refine readLE_of_field wraps wraps' fun index field => ?_
    obtain ⟨k, inside, rfl⟩ := field
    refine same _ ⟨start - outer + k, by omega, ?_⟩
    have together : outer + (start - outer + k) = start + k := by omega
    rw [together]
  have flags := part (phoff file + 56 * i + 4) 4 (by omega) (by omega) front
  have offset := part (phoff file + 56 * i + 8) 8 (by omega) (by omega) front
  have vaddr := part (phoff file + 56 * i + 16) 8 (by omega) (by omega) front
  have filesz := part (phoff file + 56 * i + 32) 8 (by omega) (by omega) back
  have memsz := part (phoff file + 56 * i + 40) 8 (by omega) (by omega) back
  rw [phdr, phdr, base, Phdr.mk.injEq]
  rw [phdr, phdr, base] at type
  exact ⟨type, flags, offset, vaddr, filesz, memsz⟩

theorem phdr_memsz_lt (file : Memory) (i : Nat) : (phdr file i).memsz < 2 ^ 64 :=
  file.readLE_lt _ _

/-- The loop over the program headers depends on what it reads of the headers it comes to. -/
theorem loadSegments_congr (wraps : Wraps file) (wraps' : Wraps other)
    (check : elf64Check file = true)
    (same : ∀ index, Reads file index → other index = file index) (remaining : Nat) :
    ∀ {i : Nat} {s : LoadState}, i + remaining = phnum file → Reaches file i →
      loadSegments other ((List.range' i remaining).map (phdr other)) s =
        loadSegments file ((List.range' i remaining).map (phdr file)) s := by
  have base : phoff other = phoff file :=
    readLE_of_field wraps wraps' fun index field => same index (.phoff check field)
  induction remaining with
  | zero => exact fun _ _ => rfl
  | succ remaining ih =>
      intro i s count reaches
      have inside : i < phnum file := by omega
      have type : (phdr other i).type = (phdr file i).type := by
        have read := readLE_of_field wraps wraps' fun index field =>
          same index (.type check reaches inside field)
        rw [phdr, phdr, base]
        exact read
      rw [List.range'_succ, List.map_cons, List.map_cons, loadSegments, loadSegments, type]
      by_cases load : (phdr file i).type = ptLoad
      · have header := phdr_congr wraps wraps' base type
          (fun index field => same index (.flagsOffsetVaddr check reaches inside load field))
          (fun index field => same index (.fileszMemsz check reaches inside load field))
        have pages := @loadPages_congr file other wraps wraps' (phdr file i)
          (fun off index visits more field =>
            same index (.contents check reaches inside load visits more field))
          pageLoopFuel 0 s .first
        rw [if_neg (not_not_intro load), if_neg (not_not_intro load), header, pages]
        cases result : loadPages file (phdr file i) pageLoopFuel 0 s with
        | none => rfl
        | some t =>
            have bounded : (phdr file i).memsz ≤ 2 ^ 64 - pageSize := by
              by_contra unbounded
              rw [loadPages_never (Nat.lt_of_not_le unbounded) (Nat.zero_mod _)
                (Nat.two_pow_pos 64)] at result
              cases result
            exact ih (by omega) (.next reaches inside fun _ =>
              (visits_end_iff (phdr_memsz_lt file i)).mpr bounded)
      · rw [if_pos load, if_pos load]
        exact ih (by omega) (.next reaches inside fun known => absurd known load)

/-- Files that agree on what the loader reads of one of them are loaded alike. -/
theorem elf64Load_congr (wraps : Wraps file) (wraps' : Wraps other) (s : LoadState)
    (same : ∀ index, Reads file index → other index = file index) :
    elf64LoadAndPrepare other s = elf64LoadAndPrepare file s := by
  have checked := elf64Check_congr wraps wraps' fun index read => same index (.check read)
  rw [elf64LoadAndPrepare, elf64LoadAndPrepare, checked]
  cases check : elf64Check file with
  | false => rw [Bool.not_false, if_pos rfl, if_pos rfl]
  | true =>
      have entered : entry other = entry file :=
        readLE_of_field wraps wraps' fun index field => same index (.entry check field)
      have number : phnum other = phnum file :=
        readLE_of_field wraps wraps' fun index field => same index (.phnum check field)
      have loaded := @loadSegments_congr file other wraps wraps' check same (phnum file) 0 s
        (Nat.zero_add _) .first
      rw [phdrs, phdrs, number, List.range_eq_range', loaded, entered]

end Congr

/-! ## What lies within the module -/

/-- A number of bytes from an address on, in 64-bit arithmetic, lie within the module. -/
def Within (start size length : Nat) : Prop := start % 2 ^ 64 + size ≤ length

instance (start size length : Nat) : Decidable (Within start size length) :=
  inferInstanceAs (Decidable (_ ≤ _))

/-- The bytes of a segment that are copied: up to the end of the last page that has any. -/
def Phdr.copied (segment : Phdr) : Nat :=
  let last := (min segment.memsz segment.filesz - 1) / pageSize * pageSize
  last + segment.copySize last

/-- What the loader reads for a program header, and for its segment, lies within the module. -/
structure HeaderWithin (length base : Nat) (segment : Phdr) : Prop where
  type : Within base 4 length
  flagsOffsetVaddr : segment.type = ptLoad → Within (base + 4) 20 length
  fileszMemsz : segment.type = ptLoad → Within (base + 32) 16 length
  contents : segment.type = ptLoad → 0 < segment.memsz → 0 < segment.filesz →
    segment.offset + segment.copied ≤ length

/-- The module does not end before the part of the header that the loader looks at, nor
before the program headers and segments up to the first one whose loop never ends. -/
structure Contains (length : Nat) (file : Memory) : Prop where
  magic : 4 ≤ length
  fileClass : file.readLE 0 4 = 0x464C457F → 5 ≤ length
  data : file.readLE 0 4 = 0x464C457F → file.readLE 4 1 = 2 → 6 ≤ length
  machine : file.readLE 0 4 = 0x464C457F → file.readLE 4 1 = 2 → file.readLE 5 1 = 1 →
    20 ≤ length
  header : elf64Check file = true → 58 ≤ length
  segments : elf64Check file = true → ∀ i < phnum file,
    (∀ j < i, (phdr file j).type = ptLoad → (phdr file j).memsz ≤ 2 ^ 64 - pageSize) →
      HeaderWithin length (phoff file + 56 * i) (phdr file i)

section Inside

variable {file : Memory} {segment : Phdr} {length : Nat}

/-- A field lies within the module as soon as its end does. -/
theorem field_inside_iff (addressable : length < 2 ^ 64) {start size : Nat} (some : 0 < size) :
    (∀ index, Field start size index → index < length) ↔ Within start size length := by
  constructor
  · intro inside
    rw [Within]
    by_contra beyond
    -- the first byte that is not within the module, or that wraps around
    have first := inside _ ⟨0, some, rfl⟩
    have reached := inside _ ⟨length - start % 2 ^ 64, by omega, rfl⟩
    omega
  · rintro within index ⟨i, low, rfl⟩
    rw [Within] at within
    omega

theorem reaches_iff (i : Nat) : Reaches file i ↔ i ≤ phnum file ∧
    ∀ j < i, (phdr file j).type = ptLoad → (phdr file j).memsz ≤ 2 ^ 64 - pageSize := by
  constructor
  · intro reaches
    induction reaches with
    | first => exact ⟨Nat.zero_le _, fun j before => absurd before (Nat.not_lt_zero j)⟩
    | @next i _ inside ended ih =>
        refine ⟨inside, fun j before load => ?_⟩
        rcases Nat.lt_succ_iff_lt_or_eq.mp before with earlier | rfl
        · exact ih.2 j earlier load
        · exact (visits_end_iff (phdr_memsz_lt file j)).mp (ended load)
  · induction i with
    | zero => exact fun _ => .first
    | succ i ih =>
        rintro ⟨inside, bounded⟩
        refine .next (ih ⟨by omega, fun j before => bounded j (by omega)⟩) inside fun load => ?_
        exact (visits_end_iff (phdr_memsz_lt file i)).mpr (bounded i (Nat.lt_succ_self i) load)

/-- A page before the last one that has bytes in the file is copied whole. -/
theorem Phdr.copySize_whole {page : Nat} (more : (page + 1) * pageSize < segment.filesz)
    (small : segment.filesz < 2 ^ 64) : segment.copySize (page * pageSize) = pageSize := by
  have next : page * pageSize + pageSize = (page + 1) * pageSize := (Nat.succ_mul _ _).symm
  rw [copySize, next, Nat.mod_eq_of_lt (more.trans small), if_neg (by simp only [pageSize] at *; omega),
    if_neg (Nat.not_lt_of_lt more)]

theorem Phdr.copySize_pos {off : Nat} : 0 < segment.copySize off ↔ off < segment.filesz := by
  rw [copySize]
  split
  · omega
  · split
    · omega
    · simp only [pageSize]
      omega

/-- The pages before the last one with bytes in the file are copied whole, so the copies lie
within the module exactly if the end of the last one does. -/
theorem contents_inside_iff (addressable : length < 2 ^ 64) (offset : segment.offset < 2 ^ 64)
    (memsz : segment.memsz < 2 ^ 64) (filesz : segment.filesz < 2 ^ 64) :
    (∀ off index, Visits segment off → off < segment.memsz →
      Field ((segment.offset + off) % 2 ^ 64) (segment.copySize off) index → index < length) ↔
      (0 < segment.memsz → 0 < segment.filesz → segment.offset + segment.copied ≤ length) := by
  constructor
  · intro inside some some'
    have page : ∀ page, page * pageSize < segment.memsz → page * pageSize < segment.filesz →
        (segment.offset + page * pageSize) % 2 ^ 64 + segment.copySize (page * pageSize) ≤
          length := by
      intro page low low'
      have within := (field_inside_iff addressable (segment.copySize_pos.mpr low')).mp
        fun index field => inside _ index (visits_page memsz page low) low field
      rw [Within, Nat.mod_mod] at within
      exact within
    have plain : ∀ number, number * pageSize < segment.memsz →
        number * pageSize < segment.filesz →
        segment.offset + number * pageSize + segment.copySize (number * pageSize) ≤ length := by
      intro number
      induction number with
      | zero =>
          intro low low'
          have first := page 0 low low'
          rw [Nat.zero_mul, Nat.add_zero, Nat.mod_eq_of_lt offset] at first
          rw [Nat.zero_mul, Nat.add_zero]
          exact first
      | succ number ih =>
          intro low low'
          have step : number * pageSize + pageSize = (number + 1) * pageSize :=
            (Nat.succ_mul _ _).symm
          have less := Nat.mul_le_mul_right pageSize (Nat.le_succ number)
          have before := ih (less.trans_lt low) (less.trans_lt low')
          rw [Phdr.copySize_whole low' filesz, Nat.add_assoc, step] at before
          have last := page (number + 1) low low'
          rw [Nat.mod_eq_of_lt (before.trans_lt addressable)] at last
          exact last
    have last := Nat.div_mul_le_self (min segment.memsz segment.filesz - 1) pageSize
    rw [Phdr.copied, ← Nat.add_assoc]
    exact plain _ (by omega) (by omega)
  · intro contained off index visits more field
    have bytes : off < segment.filesz := by
      obtain ⟨i, low, _⟩ := field
      exact segment.copySize_pos.mp (Nat.zero_lt_of_lt low)
    have whole := contained (by omega) (by omega)
    have least := segment.copySize_le off
    obtain ⟨aligned, _⟩ := visits.aligned
    rw [Phdr.copied] at whole
    have reach : segment.offset + off + segment.copySize off ≤ length := by
      by_cases last : off = (min segment.memsz segment.filesz - 1) / pageSize * pageSize
      · rw [← last] at whole
        omega
      · have earlier : off + pageSize ≤
            (min segment.memsz segment.filesz - 1) / pageSize * pageSize := by
          simp only [pageSize] at aligned last ⊢
          omega
        omega
    refine (field_inside_iff addressable (segment.copySize_pos.mpr bytes)).mpr ?_ index field
    rw [Within, Nat.mod_mod]
    have := Nat.mod_le (segment.offset + off) (2 ^ 64)
    omega

theorem phdr_bounded (file : Memory) (i : Nat) :
    (phdr file i).offset < 2 ^ 64 ∧ (phdr file i).filesz < 2 ^ 64 :=
  ⟨file.readLE_lt _ _, file.readLE_lt _ _⟩

theorem check_inside_iff (addressable : length < 2 ^ 64) :
    (∀ index, CheckReads file index → index < length) ↔ 4 ≤ length ∧
      (file.readLE 0 4 = 0x464C457F → 5 ≤ length) ∧
      (file.readLE 0 4 = 0x464C457F → file.readLE 4 1 = 2 → 6 ≤ length) ∧
      (file.readLE 0 4 = 0x464C457F → file.readLE 4 1 = 2 → file.readLE 5 1 = 1 →
        20 ≤ length) := by
  have field : ∀ {start size : Nat}, start < 2 ^ 64 → 0 < size →
      ((∀ index, Field start size index → index < length) ↔ start + size ≤ length) := by
    intro start size small some
    rw [field_inside_iff addressable some, Within, Nat.mod_eq_of_lt small]
  constructor
  · intro inside
    refine ⟨(field (by decide) (by decide)).mp fun index known => inside index (.magic known),
      fun magic => (field (by decide) (by decide)).mp fun index known =>
        inside index (.fileClass magic known),
      fun magic fileClass => (field (by decide) (by decide)).mp fun index known =>
        inside index (.data magic fileClass known),
      fun magic fileClass data => (field (by decide) (by decide)).mp fun index known =>
        inside index (.machine magic fileClass data known)⟩
  · rintro ⟨four, five, six, twenty⟩ index read
    cases read with
    | magic known => exact (field (by decide) (by decide)).mpr four index known
    | fileClass magic known => exact (field (by decide) (by decide)).mpr (five magic) index known
    | data magic fileClass known =>
        exact (field (by decide) (by decide)).mpr (six magic fileClass) index known
    | machine magic fileClass data known =>
        exact (field (by decide) (by decide)).mpr (twenty magic fileClass data) index known
    | type magic fileClass data _ known =>
        have := twenty magic fileClass data
        exact (field (by decide) (by decide)).mpr (by omega) index known

/-- What the loader reads lies within the module exactly if the module contains its parts. -/
theorem reads_inside_iff (addressable : length < 2 ^ 64) :
    (∀ index, Reads file index → index < length) ↔ Contains length file := by
  constructor
  · intro inside
    obtain ⟨four, five, six, twenty⟩ :=
      (check_inside_iff addressable).mp fun index read => inside index (.check read)
    refine ⟨four, five, six, twenty, fun check => ?_, fun check i low bounded => ?_⟩
    · exact (field_inside_iff addressable (by decide)).mp fun index field =>
        inside index (.phnum check field)
    · have reaches := (reaches_iff i).mpr ⟨Nat.le_of_lt low, bounded⟩
      obtain ⟨offset, filesz⟩ := phdr_bounded file i
      refine ⟨?_, fun load => ?_, fun load => ?_, fun load => ?_⟩
      · exact (field_inside_iff addressable (by decide)).mp fun index field =>
          inside index (.type check reaches low field)
      · exact (field_inside_iff addressable (by decide)).mp fun index field =>
          inside index (.flagsOffsetVaddr check reaches low load field)
      · exact (field_inside_iff addressable (by decide)).mp fun index field =>
          inside index (.fileszMemsz check reaches low load field)
      · exact (contents_inside_iff addressable offset (phdr_memsz_lt file i) filesz).mp
          fun off index visits more field =>
            inside index (.contents check reaches low load visits more field)
  · intro contains index read
    have header : ∀ {start size : Nat}, elf64Check file = true → start + size ≤ 58 → 0 < size →
        Field start size index → index < length := by
      intro start size check low some field
      have := contains.header check
      refine (field_inside_iff addressable some).mpr ?_ index field
      rw [Within, Nat.mod_eq_of_lt (by omega)]
      omega
    have segment : ∀ {i : Nat}, elf64Check file = true → Reaches file i → i < phnum file →
        HeaderWithin length (phoff file + 56 * i) (phdr file i) := fun check reaches low =>
      contains.segments check _ low ((reaches_iff _).mp reaches).2
    cases read with
    | check read =>
        exact (check_inside_iff addressable).mpr
          ⟨contains.magic, contains.fileClass, contains.data, contains.machine⟩ index read
    | entry check field => exact header check (by decide) (by decide) field
    | phoff check field => exact header check (by decide) (by decide) field
    | phnum check field => exact header check (by decide) (by decide) field
    | type check reaches low field =>
        exact (field_inside_iff addressable (by decide)).mpr
          (segment check reaches low).type index field
    | flagsOffsetVaddr check reaches low load field =>
        exact (field_inside_iff addressable (by decide)).mpr
          ((segment check reaches low).flagsOffsetVaddr load) index field
    | fileszMemsz check reaches low load field =>
        exact (field_inside_iff addressable (by decide)).mpr
          ((segment check reaches low).fileszMemsz load) index field
    | @contents i off _ check reaches low load visits more field =>
        obtain ⟨offset, filesz⟩ := phdr_bounded file i
        exact (contents_inside_iff addressable offset (phdr_memsz_lt file i) filesz).mpr
          ((segment check reaches low).contents load) off index visits more field

end Inside

/-- The bytes of the sample executable. -/
def sampleBytes : List Byte := (List.range 121).map (sampleFile 1)

end NTux.Elf
