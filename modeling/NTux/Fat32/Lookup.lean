import NTux.Fat32.Chains
import NTux.Fat32.Paths
import Mathlib.Data.List.GetD

/-! # Looking up names

`find_fat_volume` and `dir_search` compare names by the `memcmp` of the kernel's own library,
which gives `true` for equal bytes, as if it gave zero for them. Both are right exactly
where they come to no comparison (`lookup_iff`).
-/

namespace NTux.Fat32

open NTux.Foundation Command

/-! ## Comparing -/

theorem memcmp_iff (len : Nat) {s1 s2 : Nat → Byte} :
    memcmp s1 s2 len = true ↔ ∀ i < len, s1 i = s2 i := by
  induction len generalizing s1 s2 with
  | zero => exact ⟨fun _ i less => absurd less (Nat.not_lt_zero i), fun _ => rfl⟩
  | succ len ih =>
      rw [memcmp]
      by_cases first : s1 0 ≠ s2 0
      · rw [if_pos first]
        exact iff_of_false (by decide) fun all => first (all 0 (Nat.succ_pos len))
      · rw [if_neg first, ih]
        refine ⟨fun rest i less => ?_, fun all i less => all (i + 1) (Nat.succ_lt_succ less)⟩
        cases i with
        | zero => exact not_not.mp first
        | succ i => exact rest i (Nat.lt_of_succ_lt_succ less)

/-- The bytes in memory are those of a list. -/
theorem memcmp_range {name : List Byte} {memory : Nat → Byte} {len : Nat}
    (length : len = name.length) :
    memcmp memory (inMemory name) len = true ↔ (List.range len).map memory = name := by
  rw [memcmp_iff]
  constructor
  · intro same
    refine List.ext_getElem (by simp [length]) fun i _ less => ?_
    rw [List.getElem_map, List.getElem_range, same i (length ▸ less), inMemory,
      List.getD_eq_getElem _ _ less]
  · rintro rfl i less
    rw [inMemory, List.getD_eq_getElem _ _ (by simpa using less), List.getElem_map,
      List.getElem_range]

theorem memcmp_comm (s1 s2 : Nat → Byte) (len : Nat) : memcmp s1 s2 len = memcmp s2 s1 len := by
  rw [Bool.eq_iff_iff, memcmp_iff, memcmp_iff]
  exact forall₂_congr fun i _ => eq_comm

theorem padTo_length {length : Nat} {chars : List Byte} (fits : chars.length ≤ length) :
    (padTo length chars).length = length := by
  rw [padTo, List.length_append, List.length_replicate, Nat.add_sub_cancel' fits]

theorem putSfnName_length (name : List Byte) : (putSfnName name).length = 11 := by
  unfold putSfnName
  rw [List.length_append, padTo_length, padTo_length]
  · rw [List.length_map]
    exact (List.length_take_le _ _)
  · rw [List.length_map]
    exact (List.takeWhile_prefix _).length_le.trans (List.length_take_le _ _)

/-! ## Volumes -/

/-- Equal names are equal bytes in memory. -/
theorem memcmp_inMemory {name other : List Byte} (length : name.length = other.length) :
    memcmp (inMemory name) (inMemory other) name.length = true ↔ name = other := by
  rw [memcmp_range length]
  have whole : (List.range name.length).map (inMemory name) = name := by
    refine List.ext_getElem (by simp) fun i _ less => ?_
    rw [List.getElem_map, List.getElem_range, inMemory, List.getD_eq_getElem _ _ less]
  rw [whole]

/-- `find_fat_volume` gives the first volume whose name has the length and is another one. -/
theorem findFatVolume_eq (name : List Byte) (fats : List Fat) :
    findFatVolume name fats =
      fats.findIdx? fun it => name.length = it.name.length ∧ name ≠ it.name := by
  induction fats with
  | nil => rfl
  | cons it next ih =>
      rw [findFatVolume, List.findIdx?_cons, ih]
      by_cases length : name.length = it.name.length
      · have compared := memcmp_inMemory length
        by_cases same : name = it.name
        · rw [compared.mpr same, if_neg (by simp)]
          simp only [same, ne_eq, not_true_eq_false, and_false, decide_false,
            Bool.false_eq_true, if_false]
        · have different : memcmp (inMemory name) (inMemory it.name) name.length = false :=
            Bool.eq_false_iff.mpr fun equal => same (compared.mp equal)
          rw [different, if_pos ⟨length, rfl⟩]
          simp only [length, same, ne_eq, not_false_eq_true, and_self, decide_true, if_true]
      · rw [if_neg fun both => length both.1]
        simp only [length, false_and, decide_false, Bool.false_eq_true, if_false]

/-- The volume that a name is for. -/
def namedVolume (name : List Byte) (fats : List Fat) : Option Nat :=
  fats.findIdx? fun it => name = it.name

/-- `find_fat_volume` finds the volume of a name exactly if no name has the length. -/
theorem findFatVolume_right_iff (name : List Byte) (fats : List Fat) :
    findFatVolume name fats = namedVolume name fats ↔
      ∀ it ∈ fats, it.name.length ≠ name.length := by
  rw [findFatVolume_eq, namedVolume]
  constructor
  · intro equal it member length
    cases found : fats.findIdx? fun it => decide (name = it.name) with
    | none =>
        rw [found, List.findIdx?_eq_none_iff] at equal
        rw [List.findIdx?_eq_none_iff] at found
        have other := of_decide_eq_false (found it member)
        exact of_decide_eq_false (equal it member) ⟨length.symm, other⟩
    | some i =>
        rw [found, List.findIdx?_eq_some_iff_getElem] at equal
        rw [List.findIdx?_eq_some_iff_getElem] at found
        obtain ⟨_, taken, -⟩ := equal
        obtain ⟨_, named, -⟩ := found
        exact (of_decide_eq_true taken).2 (of_decide_eq_true named)
  · intro unequal
    have absent : ∀ it ∈ fats, name ≠ it.name := by
      rintro it member rfl
      exact unequal it member rfl
    rw [List.findIdx?_eq_none_iff.mpr, List.findIdx?_eq_none_iff.mpr]
    · exact fun it member => decide_eq_false (absent it member)
    · exact fun it member => decide_eq_false fun both => unequal it member both.1.symm

/-! ## Entries -/

/-- The name of an entry: its long name, or without one the eleven bytes of its short name. -/
inductive EntryName where
  | long (name : List Byte)
  | short (name : List Byte)
  deriving DecidableEq, Repr

namespace EntryName

/-- The entry is the one that is looked for. -/
def Is (name : List Byte) : EntryName → Prop
  | long other => other = name
  | short other => other = putSfnName name

/-- The bytes of the two names are compared, as they are as many. -/
def Comparable (name : List Byte) : EntryName → Prop
  | long other => other.length = name.length
  | short _ => True

theorem Is.comparable {name : List Byte} {entry : EntryName} (same : entry.Is name) :
    entry.Comparable name := by
  cases entry with
  | long other =>
      obtain rfl : other = name := same
      rfl
  | short other => trivial

end EntryName

/-- What `dir_search` does at a slot before it compares: there is no entry in a free slot. -/
def nextEntry : DirM (Option EntryName) := do
  updateDir
  let s ← gets id
  if s.slot.isLast then fail errEof
  else if s.slot.isFree then return none
  else
    modify fun s => { s with loc := some ⟨s.dir.sect, s.dir.idx⟩ }
    let sfn ← gets OpenDir.slot
    if sfn.isLfn then
      parseLfnName
      let s ← gets id
      if s.slot.isFree ∨ s.slot.isLfn ∨ s.gCrc ≠ getCrc s.slot.name then fail errBroken
      else return some (.long ((List.range s.gLen).map s.gBuf))
    else return some (.short sfn.name)

/-- The walk from a place of a directory comes to an entry, in front of the end. -/
inductive Meets : OpenDir → OpenDir → EntryName → Prop where
  | here {s t : OpenDir} {entry : EntryName} :
      nextEntry.run s = (.ok (some entry), t) → Meets s t entry
  | later {s t u w : OpenDir} {found : Option EntryName} {entry : EntryName} :
      nextEntry.run s = (.ok found, t) → dirNext.run t = (.ok (), u) → Meets u w entry →
        Meets s w entry

/-- The search is right: it succeeds only at an entry with the name, and whenever there is
one in front of the end. -/
structure SearchRight (s : OpenDir) (name : List Byte) : Prop where
  only : ∀ fuel t, (searchLoop name fuel).run s = (.ok (), t) →
    (∃ entry, Meets s t entry) ∧ ∀ entry, Meets s t entry → entry.Is name
  finds : ∀ t entry, Meets s t entry → entry.Is name →
    ∃ fuel u, (searchLoop name fuel).run s = (.ok (), u)

variable {s t : OpenDir} {name : List Byte}

/-- The result of comparing at an entry. -/
def EntryName.taken (name : List Byte) : EntryName → Bool
  | long other => other.length = name.length && !decide (other = name)
  | short other => !decide (other = putSfnName name)

theorem EntryName.taken_iff {entry : EntryName} :
    entry.taken name = true ↔ entry.Comparable name ∧ ¬ entry.Is name := by
  cases entry with
  | long other => simp [taken, Comparable, Is]
  | short other => simp [taken, Comparable, Is]

/-- What is compared at a long name. -/
theorem taken_long (s : OpenDir) :
    (s.gLen = name.length && !memcmp s.gBuf (inMemory name) name.length) =
      EntryName.taken name (.long ((List.range s.gLen).map s.gBuf)) := by
  rw [EntryName.taken, List.length_map, List.length_range]
  by_cases length : s.gLen = name.length
  · rw [Bool.eq_iff_iff, ← length]
    have compared := @memcmp_range _ s.gBuf _ length
    simp [← compared]
  · simp [length]

/-- What is compared at a short name. -/
theorem taken_short (sfn : Slot) :
    (!memcmp (inMemory (putSfnName name)) sfn 11) = EntryName.taken name (.short sfn.name) := by
  rw [EntryName.taken, memcmp_comm]
  have compared := @memcmp_range _ sfn _ (putSfnName_length name).symm
  rw [Bool.eq_iff_iff]
  simp [← compared, Slot.name]

/-- A turn of the search: it ends at an entry whose name is compared and differs. -/
theorem searchLoop_turn (turns : Nat) :
    (searchLoop name (turns + 1)).run s =
      match nextEntry.run s with
      | (.ok none, t) => (dirNext >>= fun _ => searchLoop name turns).run t
      | (.ok (some entry), t) =>
          if entry.taken name then (.ok (), t)
          else (dirNext >>= fun _ => searchLoop name turns).run t
      | (.error stopped, t) => (.error stopped, t) := by
  rw [searchLoop, nextEntry, run_bind, run_bind]
  generalize updateDir.run s = moved
  obtain ⟨stopped | ⟨⟩, t⟩ := moved
  · rfl
  · dsimp only
    rw [run_gets_bind, run_gets_bind, id]
    by_cases last : t.slot.isLast = true
    · rw [if_pos last, if_pos last]
      rfl
    · rw [if_neg last, if_neg last]
      by_cases free : t.slot.isFree = true
      · rw [if_pos free, if_pos free]
        rfl
      · rw [if_neg free, if_neg free, run_modify_bind, run_modify_bind, run_gets_bind]
        generalize ({ t with loc := some ⟨t.dir.sect, t.dir.idx⟩ } : OpenDir) = u
        rw [run_bind, matchEntry, run_gets_bind]
        by_cases lfn : u.slot.isLfn = true
        · rw [if_pos lfn, if_pos lfn, run_bind, run_bind]
          generalize parseLfnName.run u = parsed
          obtain ⟨stopped | ⟨⟩, w⟩ := parsed
          · rfl
          · dsimp only
            rw [run_gets_bind, run_gets_bind, id]
            by_cases broken : w.slot.isFree = true ∨ w.slot.isLfn = true ∨
                w.gCrc ≠ getCrc w.slot.name
            · rw [if_pos broken, if_pos broken]
              rfl
            · rw [if_neg broken, if_neg broken, run_pure, run_pure, taken_long]
              dsimp only
              split <;> rfl
        · rw [if_neg lfn, if_neg lfn, run_pure, run_pure, taken_short]
          dsimp only
          split <;> rfl

/-- The search ends at an entry that differs. -/
theorem meets_of_searchLoop (fuel : Nat) : ∀ {s t : OpenDir},
    (searchLoop name fuel).run s = (.ok (), t) →
      ∃ entry, Meets s t entry ∧ entry.taken name = true := by
  induction fuel with
  | zero => exact fun done => nomatch (congrArg Prod.fst done)
  | succ fuel ih =>
      intro s t done
      have next : ∀ {found u}, nextEntry.run s = (.ok found, u) →
          (dirNext >>= fun _ => searchLoop name fuel).run u = (.ok (), t) →
          ∃ entry, Meets s t entry ∧ entry.taken name = true := by
        intro found u read rest
        obtain ⟨⟨⟩, w, moved, later⟩ := of_run_bind_ok rest
        obtain ⟨entry, meets, taken⟩ := ih later
        exact ⟨entry, .later read moved meets, taken⟩
      rw [searchLoop_turn] at done
      generalize read : nextEntry.run s = result at done next
      obtain ⟨stopped | found | entry, u⟩ := result
      · cases done
      · exact next rfl done
      · dsimp only at done
        split at done
        · next taken =>
            cases done
            exact ⟨entry, .here read, taken⟩
        · exact next rfl done

/-- If there is an entry that differs, the search ends there or before. -/
theorem searchLoop_of_meets {entry : EntryName} (meets : Meets s t entry)
    (taken : entry.taken name = true) : ∃ fuel u, (searchLoop name fuel).run s = (.ok (), u) := by
  induction meets with
  | @here s t entry read =>
      refine ⟨1, t, ?_⟩
      rw [searchLoop_turn, read]
      exact if_pos taken
  | @later s t u w found _ read moved _ ih =>
      obtain ⟨fuel, x, done⟩ := ih taken
      have rest : (dirNext >>= fun _ => searchLoop name fuel).run t = (.ok (), x) := by
        rw [run_bind_ok moved, done]
      cases found with
      | none =>
          refine ⟨fuel + 1, x, ?_⟩
          rw [searchLoop_turn, read]
          exact rest
      | some other =>
          by_cases first : other.taken name = true
          · refine ⟨fuel + 1, t, ?_⟩
            rw [searchLoop_turn, read]
            exact if_pos first
          · refine ⟨fuel + 1, x, ?_⟩
            rw [searchLoop_turn, read]
            exact (if_neg first).trans rest

/-- `dir_search` is right exactly if it comes to no comparison. -/
theorem searchRight_iff :
    SearchRight s name ↔ ∀ t entry, Meets s t entry → ¬ entry.Comparable name := by
  constructor
  · intro right t entry meets comparable
    -- a search that succeeds does so at an entry that differs
    have never : ¬ ∃ fuel u, (searchLoop name fuel).run s = (.ok (), u) := by
      rintro ⟨fuel, u, done⟩
      obtain ⟨other, met, taken⟩ := meets_of_searchLoop fuel done
      exact (EntryName.taken_iff.mp taken).2 ((right.only fuel u done).2 other met)
    by_cases same : entry.Is name
    · exact never (right.finds t entry meets same)
    · exact never (searchLoop_of_meets meets (EntryName.taken_iff.mpr ⟨comparable, same⟩))
  · intro incomparable
    refine ⟨fun fuel t done => ?_, fun t entry meets same =>
      absurd same.comparable (incomparable t entry meets)⟩
    obtain ⟨entry, meets, taken⟩ := meets_of_searchLoop fuel done
    exact absurd (EntryName.taken_iff.mp taken).1 (incomparable t entry meets)

/-- The place where `dir_search` begins. -/
def OpenDir.atStart (s : OpenDir) : OpenDir :=
  s.withDir fun dir => dirAtClust s.volume.fat.geometry dir.sclust dir

/-- **When names are found.** `find_fat_volume` finds the volume of a name exactly if no volume
has a name of this length, and `dir_search` the entry exactly if there is none whose name is
compared. -/
theorem lookup_iff (fats : List Fat) (s : OpenDir) (name : List Byte) :
    (findFatVolume name fats = namedVolume name fats ↔
        ∀ it ∈ fats, it.name.length ≠ name.length) ∧
      (SearchRight s.atStart name ↔
        ∀ t entry, Meets s.atStart t entry → ¬ entry.Comparable name) :=
  ⟨findFatVolume_right_iff name fats, searchRight_iff⟩

/-- A volume is not found by its name. -/
theorem lookup_misses_volume :
    ¬ ∀ (fats : List Fat) (s : OpenDir) (name : List Byte),
      findFatVolume name fats = namedVolume name fats ∧ SearchRight s.atStart name := by
  intro claim
  let fat : Fat := { (sampleVolume 2).fat with name := [0x61] }
  have right := (claim [fat] ⟨sampleVolume 2, ⟨2, 2, 0, 0⟩, none, [], fun _ => 0, 0, 0⟩ [0x61]).1
  have unequal := (findFatVolume_right_iff [0x61] [fat]).mp right
  exact unequal fat List.mem_cons_self rfl

end NTux.Fat32
