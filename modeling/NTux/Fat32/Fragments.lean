import NTux.Fat32.Lookup

/-! # Fragments of long names

A slot that `dir_add` writes holds up to thirteen characters of a long name, the fragment's
number and a checksum, and `parse_lfn_name` finds them there. What is read from a slot depends
on its 32 bytes only (`Slot.Same`).
-/

namespace NTux.Fat32

open NTux.Foundation

variable {frag : List Byte} {slot other : Slot} {seq : Nat} {crc : Byte}

/-! ## The bytes of a slot -/

/-- The slots have the same 32 bytes. -/
def Slot.Same (slot other : Slot) : Prop := ∀ i < 32, slot i = other i

theorem Slot.Same.trans {third : Slot} (first : slot.Same other) (second : other.Same third) :
    slot.Same third := fun i inside => (first i inside).trans (second i inside)

theorem Slot.Same.symm (same : slot.Same other) : other.Same slot := fun i inside =>
  (same i inside).symm

theorem Slot.Same.readLE (same : slot.Same other) {offset size : Nat} (inside : offset + size ≤ 32) :
    slot.readLE offset size = other.readLE offset size :=
  Memory.readLE_congr fun _ member => same _ (member.2.trans_le inside)

theorem Slot.Same.name (same : slot.Same other) : slot.name = other.name :=
  List.map_congr_left fun i member => same i (by
    have small := List.mem_range.mp member
    omega)

theorem lfnIndices_lt : ∀ i ∈ lfnIndices, i < 31 := by decide

theorem Slot.Same.lfnChars (same : slot.Same other) : slot.lfnChars = other.lfnChars := by
  have chars : lfnIndices.map slot = lfnIndices.map other :=
    List.map_congr_left fun i member => same i (by
      have small := lfnIndices_lt i member
      omega)
  rw [Slot.lfnChars, chars, Slot.lfnChars]

/-! ## What is in a fragment's slot -/

/-- The slot has a fragment of a long name. -/
structure IsFrag (slot : Slot) (frag : List Byte) (seq : Nat) (crc : Byte) : Prop where
  attr : slot.attr = attrLfn
  seq : slot.seq = seq
  crc : slot.crc = crc
  chars : slot.lfnChars = frag

theorem IsFrag.congr (same : slot.Same other) (isFrag : IsFrag other frag seq crc) :
    IsFrag slot frag seq crc where
  attr := (same.readLE (by decide)).trans isFrag.attr
  seq := (same.readLE (by decide)).trans isFrag.seq
  crc := (same 13 (by decide)).trans isFrag.crc
  chars := same.lfnChars.trans isFrag.chars

/-- The first bytes of the characters, at their indices. -/
theorem map_putLfnNameFrag (frag : List Byte) (slot : Slot) :
    lfnIndices.map (putLfnNameFrag frag slot) = (List.range 13).map fun i => (fragChar frag i).1 := by
  simp [putLfnNameFrag, lfnIndices, List.range_succ, Function.update]

/-- The characters of a fragment are in front of the first zero. -/
theorem takeWhile_fragChar (short : frag.length ≤ 13) (nonzero : ∀ c ∈ frag, c ≠ 0) :
    ((List.range 13).map fun i => (fragChar frag i).1).takeWhile (· ≠ 0) = frag := by
  have split : List.range 13 = List.range frag.length ++
      (List.range (13 - frag.length)).map (frag.length + ·) := by
    rw [← List.range_add, Nat.add_sub_cancel' short]
  have front : (List.range frag.length).map (fun i => (fragChar frag i).1) = frag := by
    refine List.ext_getElem (by simp) fun i small _ => ?_
    have inside : i < frag.length := by simpa using small
    rw [List.getElem_map, List.getElem_range, fragChar, if_pos inside, List.getD_eq_getElem _ _ inside]
  have all : ∀ c ∈ frag, decide (c ≠ 0) = true := fun c member => decide_eq_true (nonzero c member)
  rw [split, List.map_append, front, List.takeWhile_append_of_pos all]
  cases 13 - frag.length with
  | zero => simp
  | succ n =>
      -- the zero behind the last character
      have zero : (fragChar frag (frag.length + 0)).1 = 0 := by
        rw [Nat.add_zero, fragChar, if_neg (Nat.lt_irrefl _), if_pos rfl]
      rw [List.range_succ_eq_map, List.map_cons, List.map_cons, List.takeWhile_cons_of_neg (by
        rw [zero]
        decide), List.append_nil]

/-- The characters of a fragment's slot. -/
theorem map_lfnSlot (frag : List Byte) (seq : Nat) (crc : Byte) (slot : Slot) :
    lfnIndices.map (lfnSlot frag seq crc slot) = lfnIndices.map (putLfnNameFrag frag slot) := by
  refine List.map_congr_left fun i member => ?_
  have differ : i ≠ 0 ∧ i ≠ 11 ∧ i ≠ 12 ∧ i ≠ 13 ∧ i ≠ 26 ∧ i ≠ 27 := by
    have all : ∀ i ∈ lfnIndices, i ≠ 0 ∧ i ≠ 11 ∧ i ≠ 12 ∧ i ≠ 13 ∧ i ≠ 26 ∧ i ≠ 27 := by decide
    exact all i member
  unfold lfnSlot Memory.writeLE Memory.store
  dsimp only
  rw [if_neg (by omega), if_neg (by omega), Function.update_of_ne (by omega), if_neg (by omega),
    if_neg (by omega)]

/-- The slot that `dir_add` writes for a fragment. -/
theorem isFrag_lfnSlot (short : frag.length ≤ 13) (nonzero : ∀ c ∈ frag, c ≠ 0) (small : seq < 256)
    (crc : Byte) (slot : Slot) : IsFrag (lfnSlot frag seq crc slot) frag seq crc where
  attr := rfl
  seq := by
    have byte : lfnSlot frag seq crc slot 0 = BitVec.ofNat 8 (seq / 256 ^ 0) := rfl
    unfold Slot.seq Memory.readLE Memory.readLE
    rw [byte, Nat.pow_zero, Nat.div_one, BitVec.toNat_ofNat]
    omega
  crc := rfl
  chars := by
    rw [Slot.lfnChars, map_lfnSlot, map_putLfnNameFrag, takeWhile_fragChar short nonzero]

/-- The slot that `dir_add` writes for a short entry has the short name. -/
theorem sfnSlot_name {sfnName : List Byte} (length : sfnName.length = 11) (attr clust : Nat)
    (slot : Slot) : (sfnSlot sfnName attr clust slot).name = sfnName := by
  have bytes : ∀ i < 11, sfnSlot sfnName attr clust slot i = inMemory sfnName i := by
    intro i small
    unfold sfnSlot Slot.setCluster Memory.writeLE Memory.store
    dsimp only
    -- the later stores are behind the name
    simp (disch := omega) only [if_neg]
    rw [if_pos ⟨Nat.zero_le i, by omega⟩, Nat.sub_zero]
  have all : (sfnSlot sfnName attr clust slot).name = (List.range 11).map (inMemory sfnName) :=
    List.map_congr_left fun i member => bytes i (List.mem_range.mp member)
  rw [all, ← length]
  refine List.ext_getElem (by simp) fun i _ inside => ?_
  rw [List.getElem_map, List.getElem_range, inMemory, List.getD_eq_getElem _ _ inside]

/-! ## Slots in a sector -/

variable {buf : Sector} {idx idx' : Nat}

/-- The slot that was put. -/
theorem putSlot_same (buf : Sector) (idx : Nat) (edit : Slot → Slot) :
    ((buf.putSlot idx edit).slot idx).Same (edit (buf.slot idx)) := fun _ inside =>
  buf.store_at _ inside

/-- Another slot of the sector. -/
theorem putSlot_other (edit : Slot → Slot) (apart : idx + 32 ≤ idx' ∨ idx' + 32 ≤ idx) :
    ((buf.putSlot idx edit).slot idx').Same (buf.slot idx') := fun i inside =>
  buf.store_of_notMem _ fun member => by
    obtain ⟨low, high⟩ := member
    omega

end NTux.Fat32
