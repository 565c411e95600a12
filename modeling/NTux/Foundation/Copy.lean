import NTux.Foundation.Memory

/-! # Copying upwards

A string instruction copies one unit after the other, each of them read as a whole before it
is written, from the lower addresses to the higher ones. Such a copy moves a block as it was
before, where the target is apart from the block or reaches into it from below, whatever the
width of its units is (`copyUp_eq_store`).
-/

namespace NTux.Foundation.Memory

/-- Copy so many units of `width` bytes, the lowest one first. -/
def copyUp (width : Nat) : Nat → Nat → Nat → Memory → Memory
  | 0, _, _, memory => memory
  | count + 1, dest, source, memory =>
      copyUp width count (dest + width) (source + width)
        (memory.store dest width fun offset => memory (source + offset))

/-- **A copy upwards.** What has been written is below what is still to be read, or above all of
it. -/
theorem copyUp_eq_store (width count : Nat) {dest source : Nat} (memory : Memory)
    (clear : dest ≤ source ∨ source + width * count ≤ dest) :
    copyUp width count dest source memory =
      memory.store dest (width * count) fun offset => memory (source + offset) := by
  induction count generalizing dest source memory with
  | zero =>
      funext address
      rw [copyUp, memory.store_of_notMem]
      rintro ⟨low, high⟩
      omega
  | succ count ih =>
      have whole : width * (count + 1) = width + width * count := by ring
      rw [copyUp, ih _ (by omega)]
      funext address
      by_cases first : address ∈ block dest width
      · -- the first unit is written once
        have later : address ∉ block (dest + width) (width * count) := by
          rintro ⟨low, high⟩
          have := first.2
          omega
        rw [store_of_notMem _ _ later, store_of_mem _ _ first,
          store_of_mem _ _ ⟨first.1, by have := first.2; omega⟩]
      by_cases rest : address ∈ block (dest + width) (width * count)
      · have inside : address ∈ block dest (width * (count + 1)) :=
          ⟨by have := rest.1; omega, by have := rest.2; omega⟩
        have place : source + width + (address - (dest + width)) = source + (address - dest) := by
          have := rest.1
          omega
        rw [store_of_mem _ _ rest, store_of_mem _ _ inside, place, store_of_notMem]
        rintro ⟨low, high⟩
        obtain ⟨least, most⟩ := rest
        omega
      · have outside : address ∉ block dest (width * (count + 1)) := by
          rintro ⟨low, high⟩
          by_cases inFirst : address < dest + width
          · exact first ⟨low, inFirst⟩
          · exact rest ⟨by omega, by omega⟩
        rw [store_of_notMem _ _ rest, store_of_notMem _ _ first, store_of_notMem _ _ outside]

end NTux.Foundation.Memory
