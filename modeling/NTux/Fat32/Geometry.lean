import NTux.Fat32.Mount
import Mathlib.Tactic.IntervalCases

/-! # The geometry of a mounted volume

What `fat_mount` derives from a boot sector is consistent when the difference in `check_fat`
does not wrap, a cluster is a power of two of sectors that follow the FAT area inside the
volume, and every cluster has its entry in the active FAT (`Consistent`). `check_fat` tests
little of it. `Fits` says what it would have to test.
-/

namespace NTux.Fat32

open NTux.Foundation

namespace Bpb

/-- The end of the FAT area, relative to the start of the volume. -/
def fatEnd (bpb : Bpb) : Nat := bpb.resSectCnt + bpb.fatCnt * bpb.sectPerFat32

/-- The first sector of the active FAT, relative to the start of the volume. -/
def activeFat (bpb : Bpb) : Nat :=
  bpb.resSectCnt + if bpb.useFirst then 0 else bpb.sectPerFat32

/-- The geometry that is derived from a boot sector at `lba` is consistent. -/
structure Consistent (bpb : Bpb) (lba : Nat) (g : Geometry) : Prop where
  noWrap : bpb.overhead ≤ bpb.sectCnt32
  power : bpb.sectPerClust = 2 ^ g.clustShift ∧ bpb.sectPerClust = g.clustMsk + 1
  sectors : ∀ c, 2 ≤ c → c < g.clustCnt → ∀ i < bpb.sectPerClust,
    lba + bpb.fatEnd ≤ u32 (g.clustToSect c + i) ∧
      u32 (g.clustToSect c + i) < lba + bpb.sectCnt32
  entries : ∀ c, 2 ≤ c → c < g.clustCnt → ∃ i < bpb.sectPerFat32,
    u32 (g.fatSect + c / 128) = lba + bpb.activeFat + i

/-- The fields of a boot sector at `lba` fit together. -/
structure Fits (bpb : Bpb) (lba : Nat) : Prop where
  fatArea : bpb.fatEnd ≤ bpb.sectCnt32
  power : ∃ k, bpb.sectPerClust = 2 ^ k
  last : lba + bpb.fatEnd + (bpb.clustCnt - 2) * bpb.sectPerClust ≤ 2 ^ 32
  fatSize : (bpb.clustCnt - 1) / 128 < bpb.sectPerFat32
  fatPlace : lba + bpb.activeFat + (bpb.clustCnt - 1) / 128 < 2 ^ 32

/-- The fields have the sizes that they have on the disk, and `check_fat` accepts them. -/
structure Accepted (bpb : Bpb) : Prop where
  sectPerClust : 0 < bpb.sectPerClust ∧ bpb.sectPerClust < 256
  sectCnt32 : bpb.sectCnt32 < 2 ^ 32
  clusters : 65525 ≤ bpb.clustCnt

variable {bpb : Bpb} {lba : Nat}

theorem accepted_of_checkFat {buf : Sector} (checked : checkFat buf = true) :
    buf.bpb.Accepted := by
  unfold checkFat at checked
  dsimp only at checked
  split at checked
  · cases checked
  · split at checked
    · cases checked
    · split at checked
      · cases checked
      · next nonzero =>
          split at checked
          · cases checked
          · refine ⟨⟨Nat.pos_of_ne_zero nonzero, ?_⟩, ?_, of_decide_eq_true checked⟩
            · exact Memory.readLE_lt buf 13 1
            · exact Memory.readLE_lt buf 32 4

/-! ## Powers of two -/

theorem ctz_iff {n : Nat} (positive : 0 < n) (small : n < 256) :
    n = 2 ^ ctz n ↔ ∃ k, n = 2 ^ k := by
  constructor
  · exact fun equal => ⟨ctz n, equal⟩
  · rintro ⟨k, rfl⟩
    have less : k < 8 := (Nat.pow_lt_pow_iff_right (by decide)).mp (small.trans_le (by decide))
    have all : ∀ k < 8, 2 ^ k = 2 ^ ctz (2 ^ k) := by decide
    exact all k less

/-! ## Sums that do not wrap -/

/-- The clusters end inside the volume. -/
theorem clusters_le (noWrap : bpb.overhead ≤ bpb.sectCnt32) (accepted : bpb.Accepted) :
    bpb.clustCnt * bpb.sectPerClust ≤ bpb.sectCnt32 - bpb.overhead := by
  rw [clustCnt, sub32_of_le accepted.sectCnt32 noWrap]
  exact Nat.div_mul_le_self _ _

theorem overhead_eq_fatEnd (fatArea : bpb.fatEnd ≤ bpb.sectCnt32) (accepted : bpb.Accepted) :
    bpb.overhead = bpb.fatEnd := by
  have bound := accepted.sectCnt32
  unfold fatEnd at fatArea
  rw [overhead, fatEnd, u32_of_lt (n := bpb.fatCnt * _) (by omega), u32_of_lt (by omega)]

/-- The first sector of a cluster, where the sums do not wrap. -/
theorem clustToSect_eq (noWrap : bpb.overhead ≤ bpb.sectCnt32) (accepted : bpb.Accepted)
    (power : bpb.sectPerClust = 2 ^ ctz bpb.sectPerClust) {c : Nat} (low : 2 ≤ c)
    (high : c < bpb.clustCnt) :
    (bpb.geometry lba).clustToSect c =
      u32 ((c - 2) * bpb.sectPerClust + lba + bpb.fatEnd) := by
  have inside := clusters_le noWrap accepted
  have bound := accepted.sectCnt32
  have some := accepted.sectPerClust.1
  have few : c ≤ bpb.clustCnt * bpb.sectPerClust :=
    high.le.trans (Nat.le_mul_of_pos_right _ some)
  have offset : (c - 2) * bpb.sectPerClust ≤ bpb.clustCnt * bpb.sectPerClust :=
    Nat.mul_le_mul_right _ (by omega)
  have area : (bpb.geometry lba).dataSect = u32 (lba + bpb.fatEnd) := by
    change u32 (lba + bpb.resSectCnt + u32 (bpb.fatCnt * bpb.sectPerFat32)) = _
    unfold fatEnd u32
    omega
  rw [Geometry.clustToSect, area, sub32_of_le (by omega) low]
  change u32 (u32 ((c - 2) * 2 ^ ctz bpb.sectPerClust) + _) = _
  rw [← power, u32_of_lt (n := (c - 2) * _) (by omega)]
  unfold u32
  omega

/-- The sectors of all clusters lie behind the FAT area exactly when the last one does. -/
theorem sectors_iff (noWrap : bpb.overhead ≤ bpb.sectCnt32) (accepted : bpb.Accepted)
    (power : bpb.sectPerClust = 2 ^ ctz bpb.sectPerClust) :
    (∀ c, 2 ≤ c → c < bpb.clustCnt → ∀ i < bpb.sectPerClust,
      lba + bpb.fatEnd ≤ u32 ((bpb.geometry lba).clustToSect c + i) ∧
        u32 ((bpb.geometry lba).clustToSect c + i) < lba + bpb.sectCnt32) ↔
    bpb.fatEnd ≤ bpb.sectCnt32 ∧
      lba + bpb.fatEnd + (bpb.clustCnt - 2) * bpb.sectPerClust ≤ 2 ^ 32 := by
  have some := accepted.sectPerClust.1
  have many := accepted.clusters
  have bound := accepted.sectCnt32
  have inside := clusters_le noWrap accepted
  have place : ∀ c, 2 ≤ c → c < bpb.clustCnt → ∀ i,
      u32 ((bpb.geometry lba).clustToSect c + i) =
        u32 (lba + bpb.fatEnd + (c - 2) * bpb.sectPerClust + i) := by
    intro c low high i
    rw [clustToSect_eq noWrap accepted power low high]
    unfold u32
    omega
  constructor
  · intro all
    have first := all 2 le_rfl (by omega) 0 some
    rw [place 2 le_rfl (by omega)] at first
    have start : lba + bpb.fatEnd < 2 ^ 32 := first.1.trans_lt (u32_lt _)
    have area : bpb.fatEnd ≤ bpb.sectCnt32 := by
      have value : u32 (lba + bpb.fatEnd + (2 - 2) * bpb.sectPerClust + 0) = lba + bpb.fatEnd := by
        rw [u32_of_lt (by omega)]
        omega
      omega
    refine ⟨area, ?_⟩
    rw [overhead_eq_fatEnd area accepted] at inside
    -- the last sector of the last cluster would wrap to a smaller number
    by_contra wraps
    have final := all (bpb.clustCnt - 1) (by omega) (by omega) (bpb.sectPerClust - 1) (by omega)
    rw [place _ (by omega) (by omega)] at final
    have step : (bpb.clustCnt - 2) * bpb.sectPerClust =
        (bpb.clustCnt - 1 - 2) * bpb.sectPerClust + bpb.sectPerClust := by
      rw [← Nat.succ_mul]
      congr 1
      omega
    have less : (bpb.clustCnt - 2) * bpb.sectPerClust ≤ bpb.clustCnt * bpb.sectPerClust :=
      Nat.mul_le_mul_right _ (by omega)
    unfold u32 at final
    omega
  · rintro ⟨area, last⟩ c low high i small
    rw [overhead_eq_fatEnd area accepted] at inside
    rw [place c low high]
    have step : (c - 2) * bpb.sectPerClust + bpb.sectPerClust ≤
        (bpb.clustCnt - 2) * bpb.sectPerClust := by
      rw [← Nat.succ_mul]
      exact Nat.mul_le_mul_right _ (by omega)
    have less : (bpb.clustCnt - 2) * bpb.sectPerClust ≤ bpb.clustCnt * bpb.sectPerClust :=
      Nat.mul_le_mul_right _ (by omega)
    rw [u32_of_lt (by omega)]
    omega

/-- All entries are in the active FAT exactly when the last one is. -/
theorem entries_iff (accepted : bpb.Accepted) :
    (∀ c, 2 ≤ c → c < bpb.clustCnt → ∃ i < bpb.sectPerFat32,
      u32 ((bpb.geometry lba).fatSect + c / 128) = lba + bpb.activeFat + i) ↔
    (bpb.clustCnt - 1) / 128 < bpb.sectPerFat32 ∧
      lba + bpb.activeFat + (bpb.clustCnt - 1) / 128 < 2 ^ 32 := by
  have many := accepted.clusters
  have start : (bpb.geometry lba).fatSect = u32 (lba + bpb.activeFat) := by
    change (if bpb.useFirst then u32 _ else u32 _) = _
    unfold activeFat
    split
    · rfl
    · rw [Nat.add_assoc]
  have place : ∀ c, u32 ((bpb.geometry lba).fatSect + c / 128) =
      u32 (lba + bpb.activeFat + c / 128) := by
    intro c
    rw [start]
    unfold u32
    omega
  constructor
  · intro all
    obtain ⟨first, -, atFirst⟩ := all 2 le_rfl (by omega)
    obtain ⟨final, small, atFinal⟩ := all (bpb.clustCnt - 1) (by omega) (by omega)
    rw [place] at atFirst atFinal
    have low : lba + bpb.activeFat < 2 ^ 32 := by
      have := u32_lt (lba + bpb.activeFat + 2 / 128)
      omega
    have few : bpb.clustCnt < 2 ^ 32 :=
      (Nat.div_le_self _ _).trans_lt (Nat.mod_lt _ (by decide))
    unfold u32 at atFinal
    omega
  · rintro ⟨size, fits⟩ c low high
    have less : c / 128 ≤ (bpb.clustCnt - 1) / 128 := Nat.div_le_div_right (by omega)
    exact ⟨c / 128, by omega, by rw [place, u32_of_lt (by omega)]⟩

theorem consistent_iff (accepted : bpb.Accepted) :
    bpb.Consistent lba (bpb.geometry lba) ↔ bpb.Fits lba := by
  have power := ctz_iff accepted.sectPerClust.1 accepted.sectPerClust.2
  have mask : bpb.sectPerClust = bpb.sectPerClust - 1 + 1 := by
    have := accepted.sectPerClust.1
    omega
  constructor
  · rintro ⟨noWrap, ⟨shift, -⟩, sectors, entries⟩
    obtain ⟨area, last⟩ := (sectors_iff noWrap accepted shift).mp sectors
    obtain ⟨size, place⟩ := (entries_iff accepted).mp entries
    exact ⟨area, power.mp shift, last, size, place⟩
  · rintro ⟨area, isPower, last, size, place⟩
    have noWrap : bpb.overhead ≤ bpb.sectCnt32 :=
      (overhead_eq_fatEnd area accepted).trans_le area
    have shift := power.mpr isPower
    exact ⟨noWrap, ⟨shift, mask⟩, (sectors_iff noWrap accepted shift).mpr ⟨area, last⟩,
      (entries_iff accepted).mpr ⟨size, place⟩⟩

end Bpb

/-- What `probe` leaves in `g_buf` when it accepts is a boot sector that `check_fat` accepts. -/
theorem probe_checked {disk : Disk} {partition : Fin 4} {lba : Nat} {buf : Sector} {after : Disk}
    (probed : probe disk partition = (.ok lba, buf, after)) : checkFat buf = true := by
  unfold probe at probed
  split at probed
  · cases probed
  · split at probed
    · next checked =>
        obtain ⟨-, rfl, -⟩ := Prod.mk.inj probed |>.imp_right Prod.mk.inj
        exact checked
    · split at probed
      · cases probed
      · split at probed
        · cases probed
        · split at probed
          · next checked =>
              obtain ⟨-, rfl, -⟩ := Prod.mk.inj probed |>.imp_right Prod.mk.inj
              exact checked
          · cases probed

/-- **Geometry.** For every boot sector that `probe` accepts, what `fat_mount` derives from it
is consistent exactly when its fields fit together. -/
theorem mount_consistent_iff {disk after : Disk} {partition : Fin 4} {lba : Nat} {buf : Sector}
    (probed : probe disk partition = (.ok lba, buf, after)) :
    buf.bpb.Consistent lba (buf.bpb.geometry lba) ↔ buf.bpb.Fits lba :=
  Bpb.consistent_iff (Bpb.accepted_of_checkFat (probe_checked probed))

/-! ## Boot sectors -/

/-- A boot sector of a volume with one sector to a cluster or more, 32 reserved sectors and two
copies of a FAT of 512 sectors. -/
def sampleBoot (sectPerClust : Nat) : Sector :=
  let zero : Sector := fun _ => 0
  let header := ((zero.writeLE 0 1 0xEB).writeLE 11 2 512).writeLE 13 1 sectPerClust
  (((header.writeLE 14 2 32).writeLE 16 1 2).writeLE 32 4
    (32 + 1024 + 65536 * sectPerClust)).writeLE 36 4 512

/-- A disk with a boot sector in front. -/
def bootDisk (boot : Sector) : Disk := ⟨fun sect => if sect = 0 then boot else fun _ => 0,
  fun _ => none, 0⟩

theorem probe_sampleBoot (sectPerClust : Nat) (accepted : checkFat (sampleBoot sectPerClust) = true) :
    (probe (bootDisk (sampleBoot sectPerClust)) 0) =
      (.ok 0, sampleBoot sectPerClust, { bootDisk (sampleBoot sectPerClust) with count := 1 }) := by
  have first : (bootDisk (sampleBoot sectPerClust)).read 0 =
      (true, sampleBoot sectPerClust, { bootDisk (sampleBoot sectPerClust) with count := 1 }) := rfl
  unfold probe
  rw [first]
  simp only [accepted, if_true]

theorem mount_consistent_oneSector :
    (sampleBoot 1).bpb.Consistent 0 ((sampleBoot 1).bpb.geometry 0) := by
  have fits : (sampleBoot 1).bpb.Fits 0 :=
    ⟨by decide, ⟨0, by decide⟩, by decide, by decide, by decide⟩
  exact (mount_consistent_iff (probe_sampleBoot 1 (by decide))).mpr fits

/-- A cluster of three sectors is accepted, though it is no power of two. -/
theorem mount_inconsistent_threeSectors :
    ∃ after, probe (bootDisk (sampleBoot 3)) 0 = (.ok 0, sampleBoot 3, after) ∧
      ¬ (sampleBoot 3).bpb.Consistent 0 ((sampleBoot 3).bpb.geometry 0) := by
  refine ⟨_, probe_sampleBoot 3 (by decide), fun consistent => ?_⟩
  exact absurd consistent.power.1 (by decide)

end NTux.Fat32
