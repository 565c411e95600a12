import NTux.Fat32.Allocation

/-! # Clusters and their sectors

On a volume with a layout, the sectors of a cluster are in the data area, those of two
clusters are apart, and an offset in a file denotes one sector of one cluster. The links
between clusters lead along the chains (`Volume.Leads`).
-/

namespace NTux.Fat32

open NTux.Foundation

namespace Geometry

variable {g : Geometry} {c d : Nat}

/-- The sectors of the driver's own structures: the copies of the FAT and `FsInfo`. -/
def fatSide (g : Geometry) : Set Nat := g.fatArea ∪ g.mirrorArea ∪ {g.infoSect}

theorem fatSide_subset : g.fatSide ⊆ g.area := fun _ member => .inl member

/-- `clust_to_sect` of a cluster does not wrap. -/
theorem Layout.clustToSect (layout : g.Layout) (isClust : g.IsClust c) :
    g.clustToSect c = g.dataSect + (c - 2) * 2 ^ g.clustShift := by
  have low := isClust.1
  have inside : (c - 2) * 2 ^ g.clustShift + 2 ^ g.clustShift ≤
      (g.clustCnt - 2) * 2 ^ g.clustShift := by
    rw [← Nat.succ_mul]
    exact Nat.mul_le_mul_right _ (by have := isClust.2; omega)
  have fits := layout.dataFits
  have positive : 0 < 2 ^ g.clustShift := Nat.two_pow_pos _
  have small : sub32 c 2 = c - 2 :=
    sub32_of_le (isClust.2.trans layout.clusters.2) low
  have shifted : u32 ((c - 2) * 2 ^ g.clustShift) = (c - 2) * 2 ^ g.clustShift :=
    u32_of_lt (by omega)
  unfold Geometry.clustToSect
  rw [small, shifted, u32_of_lt (by omega), Nat.add_comm]

/-- The sectors of a cluster are in the data area. -/
theorem Layout.clustArea_subset (layout : g.Layout) (isClust : g.IsClust c) :
    g.clustArea c ⊆ g.dataArea := by
  rintro s ⟨low, high⟩
  rw [layout.clustToSect isClust] at low high
  have inside : (c - 2) * 2 ^ g.clustShift + 2 ^ g.clustShift ≤
      (g.clustCnt - 2) * 2 ^ g.clustShift := by
    rw [← Nat.succ_mul]
    exact Nat.mul_le_mul_right _ (by have := isClust.1; have := isClust.2; omega)
  exact ⟨by omega, by omega⟩

/-- The sectors of two clusters are apart. -/
theorem Layout.clustArea_disjoint (layout : g.Layout) (isClust : g.IsClust c)
    (isClust' : g.IsClust d) (differ : c ≠ d) : Disjoint (g.clustArea c) (g.clustArea d) := by
  rw [Set.disjoint_left]
  rintro s ⟨low, high⟩ ⟨low', high'⟩
  rw [layout.clustToSect isClust] at low high
  rw [layout.clustToSect isClust'] at low' high'
  have below := isClust.1
  have below' := isClust'.1
  rcases Nat.lt_or_gt_of_ne differ with less | less
  · have : (c - 2) * 2 ^ g.clustShift + 2 ^ g.clustShift ≤ (d - 2) * 2 ^ g.clustShift := by
      rw [← Nat.succ_mul]
      exact Nat.mul_le_mul_right _ (by omega)
    omega
  · have : (d - 2) * 2 ^ g.clustShift + 2 ^ g.clustShift ≤ (c - 2) * 2 ^ g.clustShift := by
      rw [← Nat.succ_mul]
      exact Nat.mul_le_mul_right _ (by omega)
    omega

/-- The data area is apart from the driver's own structures. -/
theorem Layout.data_notMem (layout : g.Layout) {s : Nat} (member : s ∈ g.dataArea) :
    s ∉ g.fatSide := fun side => Set.disjoint_left.mp layout.data member side

/-- The sector of a cluster that holds an offset. -/
def sectorOf (g : Geometry) (clust off : Nat) : Nat :=
  u32 (g.clustToSect clust + ((off / 512) &&& g.clustMsk))

theorem Layout.land_mask (layout : g.Layout) (n : Nat) : n &&& g.clustMsk = n % 2 ^ g.clustShift := by
  have mask : g.clustMsk = 2 ^ g.clustShift - 1 := by
    have := layout.mask
    omega
  rw [mask, Nat.and_two_pow_sub_one_eq_mod]

theorem Layout.sectorOf (layout : g.Layout) (isClust : g.IsClust c) (off : Nat) :
    g.sectorOf c off = g.clustToSect c + off / 512 % 2 ^ g.clustShift := by
  have less : off / 512 % 2 ^ g.clustShift < 2 ^ g.clustShift := Nat.mod_lt _ (Nat.two_pow_pos _)
  have inside : g.clustToSect c + off / 512 % 2 ^ g.clustShift ∈ g.clustArea c :=
    ⟨Nat.le_add_right _ _, by omega⟩
  have data := layout.clustArea_subset isClust inside
  unfold Geometry.sectorOf
  rw [layout.land_mask, u32_of_lt]
  exact data.2.trans_le layout.dataFits

/-- The sector of an offset is one of the cluster. -/
theorem Layout.sectorOf_mem (layout : g.Layout) (isClust : g.IsClust c) (off : Nat) :
    g.sectorOf c off ∈ g.clustArea c := by
  have less : off / 512 % 2 ^ g.clustShift < 2 ^ g.clustShift := Nat.mod_lt _ (Nat.two_pow_pos _)
  rw [layout.sectorOf isClust]
  exact ⟨Nat.le_add_right _ _, by omega⟩

end Geometry

/-! ## Chains by their links -/

/-- A number of links lead from one cluster to another. -/
def Volume.Leads (v : Volume) : Nat → Nat → Nat → Prop
  | 0, c, d => c = d
  | k + 1, c, d =>
    clustFlags v.fat.geometry.clustCnt (v.link c) = some .used ∧ v.Leads k (v.link c) d

namespace Volume.Leads

variable {g : Geometry} {v w : Volume} {k n c d e : Nat}

/-- Links lead to clusters. -/
theorem isClust (geometry : v.fat.geometry = g) (leads : v.Leads k c d) (first : g.IsClust c) :
    g.IsClust d := by
  induction k generalizing c with
  | zero =>
      obtain rfl : c = d := leads
      exact first
  | succ k ih =>
      obtain ⟨used, rest⟩ := leads
      rw [geometry] at used
      exact ih rest (clustFlags_used used)

/-- Links that another volume has as well. -/
theorem carry (geometry : v.fat.geometry = g) (geometry' : w.fat.geometry = g)
    (same : ∀ c, g.IsClust c → clustFlags g.clustCnt (v.link c) = some .used → w.link c = v.link c)
    (leads : v.Leads k c d) (first : g.IsClust c) : w.Leads k c d := by
  induction k generalizing c with
  | zero => exact leads
  | succ k ih =>
      obtain ⟨used, rest⟩ := leads
      rw [geometry] at used
      have equal := same c first used
      refine ⟨?_, ?_⟩
      · rw [geometry', equal, used]
      · rw [equal]
        exact ih rest (clustFlags_used used)

/-- One more link. -/
theorem next (leads : v.Leads k c d)
    (used : clustFlags v.fat.geometry.clustCnt (v.link d) = some .used) :
    v.Leads (k + 1) c (v.link d) := by
  induction k generalizing c with
  | zero =>
      obtain rfl : c = d := leads
      exact ⟨used, rfl⟩
  | succ k ih => exact ⟨leads.1, ih leads.2⟩

theorem trans (first : v.Leads k c d) (second : v.Leads n d e) : v.Leads (k + n) c e := by
  induction k generalizing c with
  | zero =>
      obtain rfl : c = d := first
      rw [Nat.zero_add]
      exact second
  | succ k ih =>
      rw [Nat.add_right_comm]
      exact ⟨first.1, ih first.2⟩

end Volume.Leads

end NTux.Fat32
