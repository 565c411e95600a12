import NTux.Fat32.Links
import NTux.Fat32.Directory
import NTux.Fat32.Geometry
import Mathlib.Data.Nat.Size

/-! # Walking over directories

`dir_next` takes a cluster to be over when `clust_msk` masks the number of the next sector to
zero. The walk over a directory comes to the slots of its clusters, one after the other,
exactly if that is so behind each cluster and nowhere inside (`walk_slots_iff`). Where a cluster
is a power of two of sectors, the data area has to begin at a multiple of it
(`delimits_iff_aligned`).
-/

namespace NTux.Fat32

open NTux.Foundation Command

/-! ## Slots of a directory -/

/-- The slots of a sector. -/
def sectorSlots (sect : Nat) : List Loc := (List.range 16).map fun j => ⟨sect, 32 * j⟩

namespace Geometry

/-- The sectors of a cluster, by the number of sectors that clusters have. -/
def sectOf (g : Geometry) (c i : Nat) : Nat := g.dataSect + (c - 2) * (g.clustMsk + 1) + i

def clustSlots (g : Geometry) (c : Nat) : List Loc :=
  (List.range (g.clustMsk + 1)).flatMap fun i => sectorSlots (g.sectOf c i)

/-- The slots of the clusters of a chain. -/
def slots (g : Geometry) (chain : List Nat) : List Loc := chain.flatMap g.clustSlots

/-- The mask is zero behind so many sectors and one, and not before. -/
structure Run (g : Geometry) (start n : Nat) : Prop where
  inside : ∀ i, 0 < i → i ≤ n → u32 (start + i) &&& g.clustMsk ≠ 0
  behind : u32 (start + (n + 1)) &&& g.clustMsk = 0

/-- The sectors of a cluster are where the driver looks for them, and end where it takes them
to end. -/
structure Delimits (g : Geometry) (c : Nat) : Prop where
  start : g.clustToSect c = g.sectOf c 0
  run : g.Run (g.sectOf c 0) g.clustMsk

/-- A boot sector has the geometry. -/
def Mountable (g : Geometry) : Prop := ∃ buf lba, checkFat buf = true ∧ g = buf.bpb.geometry lba

theorem Mountable.small {g : Geometry} (mountable : g.Mountable) : g.clustMsk < 256 := by
  obtain ⟨buf, lba, checked, rfl⟩ := mountable
  have bounds := (Bpb.accepted_of_checkFat checked).sectPerClust
  change buf.bpb.sectPerClust - 1 < 256
  omega

end Geometry

/-! ## Masks -/

/-- A mask is zero at its complement. -/
theorem complement_and {size msk : Nat} (small : msk < 2 ^ size) :
    (2 ^ size - (msk + 1)) &&& msk = 0 := by
  apply Nat.eq_of_testBit_eq
  intro i
  rw [Nat.testBit_and, Nat.testBit_two_pow_sub_succ small, Nat.zero_testBit]
  cases msk.testBit i <;> simp

/-- A mask sees the lower bits. -/
theorem and_of_mod {size msk m n : Nat} (small : msk < 2 ^ size)
    (same : m % 2 ^ size = n % 2 ^ size) : m &&& msk = n &&& msk := by
  have lower (k : Nat) : k &&& msk = k % 2 ^ size &&& msk := by
    apply Nat.eq_of_testBit_eq
    intro i
    rw [Nat.testBit_and, Nat.testBit_and, Nat.testBit_mod_two_pow]
    by_cases inside : i < size
    · simp [inside]
    · rw [Nat.testBit_lt_two_pow (small.trans_le (Nat.pow_le_pow_right (by decide) (not_lt.mp inside)))]
      simp
  rw [lower m, lower n, same]

/-- A mask is zero at one of as many numbers as it says and one. -/
theorem exists_masked {msk : Nat} (small : msk < 256) (start : Nat) :
    ∃ n ≤ msk, u32 (start + (n + 1)) &&& msk = 0 := by
  -- the bits of the mask
  obtain ⟨size, few, above, below⟩ : ∃ size ≤ 8, msk < 2 ^ size ∧ 2 ^ size ≤ 2 * msk + 1 := by
    refine ⟨msk.size, Nat.size_le.mpr small, Nat.lt_size_self msk, ?_⟩
    rcases Nat.eq_zero_or_pos msk with rfl | positive
    · decide
    · have some := Nat.size_pos.mpr positive
      have low := Nat.lt_size.mp (Nat.sub_one_lt some.ne')
      have step : 2 ^ msk.size = 2 * 2 ^ (msk.size - 1) := by
        rw [← Nat.pow_succ', Nat.succ_eq_add_one, Nat.sub_add_cancel some]
      omega
  have wraps : 2 ^ 32 = 2 ^ size * 2 ^ (32 - size) := by
    rw [← Nat.pow_add, Nat.add_sub_cancel' (by omega)]
  have zero (target : Nat) {n : Nat} (at' : (start + (n + 1)) % 2 ^ size = target % 2 ^ size)
      (masked : target &&& msk = 0) : u32 (start + (n + 1)) &&& msk = 0 := by
    rw [← masked]
    refine and_of_mod above ?_
    rw [u32, wraps, Nat.mod_mul_right_mod, at']
  have bound := Nat.mod_lt start (Nat.two_pow_pos size)
  have split := Nat.div_add_mod start (2 ^ size)
  by_cases high : 2 ^ size - (msk + 1) ≤ start % 2 ^ size
  · -- the next multiple of the size
    refine ⟨2 ^ size - start % 2 ^ size - 1, by omega, zero 0 ?_ (Nat.zero_and _)⟩
    have next : start + (2 ^ size - start % 2 ^ size - 1 + 1) =
        2 ^ size * (start / 2 ^ size + 1) := by
      rw [Nat.mul_succ]
      omega
    rw [next, Nat.mul_mod_right, Nat.zero_mod]
  · -- the complement of the mask
    refine ⟨2 ^ size - (msk + 1) - start % 2 ^ size - 1, by omega,
      zero (2 ^ size - (msk + 1)) ?_ (complement_and above)⟩
    have next : start + (2 ^ size - (msk + 1) - start % 2 ^ size - 1 + 1) =
        2 ^ size - (msk + 1) + 2 ^ size * (start / 2 ^ size) := by
      omega
    rw [next, Nat.add_mul_mod_self_left]

/-- Clusters end, and not behind their number of sectors. -/
theorem Geometry.exists_run {g : Geometry} (small : g.clustMsk < 256) (start : Nat) :
    ∃ n ≤ g.clustMsk, g.Run start n := by
  have ends := exists_masked small start
  have least : ∃ n, u32 (start + (n + 1)) &&& g.clustMsk = 0 := by
    obtain ⟨n, -, masked⟩ := ends
    exact ⟨n, masked⟩
  obtain ⟨n, few, masked⟩ := ends
  refine ⟨Nat.find least, (Nat.find_min' least masked).trans few, ⟨fun i positive inside => ?_,
    Nat.find_spec least⟩⟩
  have before := Nat.find_min least (m := i - 1) (by omega)
  rwa [Nat.sub_add_cancel positive] at before

theorem Geometry.Run.unique {g : Geometry} {start m n : Nat} (run : g.Run start m)
    (run' : g.Run start n) : m = n := by
  rcases lt_trichotomy m n with less | equal | greater
  · exact absurd run.behind (run'.inside (m + 1) (Nat.succ_pos m) less)
  · exact equal
  · exact absurd run'.behind (run.inside (n + 1) (Nat.succ_pos n) greater)

/-! ## Steps -/

/-- The place of a directory. -/
def OpenDir.here (s : OpenDir) : Loc := ⟨s.dir.sect, s.dir.idx⟩

/-- The places that `dir_next` comes to, one after the other, before it returns
`FAT_ERR_EOF`. -/
inductive Walk : OpenDir → List Loc → Prop where
  | last {s t : OpenDir} : dirNext.run s = (.error (.code errEof), t) → Walk s [s.here]
  | next {s t : OpenDir} {places : List Loc} : dirNext.run s = (.ok (), t) → Walk t places →
      Walk s (s.here :: places)

/-- The places that are left behind on the way to another state. -/
inductive Steps : OpenDir → List Loc → OpenDir → Prop where
  | none {s : OpenDir} : Steps s [] s
  | more {s t u : OpenDir} {places : List Loc} : dirNext.run s = (.ok (), t) → Steps t places u →
      Steps s (s.here :: places) u

theorem Steps.append {s t u : OpenDir} {before after : List Loc} (first : Steps s before t)
    (second : Steps t after u) : Steps s (before ++ after) u := by
  induction first with
  | none => exact second
  | more next _ ih => exact .more next (ih second)

/-- A walk goes on behind the steps. -/
theorem Steps.walk_iff {s t : OpenDir} {before : List Loc} (steps : Steps s before t)
    (places : List Loc) : Walk s places ↔ ∃ rest, places = before ++ rest ∧ Walk t rest := by
  induction steps generalizing places with
  | none => simp
  | @more s t u before next _ ih =>
      constructor
      · intro walk
        cases walk with
        | last ends => exact nomatch ends.symm.trans next
        | next next' walk =>
            obtain ⟨-, rfl⟩ := Prod.mk.inj (next'.symm.trans next)
            obtain ⟨rest, rfl, later⟩ := (ih _).mp walk
            exact ⟨rest, rfl, later⟩
      · rintro ⟨rest, rfl, later⟩
        exact .next next ((ih _).mpr ⟨rest, rfl, later⟩)

/-- The directory is at a place of a cluster, on a volume. -/
structure OpenDir.At (v : Volume) (c sect idx : Nat) (s : OpenDir) : Prop where
  volume : s.volume = v
  clust : s.dir.clust = c
  sect : s.dir.sect = sect
  idx : s.dir.idx = idx

theorem OpenDir.At.here {v : Volume} {c sect idx : Nat} {s : OpenDir}
    (at' : OpenDir.At v c sect idx s) : s.here = ⟨sect, idx⟩ := by
  unfold OpenDir.here
  rw [at'.sect, at'.idx]

variable {v w : Volume} {c d sect start n : Nat} {s t : OpenDir} {chain rest : List Nat}

/-- Inside a sector. -/
theorem dirNext_slot {idx : Nat} (at' : s.At v c sect idx) (inside : idx + 32 < 512) :
    ∃ t, dirNext.run s = (.ok (), t) ∧ t.At v c sect (idx + 32) := by
  refine ⟨s.withDir fun dir => { dir with idx := dir.idx + 32 }, ?_, at'.volume, at'.clust, at'.sect,
    congrArg (· + 32) at'.idx⟩
  unfold dirNext
  rw [modifyDir, run_modify_bind, run_gets_bind]
  change (if s.dir.idx + 32 < 512 then _ else _ : DirM Unit).run _ = _
  rw [at'.idx, if_pos inside]
  rfl

/-- Behind a sector, inside a cluster as the mask says. -/
theorem dirNext_sector (at' : s.At v c sect 480)
    (inside : u32 (sect + 1) &&& v.fat.geometry.clustMsk ≠ 0) :
    ∃ t, dirNext.run s = (.ok (), t) ∧ t.At v c (u32 (sect + 1)) 0 := by
  obtain ⟨rfl, rfl, rfl, at'⟩ := at'
  refine ⟨s.withDir fun dir => { dir with idx := 0, sect := u32 (dir.sect + 1) }, ?_, rfl, rfl, rfl,
    rfl⟩
  unfold dirNext
  rw [modifyDir, run_modify_bind, run_gets_bind]
  change (if s.dir.idx + 32 < 512 then _ else _ : DirM Unit).run _ = _
  rw [at', if_neg (by decide), modifyDir, run_modify_bind, run_gets_bind, run_gets_bind]
  exact congrArg (fun command : DirM Unit => command.run _) (if_pos inside)

/-- Behind a cluster as the mask says. -/
theorem dirNext_cluster (at' : s.At v c sect 480)
    (behind : u32 (sect + 1) &&& v.fat.geometry.clustMsk = 0) :
    ∃ t, dirNext.run s = dirNextClust.run t ∧ t.At v c (u32 (sect + 1)) 0 := by
  obtain ⟨rfl, rfl, rfl, at'⟩ := at'
  refine ⟨s.withDir fun dir => { dir with idx := 0, sect := u32 (dir.sect + 1) }, ?_, rfl, rfl, rfl,
    rfl⟩
  unfold dirNext
  rw [modifyDir, run_modify_bind, run_gets_bind]
  change (if s.dir.idx + 32 < 512 then _ else _ : DirM Unit).run _ = _
  rw [at', if_neg (by decide), modifyDir, run_modify_bind, run_gets_bind, run_gets_bind]
  exact congrArg (fun command : DirM Unit => command.run _) (if_neg (not_not.mpr behind))

/-- The first slots of a sector. -/
theorem steps_slots (at' : s.At v c sect 0) (j : Nat) (inside : j < 16) :
    ∃ t, Steps s ((List.range j).map fun j => ⟨sect, 32 * j⟩) t ∧ t.At v c sect (32 * j) := by
  induction j with
  | zero => exact ⟨s, .none, at'⟩
  | succ j ih =>
      obtain ⟨t, steps, there⟩ := ih (by omega)
      obtain ⟨u, next, there'⟩ := dirNext_slot there (by omega)
      refine ⟨u, ?_, there'⟩
      rw [List.range_succ, List.map_append, List.map_singleton, ← there.here]
      exact steps.append (.more next .none)

/-- The slots of sectors. -/
def runSlots (start n : Nat) : List Loc :=
  (List.range n).flatMap fun i => sectorSlots (u32 (start + i))

/-- The sectors that the mask takes to be inside a cluster. -/
theorem steps_sectors (at' : s.At v c (u32 start) 0)
    (inside : ∀ i, 0 < i → i ≤ n → u32 (start + i) &&& v.fat.geometry.clustMsk ≠ 0) :
    ∃ t, Steps s (runSlots start n) t ∧ t.At v c (u32 (start + n)) 0 := by
  induction n with
  | zero => exact ⟨s, .none, at'⟩
  | succ n ih =>
      obtain ⟨t, steps, there⟩ := ih fun i positive small => inside i positive (by omega)
      obtain ⟨u, slots, there'⟩ := steps_slots there 15 (by decide)
      have number : u32 (u32 (start + n) + 1) = u32 (start + (n + 1)) := Nat.mod_add_mod _ _ _
      obtain ⟨x, next, there''⟩ := dirNext_sector there' (by
        rw [number]
        exact inside (n + 1) (Nat.succ_pos n) le_rfl)
      rw [number] at there''
      refine ⟨x, ?_, there''⟩
      have all : runSlots start (n + 1) = runSlots start n ++
          (((List.range 15).map fun j => ⟨u32 (start + n), 32 * j⟩) ++ [⟨u32 (start + n), 480⟩]) := by
        unfold runSlots
        rw [List.range_succ, List.flatMap_append, List.flatMap_singleton, sectorSlots]
        rfl
      rw [all]
      exact steps.append (slots.append (there'.here ▸ .more next .none))

/-! ## Clusters -/

/-- Reading the entry of a cluster, for a directory. -/
theorem onFat_getFat {area : Set Nat} (volume : s.volume = v) (ready : v.Ready area)
    (inside : v.fat.geometry.entrySect c ∈ area) : ∃ w, w.Ready area ∧ v.Agrees area w ∧
      (onFat (getFat c)).run s =
        (match clustFlags v.fat.geometry.clustCnt (v.seen c) with
          | some flags => .ok (v.seen c, flags)
          | none => .error (.code errBroken), s.withVolume w) := by
  obtain ⟨w, read, ready', agrees, -⟩ := getFat_seen ready inside
  refine ⟨w, ready', agrees, ?_⟩
  rw [onFat, run_zoom, volume]
  exact congrArg (fun ended => (ended.1, s.withVolume ended.2)) read

/-- Behind the last cluster. -/
theorem dirNextClust_last {area : Set Nat} {idx : Nat} (at' : s.At v c sect idx)
    (ready : v.Ready area) (inside : v.fat.geometry.entrySect c ∈ area)
    (ends : 0x0FFFFFF8 ≤ v.seen c) : ∃ t, dirNextClust.run s = (.error (.code errEof), t) := by
  obtain ⟨w, -, -, read⟩ := onFat_getFat at'.volume ready inside
  rw [FatChain.clustFlags_last ends] at read
  refine ⟨s.withVolume w, ?_⟩
  unfold dirNextClust
  rw [run_gets_bind, at'.clust, run_bind_ok read]
  rfl

/-- Behind a cluster with a link that is rejected. -/
theorem dirNextClust_broken {area : Set Nat} {idx : Nat} (at' : s.At v c sect idx)
    (ready : v.Ready area) (inside : v.fat.geometry.entrySect c ∈ area)
    (broken : clustFlags v.fat.geometry.clustCnt (v.seen c) = none) :
    ∃ t, dirNextClust.run s = (.error (.code errBroken), t) := by
  obtain ⟨w, -, -, read⟩ := onFat_getFat at'.volume ready inside
  rw [broken] at read
  refine ⟨s.withVolume w, ?_⟩
  unfold dirNextClust
  rw [run_gets_bind, at'.clust, run_bind_error read]

/-- Behind a cluster with a link. -/
theorem dirNextClust_used {area : Set Nat} {idx : Nat} (at' : s.At v c sect idx)
    (ready : v.Ready area) (inside : v.fat.geometry.entrySect c ∈ area)
    (used : clustFlags v.fat.geometry.clustCnt (v.seen c) = some .used) :
    ∃ w t, w.Ready area ∧ v.Agrees area w ∧ dirNextClust.run s = (.ok (), t) ∧
      t.At w (v.seen c) (v.fat.geometry.clustToSect (v.seen c)) 0 := by
  obtain ⟨w, ready', agrees, read⟩ := onFat_getFat at'.volume ready inside
  rw [used] at read
  refine ⟨w, (s.withVolume w).withDir (dirAtClust w.fat.geometry (v.seen c)), ready', agrees, ?_,
    rfl, rfl, ?_, rfl⟩
  · unfold dirNextClust
    rw [run_gets_bind, at'.clust, run_bind_ok read]
    rfl
  · change w.fat.geometry.clustToSect (v.seen c) = _
    rw [agrees.geometry]

namespace LegalChain

theorem tail (legal : LegalChain v (c :: d :: rest)) : LegalChain v (d :: rest) where
  clusters c member := legal.clusters c (List.mem_cons_of_mem _ member)
  links := (List.isChain_cons_cons.mp legal.links).2
  ends := legal.ends

theorem congr (legal : LegalChain v chain) (geometry : w.fat.geometry = v.fat.geometry)
    (same : ∀ c ∈ chain, w.seen c = v.seen c) : LegalChain w chain where
  clusters c member := geometry ▸ legal.clusters c member
  links := legal.links.imp_of_mem_imp fun c d member _ link => by rwa [same c member]
  ends c last := (same c (List.mem_of_getLast? last)).symm ▸ legal.ends c last

/-- The link to the second cluster is rejected exactly if this is one of the last two. -/
theorem clustFlags_next (legal : LegalChain v (c :: d :: rest)) :
    v.seen c = d ∧ (d < v.fat.geometry.clustCnt →
        clustFlags v.fat.geometry.clustCnt d = some .used) ∧
      (¬ d < v.fat.geometry.clustCnt → clustFlags v.fat.geometry.clustCnt d = none) := by
  obtain ⟨⟨link, small⟩, -⟩ := List.isChain_cons_cons.mp legal.links
  have isData := legal.clusters d (by simp)
  refine ⟨link, fun early => ?_, fun late => clustFlags_late ⟨isData, not_lt.mp late, small⟩⟩
  exact clustFlags_of_means (.used isData small) fun late => absurd early (not_lt.mpr late.2.1)

end LegalChain

/-- The last sector of a cluster as the mask says. -/
theorem steps_cluster (at' : s.At v c (v.fat.geometry.clustToSect c) 0)
    (run : v.fat.geometry.Run (v.fat.geometry.clustToSect c) n) :
    ∃ t u, Steps s (runSlots (v.fat.geometry.clustToSect c) n ++
        (List.range 15).map fun j => ⟨u32 (v.fat.geometry.clustToSect c + n), 32 * j⟩) t ∧
      t.here = ⟨u32 (v.fat.geometry.clustToSect c + n), 480⟩ ∧
      dirNext.run t = dirNextClust.run u ∧
      u.At v c (u32 (v.fat.geometry.clustToSect c + (n + 1))) 0 := by
  have start : u32 (v.fat.geometry.clustToSect c) = v.fat.geometry.clustToSect c :=
    u32_of_lt (u32_lt _)
  obtain ⟨t, sectors, there⟩ := steps_sectors (start.symm ▸ at') run.inside
  obtain ⟨u, slots, there'⟩ := steps_slots there 15 (by decide)
  have number : u32 (u32 (v.fat.geometry.clustToSect c + n) + 1) =
      u32 (v.fat.geometry.clustToSect c + (n + 1)) := Nat.mod_add_mod _ _ _
  obtain ⟨x, next, there''⟩ := dirNext_cluster there' (number.symm ▸ run.behind)
  exact ⟨u, x, sectors.append slots, there'.here, next, number ▸ there''⟩

theorem runSlots_succ (start n : Nat) : runSlots start (n + 1) = runSlots start n ++
    ((List.range 15).map fun j => ⟨u32 (start + n), 32 * j⟩) ++ [⟨u32 (start + n), 480⟩] := by
  unfold runSlots
  rw [List.range_succ, List.flatMap_append, List.flatMap_singleton, sectorSlots, List.append_assoc]
  rfl

/-- The walk over the last cluster. -/
theorem walk_last {area : Set Nat} (at' : s.At v c (v.fat.geometry.clustToSect c) 0) (ready : v.Ready area)
    (inside : v.fat.geometry.entrySect c ∈ area)
    (run : v.fat.geometry.Run (v.fat.geometry.clustToSect c) n) (legal : LegalChain v [c])
    (places : List Loc) :
    Walk s places ↔ places = runSlots (v.fat.geometry.clustToSect c) (n + 1) := by
  obtain ⟨t, u, steps, here, next, there⟩ := steps_cluster at' run
  obtain ⟨x, ends⟩ := dirNextClust_last there ready inside (legal.ends c (by simp))
  rw [steps.walk_iff, runSlots_succ]
  constructor
  · rintro ⟨tail, rfl, walk⟩
    cases walk with
    | last => rw [here]
    | next next' => exact nomatch (next'.symm.trans next).trans ends
  · rintro rfl
    exact ⟨_, rfl, here ▸ .last (next.trans ends)⟩

/-- The walk over a cluster that is not the last one. -/
theorem walk_cons {area : Set Nat} (at' : s.At v c (v.fat.geometry.clustToSect c) 0)
    (ready : v.Ready area) (inside : v.fat.geometry.entrySect c ∈ area)
    (run : v.fat.geometry.Run (v.fat.geometry.clustToSect c) n)
    (legal : LegalChain v (c :: d :: rest)) :
    (d < v.fat.geometry.clustCnt → ∃ w t, w.Ready area ∧ v.Agrees area w ∧
      t.At w d (w.fat.geometry.clustToSect d) 0 ∧
      ∀ places, Walk s places ↔
        ∃ after, places = runSlots (v.fat.geometry.clustToSect c) (n + 1) ++ after ∧ Walk t after) ∧
    (¬ d < v.fat.geometry.clustCnt → ∀ places, ¬ Walk s places) := by
  obtain ⟨t, u, steps, here, next, there⟩ := steps_cluster at' run
  obtain ⟨link, early, late⟩ := legal.clustFlags_next
  constructor
  · intro isEarly
    obtain ⟨w, x, ready', agrees, moved, atNext⟩ :=
      dirNextClust_used there ready inside (link.symm ▸ early isEarly)
    rw [link, ← agrees.geometry] at atNext
    refine ⟨w, x, ready', agrees, atNext, fun places => ?_⟩
    have whole := steps.append (.more (next.trans moved) .none)
    rw [here] at whole
    rw [whole.walk_iff, runSlots_succ]
  · intro isLate places walk
    obtain ⟨x, broken⟩ := dirNextClust_broken there ready inside (link.symm ▸ late isLate)
    obtain ⟨tail, -, walk'⟩ := (steps.walk_iff places).mp walk
    cases walk' with
    | last ends => exact nomatch (ends.symm.trans next).trans broken
    | next next' => exact nomatch (next'.symm.trans next).trans broken

/-! ## Chains -/

theorem sectorSlots_length (sect : Nat) : (sectorSlots sect).length = 16 := by
  rw [sectorSlots, List.length_map, List.length_range]

theorem runSlots_length (start n : Nat) : (runSlots start n).length = 16 * n := by
  rw [runSlots, List.length_flatMap]
  simp only [sectorSlots_length, List.map_const', List.length_range, List.sum_replicate_nat]
  omega

theorem Geometry.clustSlots_length (g : Geometry) (c : Nat) :
    (g.clustSlots c).length = 16 * (g.clustMsk + 1) := by
  rw [clustSlots, List.length_flatMap]
  simp only [sectorSlots_length, List.map_const', List.length_range, List.sum_replicate_nat]
  omega

/-- The first sector of a list of slots. -/
theorem runSlots_head (start n : Nat) :
    (runSlots start (n + 1)).head? = some ⟨u32 start, 0⟩ := by
  rw [runSlots, List.range_succ_eq_map, List.flatMap_cons]
  rfl

theorem Geometry.clustSlots_head (g : Geometry) (c : Nat) :
    (g.clustSlots c).head? = some ⟨g.sectOf c 0, 0⟩ := by
  rw [clustSlots, List.range_succ_eq_map, List.flatMap_cons]
  rfl

/-- Where the cluster ends as the mask says, its slots are met. -/
theorem Geometry.Delimits.slots {g : Geometry} (delimits : g.Delimits c) :
    runSlots (g.clustToSect c) (g.clustMsk + 1) = g.clustSlots c := by
  have start : g.sectOf c 0 < 2 ^ 32 := delimits.start ▸ u32_lt _
  unfold runSlots clustSlots
  refine List.flatMap_congr fun i member => congrArg sectorSlots ?_
  -- a sector whose number wraps to zero would be masked
  have below : ∀ i ≤ g.clustMsk, g.sectOf c 0 + i < 2 ^ 32 := by
    intro i
    induction i with
    | zero => exact fun _ => start
    | succ i ih =>
        intro small
        have before := ih (by omega)
        have unmasked := delimits.run.inside (i + 1) (Nat.succ_pos i) small
        by_contra wraps
        have zero : u32 (g.sectOf c 0 + (i + 1)) = 0 := by
          unfold u32
          omega
        rw [zero, Nat.zero_and] at unmasked
        exact unmasked rfl
  rw [delimits.start]
  exact u32_of_lt (below i (by simpa [Nat.lt_succ_iff] using member))

/-- The slots of the cluster are met only if it ends as the mask says. -/
theorem Geometry.delimits_of_slots {g : Geometry} (run : g.Run (g.clustToSect c) g.clustMsk)
    (same : runSlots (g.clustToSect c) (g.clustMsk + 1) = g.clustSlots c) : g.Delimits c := by
  have heads := congrArg List.head? same
  rw [runSlots_head, clustSlots_head, u32_of_lt (n := g.clustToSect c) (u32_lt _)] at heads
  have start : g.clustToSect c = g.sectOf c 0 := by
    simpa using heads
  exact ⟨start, start ▸ run⟩

/-- A walk is no longer than the slots of its chain. -/
theorem walk_length {area : Set Nat} (small : v.fat.geometry.clustMsk < 256) (ready : v.Ready area)
    (inside : ∀ x ∈ c :: rest, v.fat.geometry.entrySect x ∈ area)
    (at' : s.At v c (v.fat.geometry.clustToSect c) 0) (legal : LegalChain v (c :: rest))
    {places : List Loc} (walk : Walk s places) :
    places.length ≤ 16 * (v.fat.geometry.clustMsk + 1) * (rest.length + 1) := by
  induction rest generalizing v c s places with
  | nil =>
      obtain ⟨n, few, run⟩ := Geometry.exists_run small (v.fat.geometry.clustToSect c)
      rw [(walk_last at' ready (inside c (by simp)) run legal places).mp walk, runSlots_length]
      simp only [List.length_nil]
      omega
  | cons d rest ih =>
      obtain ⟨n, few, run⟩ := Geometry.exists_run small (v.fat.geometry.clustToSect c)
      obtain ⟨early, late⟩ := walk_cons at' ready (inside c (by simp)) run legal
      by_cases isEarly : d < v.fat.geometry.clustCnt
      · obtain ⟨w, t, ready', agrees, there, iff⟩ := early isEarly
        obtain ⟨after, rfl, walk'⟩ := (iff places).mp walk
        have geometry := agrees.geometry
        have legal' := legal.tail.congr geometry fun x member =>
          Volume.seen_congr geometry (agrees.view (inside x (List.mem_cons_of_mem _ member)))
        have bound := ih (geometry ▸ small) ready'
          (fun x member => geometry ▸ inside x (List.mem_cons_of_mem _ member)) there legal' walk'
        rw [geometry] at bound
        rw [List.length_append, runSlots_length, List.length_cons]
        rw [Nat.mul_add _ (rest.length + 1) 1]
        omega
      · exact absurd walk (late isEarly places)

/-- The walk meets the slots of a chain exactly if the mask delimits its clusters. -/
theorem walk_chain_iff {area : Set Nat} (small : v.fat.geometry.clustMsk < 256)
    (ready : v.Ready area) (inside : ∀ x ∈ c :: rest, v.fat.geometry.entrySect x ∈ area)
    (at' : s.At v c (v.fat.geometry.clustToSect c) 0) (legal : LegalChain v (c :: rest)) :
    Walk s (v.fat.geometry.slots (c :: rest)) ↔
      (∀ x ∈ c :: rest, v.fat.geometry.Delimits x) ∧ ∀ x ∈ rest, x < v.fat.geometry.clustCnt := by
  induction rest generalizing v c s with
  | nil =>
      obtain ⟨n, few, run⟩ := Geometry.exists_run small (v.fat.geometry.clustToSect c)
      rw [walk_last at' ready (inside c (by simp)) run legal]
      have alone : v.fat.geometry.slots [c] = v.fat.geometry.clustSlots c := by
        rw [Geometry.slots, List.flatMap_singleton]
      rw [alone]
      simp only [List.mem_singleton, forall_eq, List.not_mem_nil, IsEmpty.forall_iff,
        implies_true, and_true]
      constructor
      · intro same
        have lengths := congrArg List.length same
        rw [Geometry.clustSlots_length, runSlots_length] at lengths
        obtain rfl : n = v.fat.geometry.clustMsk := by omega
        exact Geometry.delimits_of_slots run same.symm
      · intro delimits
        rw [run.unique (delimits.start.symm ▸ delimits.run), delimits.slots]
  | cons d rest ih =>
      obtain ⟨n, few, run⟩ := Geometry.exists_run small (v.fat.geometry.clustToSect c)
      obtain ⟨early, late⟩ := walk_cons at' ready (inside c (by simp)) run legal
      by_cases isEarly : d < v.fat.geometry.clustCnt
      · obtain ⟨w, t, ready', agrees, there, iff⟩ := early isEarly
        have geometry := agrees.geometry
        have legal' := legal.tail.congr geometry fun x member =>
          Volume.seen_congr geometry (agrees.view (inside x (List.mem_cons_of_mem _ member)))
        have inside' : ∀ x ∈ d :: rest, w.fat.geometry.entrySect x ∈ area := fun x member =>
          geometry ▸ inside x (List.mem_cons_of_mem _ member)
        have later := ih (geometry ▸ small) ready' inside' there legal'
        rw [geometry] at later
        have split : v.fat.geometry.slots (c :: d :: rest) =
            v.fat.geometry.clustSlots c ++ v.fat.geometry.slots (d :: rest) := by
          rw [Geometry.slots, List.flatMap_cons]
          rfl
        rw [iff, split]
        constructor
        · rintro ⟨after, same, walk⟩
          -- no cluster makes up for slots that are missing in another one
          have bound := walk_length (geometry ▸ small) ready' inside' there legal' walk
          have lengths := congrArg List.length same
          have total : (v.fat.geometry.slots (d :: rest)).length =
              16 * (v.fat.geometry.clustMsk + 1) * (rest.length + 1) := by
            unfold Geometry.slots
            rw [List.length_flatMap]
            simp only [Geometry.clustSlots_length, List.map_const', List.sum_replicate_nat,
              List.length_cons]
            rw [Nat.mul_comm]
          rw [geometry] at bound
          rw [List.length_append, List.length_append, runSlots_length, Geometry.clustSlots_length,
            total] at lengths
          obtain rfl : n = v.fat.geometry.clustMsk := by omega
          obtain ⟨first, rfl⟩ := List.append_inj same
            (by rw [runSlots_length, Geometry.clustSlots_length])
          obtain ⟨delimits, small'⟩ := later.mp walk
          refine ⟨fun x member => ?_, fun x member => ?_⟩
          · rcases List.mem_cons.mp member with rfl | member
            · exact Geometry.delimits_of_slots run first.symm
            · exact delimits x member
          · rcases List.mem_cons.mp member with rfl | member
            · exact isEarly
            · exact small' x member
        · rintro ⟨delimits, small'⟩
          have delimited := delimits c (by simp)
          obtain rfl := run.unique (delimited.start.symm ▸ delimited.run)
          exact ⟨_, by rw [delimited.slots], later.mpr
            ⟨fun x member => delimits x (List.mem_cons_of_mem _ member),
              fun x member => small' x (List.mem_cons_of_mem _ member)⟩⟩
      · exact iff_of_false (late isEarly _) fun both => isEarly (both.2 d (by simp))

/-- **Walking.** The walk from the first slot of a chain comes to the slots of its clusters
exactly if the mask delimits each of them, and `get_fat` follows the links to them. -/
theorem walk_slots_iff (mountable : s.volume.fat.geometry.Mountable)
    (ready : s.volume.Ready {sect | ∃ x ∈ c :: rest, s.volume.fat.geometry.entrySect x = sect})
    (legal : LegalChain s.volume (c :: rest))
    (start : s.dir = dirAtClust s.volume.fat.geometry c s.dir) :
    Walk s (s.volume.fat.geometry.slots (c :: rest)) ↔
      (∀ x ∈ c :: rest, s.volume.fat.geometry.Delimits x) ∧
        ∀ x ∈ rest, x < s.volume.fat.geometry.clustCnt := by
  have at' : s.At s.volume c (s.volume.fat.geometry.clustToSect c) 0 :=
    ⟨rfl, congrArg Dir.clust start, congrArg Dir.sect start, congrArg Dir.idx start⟩
  exact walk_chain_iff mountable.small ready (fun x member => ⟨x, member, rfl⟩) at' legal

/-- Where clusters are a power of two of sectors, the mask delimits them if the data area begins
at a multiple of that, as far as their sectors have numbers of 32 bits. -/
theorem Geometry.delimits_iff_aligned {g : Geometry} (power : g.clustMsk + 1 = 2 ^ g.clustShift)
    (few : g.clustShift ≤ 32) (low : 2 ≤ c) :
    g.Delimits c ↔ g.clustMsk + 1 ∣ g.dataSect ∧ g.sectOf c 0 < 2 ^ 32 := by
  have masked (n : Nat) : u32 n &&& g.clustMsk = n % (g.clustMsk + 1) := by
    have mask : g.clustMsk = 2 ^ g.clustShift - 1 := by omega
    rw [power, mask, Nat.and_two_pow_sub_one_eq_mod, u32,
      Nat.mod_mod_of_dvd _ (Nat.pow_dvd_pow 2 few)]
  have place (i : Nat) : (g.sectOf c 0 + i) % (g.clustMsk + 1) =
      (g.dataSect + i) % (g.clustMsk + 1) := by
    have split : g.sectOf c 0 + i = g.dataSect + i + (c - 2) * (g.clustMsk + 1) := by
      unfold sectOf
      omega
    rw [split, Nat.add_mul_mod_self_right]
  constructor
  · intro delimits
    refine ⟨?_, delimits.start ▸ u32_lt _⟩
    have behind := delimits.run.behind
    rwa [masked, place, Nat.add_mod_right, ← Nat.dvd_iff_mod_eq_zero] at behind
  · rintro ⟨aligned, small⟩
    refine ⟨?_, fun i positive inside => ?_, ?_⟩
    · unfold sectOf at small ⊢
      have offset : c - 2 ≤ (c - 2) * (g.clustMsk + 1) := Nat.le_mul_of_pos_right _ (Nat.succ_pos _)
      have number : sub32 c 2 = c - 2 := by
        unfold sub32
        omega
      rw [clustToSect, number, ← power, u32_of_lt (n := (c - 2) * _) (by omega),
        u32_of_lt (by omega)]
      omega
    · rw [masked, place, Nat.add_mod, Nat.mod_eq_zero_of_dvd aligned, Nat.zero_add, Nat.mod_mod,
        Nat.mod_eq_of_lt (by omega)]
      omega
    · rw [masked, place, Nat.add_mod_right]
      exact Nat.mod_eq_zero_of_dvd aligned

/-! ### Clusters of two sectors -/

/-- A boot sector of a volume with two sectors to a cluster. -/
def pairBoot (resSectCnt : Nat) : Sector := (sampleBoot 2).writeLE 14 2 resSectCnt

/-- The volume, where the second cluster is a chain of its own. -/
def pairVolume (resSectCnt : Nat) : Volume where
  fat := { (sampleVolume 2).fat with geometry := (pairBoot resSectCnt).bpb.geometry 0 }
  disk := { sectors := fun sect => if sect = resSectCnt then sampleSector else fun _ => 0,
            answer := fun _ => none, count := 0 }
  mishaps := []

/-- A directory at its first slot. -/
def pairDir (resSectCnt : Nat) : OpenDir where
  volume := pairVolume resSectCnt
  dir := dirAtClust (pairVolume resSectCnt).fat.geometry 2 ⟨2, 2, 0, 0⟩
  loc := none
  path := []
  gBuf := fun _ => 0
  gLen := 0
  gCrc := 0

theorem pairVolume_seen {resSectCnt : Nat} (nonzero : resSectCnt ≠ 0)
    (sector : (pairVolume resSectCnt).fat.geometry.entrySect 2 = resSectCnt) :
    (pairVolume resSectCnt).seen 2 = 0x0FFFFFFF := by
  have view : (pairVolume resSectCnt).view resSectCnt =
      Memory.writeLE (fun _ => 0) (4 * (2 % 128)) 4 0x0FFFFFFF :=
    (Volume.view_of_ne nonzero.symm).trans (if_pos rfl)
  rw [Volume.seen, sector, view, Memory.readLE_writeLE]
  rfl

theorem pairVolume_legal {resSectCnt : Nat} (nonzero : resSectCnt ≠ 0)
    (sector : (pairVolume resSectCnt).fat.geometry.entrySect 2 = resSectCnt)
    (some : 0 < (pairVolume resSectCnt).fat.geometry.clustCnt) :
    LegalChain (pairVolume resSectCnt) [2] where
  clusters c member := by
    obtain rfl := List.mem_singleton.mp member
    exact ⟨le_rfl, Nat.succ_le_succ some⟩
  links := List.isChain_singleton 2
  ends c last := by
    obtain rfl : 2 = c := by simpa using last
    rw [pairVolume_seen nonzero sector]
    decide

theorem walk_slots_aligned : Walk (pairDir 32) ((pairDir 32).volume.fat.geometry.slots [2]) :=
  (walk_slots_iff (s := pairDir 32) ⟨pairBoot 32, 0, by decide, rfl⟩
    ⟨fun _ _ => rfl, fun _ inside => by
      obtain ⟨x, member, same⟩ := inside
      obtain rfl := List.mem_singleton.mp member
      exact absurd same (by decide)⟩
    (pairVolume_legal (by decide) (by decide) (by decide)) rfl).mpr
    ⟨fun x member => by
      obtain rfl := List.mem_singleton.mp member
      exact (Geometry.delimits_iff_aligned (by decide) (by decide) le_rfl).mpr
        ⟨by decide, by decide⟩, fun x member => absurd member List.not_mem_nil⟩

/-- One more reserved sector, and the second half of the cluster is passed over. -/
theorem walk_slots_unaligned :
    (pairDir 33).volume.fat.geometry.Mountable ∧ LegalChain (pairDir 33).volume [2] ∧
      (pairDir 33).volume.disk.Sound ∧
      ¬ Walk (pairDir 33) ((pairDir 33).volume.fat.geometry.slots [2]) := by
  have legal : LegalChain (pairDir 33).volume [2] :=
    pairVolume_legal (by decide) (by decide) (by decide)
  refine ⟨⟨pairBoot 33, 0, by decide, rfl⟩, legal, fun _ _ => rfl, fun walk => ?_⟩
  have run : (pairVolume 33).fat.geometry.Run ((pairVolume 33).fat.geometry.clustToSect 2) 0 :=
    ⟨fun i positive none => absurd positive (by omega), by decide⟩
  have ready : (pairVolume 33).Ready {33} := ⟨fun _ _ => rfl, fun _ same => absurd same (by decide)⟩
  have met := (walk_last (s := pairDir 33) ⟨rfl, rfl, rfl, rfl⟩ ready (by decide) run legal _).mp walk
  have lengths := congrArg List.length met
  rw [runSlots_length, Geometry.slots, List.flatMap_singleton, Geometry.clustSlots_length] at lengths
  exact absurd lengths (by decide)

end NTux.Fat32
