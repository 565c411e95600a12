import NTux.Fat32.View
import NTux.Foundation.Bits

/-! # The entries of the FAT

Where the copies of the FAT, the `FsInfo` sector and the data area are disjoint
(`Geometry.Layout`), an entry is a number of its own: `get_fat` reads it (`getFat_spec`), and
`put_fat` changes its lower bits in each copy and no other entry (`putFat_spec`).
-/

namespace NTux.Fat32

open NTux.Foundation Command

/-! ## Where the driver's sectors are -/

namespace Geometry

/-- The entry is in a sector of the FAT that has an entry of a cluster. -/
def InFat (g : Geometry) (c : Nat) : Prop := c / 128 ≤ (g.clustCnt - 1) / 128

/-- The second copy of the FAT is kept. -/
def Mirrored (g : Geometry) : Prop := g.mirrorSect ≠ 0

def fatArea (g : Geometry) : Set Nat := {s | ∃ c, g.InFat c ∧ s = g.fatSect + c / 128}

def mirrorArea (g : Geometry) : Set Nat :=
  {s | g.Mirrored ∧ ∃ c, g.InFat c ∧ s = g.mirrorSect + c / 128}

/-- A cluster number that the driver uses. -/
def IsClust (g : Geometry) (c : Nat) : Prop := 2 ≤ c ∧ c < g.clustCnt

/-- The sectors of a cluster. -/
def clustArea (g : Geometry) (c : Nat) : Set Nat :=
  Set.Ico (g.clustToSect c) (g.clustToSect c + 2 ^ g.clustShift)

def dataArea (g : Geometry) : Set Nat :=
  Set.Ico g.dataSect (g.dataSect + (g.clustCnt - 2) * 2 ^ g.clustShift)

/-- All sectors that the driver uses. -/
def area (g : Geometry) : Set Nat :=
  g.fatArea ∪ g.mirrorArea ∪ {g.infoSect} ∪ g.dataArea

/-- The copies of the FAT, the `FsInfo` sector and the data area are disjoint, and their
sectors have numbers of 32 bits. -/
structure Layout (g : Geometry) : Prop where
  clusters : 2 < g.clustCnt ∧ g.clustCnt < 2 ^ 32
  fatFits : g.fatSect + (g.clustCnt - 1) / 128 < 2 ^ 32
  mirrorFits : g.mirrorSect + (g.clustCnt - 1) / 128 < 2 ^ 32
  infoFits : g.infoSect < 2 ^ 32
  dataFits : g.dataSect + (g.clustCnt - 2) * 2 ^ g.clustShift ≤ 2 ^ 32
  mask : g.clustMsk + 1 = 2 ^ g.clustShift
  copies : Disjoint g.fatArea g.mirrorArea
  info : g.infoSect ∉ g.fatArea ∪ g.mirrorArea
  data : Disjoint g.dataArea (g.fatArea ∪ g.mirrorArea ∪ {g.infoSect})

variable {g : Geometry} {c : Nat}

theorem IsClust.inFat (isClust : g.IsClust c) : g.InFat c :=
  Nat.div_le_div_right (Nat.le_sub_one_of_lt isClust.2)

theorem Layout.fatSector (layout : g.Layout) (inFat : g.InFat c) :
    u32 (g.fatSect + c / 128) = g.fatSect + c / 128 :=
  u32_of_lt ((Nat.add_le_add_left inFat _).trans_lt layout.fatFits)

theorem Layout.mirrorSector (layout : g.Layout) (inFat : g.InFat c) :
    u32 (g.mirrorSect + c / 128) = g.mirrorSect + c / 128 :=
  u32_of_lt ((Nat.add_le_add_left inFat _).trans_lt layout.mirrorFits)

theorem mem_fatArea (inFat : g.InFat c) : g.fatSect + c / 128 ∈ g.fatArea := ⟨c, inFat, rfl⟩

theorem mem_mirrorArea (mirrored : g.Mirrored) (inFat : g.InFat c) :
    g.mirrorSect + c / 128 ∈ g.mirrorArea := ⟨mirrored, c, inFat, rfl⟩

theorem fatArea_subset : g.fatArea ⊆ g.area := fun _ member => .inl (.inl (.inl member))

theorem mirrorArea_subset : g.mirrorArea ⊆ g.area := fun _ member => .inl (.inl (.inr member))

theorem infoSect_mem : g.infoSect ∈ g.area := .inl (.inr rfl)

theorem dataArea_subset : g.dataArea ⊆ g.area := fun _ member => .inr member

end Geometry

/-! ## Entries -/

/-- The entry of a cluster in the copy of the FAT that begins at a sector. -/
def entryAt (view : Nat → Sector) (base c : Nat) : Nat :=
  (view (base + c / 128)).readLE (4 * (c % 128)) 4

/-- An entry with other lower bits: the upper nibble stays. -/
def setLower (val entry : Nat) : Nat := entry / 2 ^ 28 * 2 ^ 28 + val % 2 ^ 28

namespace Volume

/-- The entry of a cluster in the active FAT. -/
def entry (v : Volume) (c : Nat) : Nat := entryAt v.view v.fat.geometry.fatSect c

def mirrorEntry (v : Volume) (c : Nat) : Nat := entryAt v.view v.fat.geometry.mirrorSect c

/-- The lower bits of an entry. -/
def link (v : Volume) (c : Nat) : Nat := v.entry c % 2 ^ 28

end Volume

theorem land_lower (n : Nat) : n &&& 0x0FFFFFFF = n % 2 ^ 28 :=
  Nat.and_two_pow_sub_one_eq_mod n 28

theorem lor_lower {entry val : Nat} (small : entry < 2 ^ 32) :
    (entry &&& 0xF0000000) ||| (val &&& 0x0FFFFFFF) = setLower val entry := by
  have high : entry &&& 0xF0000000 = entry / 2 ^ 28 * 2 ^ 28 := by
    apply Nat.eq_of_testBit_eq
    intro i
    have mask : 0xF0000000 = (2 ^ 4 - 1) * 2 ^ 28 := by decide
    rw [mask, Nat.testBit_and, Nat.testBit_mul_two_pow, Nat.testBit_mul_two_pow,
      Nat.testBit_two_pow_sub_one, Nat.testBit_div_two_pow]
    by_cases above : 28 ≤ i
    · by_cases inside : i < 32
      · have : i - 28 < 4 := by omega
        simp [above, this, Nat.sub_add_cancel above]
      · have : entry.testBit i = false :=
          Nat.testBit_lt_two_pow (small.trans_le (Nat.pow_le_pow_right (by decide) (by omega)))
        simp [this, Nat.sub_add_cancel above]
    · simp [above]
  rw [high, land_lower, lor_low (Nat.mod_lt _ (by decide)), setLower]

theorem setLower_div (val entry : Nat) : setLower val entry / 2 ^ 28 = entry / 2 ^ 28 := by
  unfold setLower
  omega

theorem setLower_mod (val entry : Nat) : setLower val entry % 2 ^ 28 = val % 2 ^ 28 := by
  unfold setLower
  omega

theorem setLower_lt {entry : Nat} (val : Nat) (small : entry < 2 ^ 32) :
    setLower val entry < 2 ^ 32 := by
  unfold setLower
  omega

/-- An entry that was put into a sector. -/
theorem readLE_putEntry (buf : Sector) (c d val : Nat) :
    (putEntry c val buf).readLE (4 * (d % 128)) 4 =
      if d % 128 = c % 128 then setLower val (buf.readLE (4 * (d % 128)) 4)
      else buf.readLE (4 * (d % 128)) 4 := by
  have small : buf.readLE (4 * (c % 128)) 4 < 2 ^ 32 := Memory.readLE_lt _ _ _
  unfold putEntry
  rw [lor_lower small]
  split
  · next same =>
      rw [same, Memory.readLE_writeLE]
      exact Nat.mod_eq_of_lt (setLower_lt val small)
  · next differ => exact Memory.readLE_writeLE_of_apart _ _ (by omega)

/-- An entry that was put into a copy of the FAT. -/
theorem entryAt_update (view : Nat → Sector) (base c d val : Nat) :
    entryAt (Function.update view (base + c / 128) (putEntry c val (view (base + c / 128)))) base d =
      if d = c then setLower val (entryAt view base d) else entryAt view base d := by
  unfold entryAt
  by_cases sector : d / 128 = c / 128
  · rw [sector, Function.update_self, readLE_putEntry]
    have iff : d % 128 = c % 128 ↔ d = c := by omega
    simp only [iff]
  · have differ : d ≠ c := by
      rintro rfl
      exact sector rfl
    rw [Function.update_of_ne (by omega), if_neg differ]

/-! ## Reading and writing entries -/

/-- What the driver sees of the FAT is changed entry by entry, in each copy, and nothing else
but the `FsInfo` sector is. -/
structure Rewrites (v w : Volume) (new : Nat → Nat → Nat) : Prop where
  ready : w.Ready w.fat.geometry.area
  geometry : w.fat.geometry = v.fat.geometry
  entry : ∀ c, v.fat.geometry.InFat c → w.entry c = new c (v.entry c)
  mirror : v.fat.geometry.Mirrored → ∀ c, v.fat.geometry.InFat c →
    w.mirrorEntry c = new c (v.mirrorEntry c)
  data : Set.EqOn w.view v.view v.fat.geometry.dataArea

variable {v w u : Volume}

theorem Rewrites.trans {first second : Nat → Nat → Nat} (before : Rewrites v w first)
    (after : Rewrites w u second) : Rewrites v u fun c entry => second c (first c entry) where
  ready := after.ready
  geometry := after.geometry.trans before.geometry
  entry c inFat := by rw [after.entry c (before.geometry ▸ inFat), before.entry c inFat]
  mirror mirrored c inFat := by
    rw [after.mirror (before.geometry ▸ mirrored) c (before.geometry ▸ inFat),
      before.mirror mirrored c inFat]
  data := fun s member => (after.data (before.geometry ▸ member)).trans (before.data member)

theorem Rewrites.congr {first second : Nat → Nat → Nat} (before : Rewrites v w first)
    (same : ∀ c entry, first c entry = second c entry) : Rewrites v w second := by
  have equal : first = second := funext fun c => funext (same c)
  exact equal ▸ before

/-- What is seen is the same. -/
theorem Volume.Agrees.rewrites (agrees : v.Agrees v.fat.geometry.area w)
    (ready : w.Ready v.fat.geometry.area) : Rewrites v w fun _ entry => entry where
  ready := agrees.geometry ▸ ready
  geometry := agrees.geometry
  entry c inFat := by
    unfold Volume.entry entryAt
    rw [agrees.geometry,
      agrees.view (Geometry.fatArea_subset (Geometry.mem_fatArea inFat))]
  mirror mirrored c inFat := by
    unfold Volume.mirrorEntry entryAt
    rw [agrees.geometry,
      agrees.view (Geometry.mirrorArea_subset (Geometry.mem_mirrorArea mirrored inFat))]
  data := fun _ member => agrees.view (Geometry.dataArea_subset member)

/-- The sector where `get_fat` looks for an entry. -/
def Geometry.entrySect (g : Geometry) (c : Nat) : Nat := u32 (g.fatSect + c / 128)

/-- The lower bits of what `get_fat` looks at. -/
def Volume.seen (v : Volume) (c : Nat) : Nat :=
  (v.view (v.fat.geometry.entrySect c)).readLE (4 * (c % 128)) 4 % 2 ^ 28

/-- What is seen of an entry depends on its sector. -/
theorem Volume.seen_congr (geometry : w.fat.geometry = v.fat.geometry) {c : Nat}
    (same : w.view (v.fat.geometry.entrySect c) = v.view (v.fat.geometry.entrySect c)) :
    w.seen c = v.seen c := by
  unfold Volume.seen
  rw [geometry, same]

/-- Where the sectors of the FAT do not wrap, an entry is seen. -/
theorem Geometry.Layout.seen (layout : v.fat.geometry.Layout) {c : Nat}
    (inFat : v.fat.geometry.InFat c) : v.seen c = v.link c := by
  unfold Volume.seen Geometry.entrySect
  rw [layout.fatSector inFat]
  rfl

/-- **Reading an entry.** `get_fat` gives the lower bits and what they say, or
`FAT_ERR_BROKEN`, and changes nothing that the driver sees. -/
theorem getFat_seen {area : Set Nat} (ready : v.Ready area) {c : Nat}
    (inside : v.fat.geometry.entrySect c ∈ area) :
    ∃ w, (getFat c).run v =
        (match clustFlags v.fat.geometry.clustCnt (v.seen c) with
          | some flags => .ok (v.seen c, flags)
          | none => .error (.code errBroken), w) ∧
      w.Ready area ∧ v.Agrees area w ∧ w.fat.sect = v.fat.geometry.entrySect c := by
  obtain ⟨w, moved, ready', agrees, at', -, -⟩ := updateBuf_spec ready (v.fat.geometry.entrySect c)
  have value : w.fat.buf.readLE (4 * (c % 128)) 4 &&& 0x0FFFFFFF = v.seen c := by
    have held : w.fat.buf = v.view (v.fat.geometry.entrySect c) := by
      rw [← agrees.view inside, ← at', Volume.view_buffered]
    rw [held, land_lower]
    rfl
  have moved' : (updateBuf (u32 (v.fat.geometry.fatSect + c / 128))).run v = (.ok (), w) := moved
  unfold getFat
  rw [run_gets_bind, run_bind_ok moved', run_gets_bind]
  simp only [value]
  cases clustFlags v.fat.geometry.clustCnt (v.seen c) with
  | some flags => exact ⟨w, rfl, ready', agrees, at'⟩
  | none =>
      refine ⟨w.note .broken, rfl, ⟨ready'.sound, ready'.coherent⟩, ⟨agrees.view, ?_⟩, at'⟩
      exact agrees.unbuffered

/-- Reading an entry on a volume with a layout. -/
theorem getFat_spec (layout : v.fat.geometry.Layout) (ready : v.Ready v.fat.geometry.area) {c : Nat}
    (inFat : v.fat.geometry.InFat c) :
    ∃ w, (getFat c).run v =
        (match clustFlags v.fat.geometry.clustCnt (v.link c) with
          | some flags => .ok (v.link c, flags)
          | none => .error (.code errBroken), w) ∧
      w.Ready v.fat.geometry.area ∧ v.Agrees v.fat.geometry.area w ∧
      w.fat.sect = v.fat.geometry.fatSect + c / 128 := by
  have sector : v.fat.geometry.entrySect c = v.fat.geometry.fatSect + c / 128 :=
    layout.fatSector inFat
  have read := getFat_seen ready
    (sector.symm ▸ Geometry.fatArea_subset (Geometry.mem_fatArea inFat))
  rwa [layout.seen inFat, sector] at read

/-- A change of an entry in one copy of the FAT. -/
theorem putFat2_spec (ready : v.Ready v.fat.geometry.area) {base c : Nat}
    (fits : u32 (base + c / 128) = base + c / 128) (inside : base + c / 128 ∈ v.fat.geometry.area)
    (val : Nat) :
    ∃ w, (putFat2 base c val).run v = (.ok (), w) ∧ w.Ready v.fat.geometry.area ∧
      w.unbuffered = v.unbuffered ∧
      Set.EqOn w.view (Function.update v.view (base + c / 128)
        (putEntry c val (v.view (base + c / 128)))) v.fat.geometry.area := by
  obtain ⟨w, put, ready', plain, view, -⟩ := updateEdit_spec ready inside (putEntry c val)
  unfold putFat2
  rw [fits]
  exact ⟨w, put, ready', plain, view⟩

/-- The other entries and the data area do not notice a change in one copy of the FAT. -/
theorem entryAt_of_disjoint {area other : Set Nat} {view view' : Nat → Sector} {sect base : Nat}
    {buf : Sector} (same : Set.EqOn view' (Function.update view sect buf) area)
    (apart : sect ∉ other) (subset : other ⊆ area) {c : Nat} (member : base + c / 128 ∈ other) :
    entryAt view' base c = entryAt view base c := by
  unfold entryAt
  rw [same (subset member), Function.update_of_ne]
  rintro rfl
  exact apart member

/-- **Writing an entry.** `put_fat` changes the lower bits of one entry, in each copy. -/
theorem putFat_spec (layout : v.fat.geometry.Layout) (ready : v.Ready v.fat.geometry.area) {c : Nat}
    (inFat : v.fat.geometry.InFat c) (val : Nat) :
    ∃ w, (putFat c val).run v = (.ok (), w) ∧ w.unbuffered = v.unbuffered ∧
      Rewrites v w fun d entry => if d = c then setLower val entry else entry := by
  have onFat := Geometry.mem_fatArea inFat
  have fatNotData : v.fat.geometry.fatSect + c / 128 ∉ v.fat.geometry.dataArea := fun member =>
    Set.disjoint_left.mp layout.data member (.inl (.inl onFat))
  unfold putFat
  rw [run_gets_bind]
  by_cases mirrored : v.fat.geometry.mirrorSect ≠ 0
  · have onMirror := Geometry.mem_mirrorArea mirrored inFat
    have mirrorNotData : v.fat.geometry.mirrorSect + c / 128 ∉ v.fat.geometry.dataArea :=
      fun member => Set.disjoint_left.mp layout.data member (.inl (.inr onMirror))
    obtain ⟨u, first, ready', plain, view⟩ := putFat2_spec ready (layout.mirrorSector inFat)
      (Geometry.mirrorArea_subset onMirror) val
    have geometry : u.fat.geometry = v.fat.geometry := Volume.geometry_of_unbuffered plain
    rw [← geometry] at ready'
    obtain ⟨w, second, ready'', plain', view'⟩ := @putFat2_spec _ ready' v.fat.geometry.fatSect c
      (layout.fatSector inFat) (by rw [geometry]; exact Geometry.fatArea_subset onFat) val
    have geometry' : w.fat.geometry = v.fat.geometry :=
      (Volume.geometry_of_unbuffered plain').trans geometry
    rw [geometry] at view' ready''
    rw [if_pos mirrored, run_bind_ok first]
    refine ⟨w, second, plain'.trans plain, geometry' ▸ ready'', geometry', ?_, ?_, ?_⟩
    · intro d inFat'
      have inner := entryAt_of_disjoint (c := d) view
        (fun member => Set.disjoint_left.mp layout.copies member onMirror)
        Geometry.fatArea_subset (Geometry.mem_fatArea inFat')
      unfold Volume.entry
      rw [geometry', ← inner, ← entryAt_update]
      unfold entryAt
      rw [view' (Geometry.fatArea_subset (Geometry.mem_fatArea inFat'))]
    · intro _ d inFat'
      have outer := entryAt_of_disjoint (c := d) view'
        (fun member => Set.disjoint_left.mp layout.copies onFat member)
        Geometry.mirrorArea_subset (Geometry.mem_mirrorArea mirrored inFat')
      unfold Volume.mirrorEntry
      rw [geometry', outer, ← entryAt_update]
      unfold entryAt
      rw [view (Geometry.mirrorArea_subset (Geometry.mem_mirrorArea mirrored inFat'))]
    · intro s member
      rw [view' (Geometry.dataArea_subset member), Function.update_of_ne,
        view (Geometry.dataArea_subset member), Function.update_of_ne]
      · rintro rfl
        exact mirrorNotData member
      · rintro rfl
        exact fatNotData member
  · obtain ⟨w, put, ready', plain, view⟩ := putFat2_spec ready (layout.fatSector inFat)
      (Geometry.fatArea_subset onFat) val
    have geometry : w.fat.geometry = v.fat.geometry := Volume.geometry_of_unbuffered plain
    rw [if_neg mirrored]
    refine ⟨w, put, plain, geometry ▸ ready', geometry, ?_, fun isMirrored =>
      absurd isMirrored mirrored, ?_⟩
    · intro d inFat'
      unfold Volume.entry
      rw [geometry, ← entryAt_update]
      unfold entryAt
      rw [view (Geometry.fatArea_subset (Geometry.mem_fatArea inFat'))]
    · intro s member
      rw [view (Geometry.dataArea_subset member), Function.update_of_ne]
      rintro rfl
      exact fatNotData member

/-- The fields that `sync_fs` and the buffer leave alone. -/
structure SameCounts (v w : Volume) : Prop where
  lastUsed : w.fat.lastUsed = v.fat.lastUsed
  freeCnt : w.fat.freeCnt = v.fat.freeCnt

/-- **Synchronizing.** `sync_fs` changes nothing that the driver sees but the `FsInfo`
sector. -/
theorem syncFs_spec (layout : v.fat.geometry.Layout) (ready : v.Ready v.fat.geometry.area) :
    ∃ w, syncFs.run v = (.ok (), w) ∧ SameCounts v w ∧ Rewrites v w fun _ entry => entry := by
  obtain ⟨u, synced, ready', agrees, -⟩ := syncBuf_spec ready
  have geometry := agrees.geometry
  unfold syncFs
  rw [run_bind_ok synced, run_gets_bind]
  by_cases dirty : u.fat.infoDirty = true
  · rw [if_pos dirty]
    obtain ⟨x, moved, ready'', agrees', at', -, -⟩ := updateBuf_spec ready' u.fat.geometry.infoSect
    obtain ⟨y, edited, edited', plain, view, at'', -⟩ := @editBuf_run v.fat.geometry.area
      x fun buf => (buf.writeLE 492 4 x.fat.lastUsed).writeLE 488 4 x.fat.freeCnt
    obtain ⟨w, flushed, ready4, agrees'', -⟩ := syncBuf_spec (edited' ready''.sound)
    rw [run_bind_ok moved, run_gets_bind, run_bind_ok edited, run_bind_ok flushed]
    have both := agrees.trans agrees'
    have total : w.fat.geometry = v.fat.geometry :=
      agrees''.geometry.trans ((Volume.geometry_of_unbuffered plain).trans both.geometry)
    have used : w.fat.lastUsed = v.fat.lastUsed :=
      Volume.lastUsed_of_unbuffered (agrees''.unbuffered.trans (plain.trans both.unbuffered))
    have free : w.fat.freeCnt = v.fat.freeCnt :=
      Volume.freeCnt_of_unbuffered (agrees''.unbuffered.trans (plain.trans both.unbuffered))
    have seen : ∀ s ∈ v.fat.geometry.area, s ≠ v.fat.geometry.infoSect → w.view s = v.view s := by
      intro s member differ
      rw [agrees''.view member, view, at', geometry, Function.update_of_ne differ,
        both.view member]
    refine ⟨_, rfl, ⟨used, free⟩, ?_, total, ?_, ?_, ?_⟩
    · exact total ▸ ⟨ready4.sound, ready4.coherent⟩
    · intro c inFat
      have onFat := Geometry.mem_fatArea inFat
      change entryAt w.view w.fat.geometry.fatSect c = _
      unfold Volume.entry entryAt
      rw [total, seen _ (Geometry.fatArea_subset onFat)]
      exact fun equal => layout.info (.inl (equal ▸ onFat))
    · intro mirrored c inFat
      have onMirror := Geometry.mem_mirrorArea mirrored inFat
      change entryAt w.view w.fat.geometry.mirrorSect c = _
      unfold Volume.mirrorEntry entryAt
      rw [total, seen _ (Geometry.mirrorArea_subset onMirror)]
      exact fun equal => layout.info (.inr (equal ▸ onMirror))
    · intro s member
      refine seen s (Geometry.dataArea_subset member) ?_
      rintro rfl
      exact Set.disjoint_left.mp layout.data member (.inr rfl)
  · rw [if_neg dirty]
    exact ⟨u, rfl, ⟨Volume.lastUsed_of_unbuffered agrees.unbuffered,
      Volume.freeCnt_of_unbuffered agrees.unbuffered⟩, agrees.rewrites ready'⟩

end NTux.Fat32
