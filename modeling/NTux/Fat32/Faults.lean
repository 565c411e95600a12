import NTux.Fat32.Allocation
import NTux.Fat32.Clusters

/-! # The FAT on a disk with faults

Whatever operations of the disk fail, the functions on the FAT leave the links of the chains
as they are, and the data area (`Kept`), unless a read into the buffer fails. A new link is
written only where a chain ends.
-/

namespace NTux.Fat32

open NTux.Foundation Command

variable {g : Geometry} {v w u : Volume} {c d : Nat} {α : Type}

/-- How many reads have failed. -/
def reads (mishaps : List Mishap) : Nat := mishaps.count .read

theorem reads_read (mishaps : List Mishap) : reads (.read :: mishaps) = reads mishaps + 1 :=
  List.count_cons_self

namespace Volume

/-- A volume whose structures fit: the areas of its disk are disjoint, every cluster number is
the number of a link, the search for a free cluster begins with a cluster, and a buffer that
is not dirty agrees with the disk. -/
structure Fit (g : Geometry) (v : Volume) : Prop where
  geometry : v.fat.geometry = g
  layout : g.Layout
  small : g.clustCnt ≤ 0x0FFFFFF7
  shift : g.clustShift ≤ 7
  begins : 2 ≤ nextClust g.clustCnt v.fat.lastUsed
  coherent : v.fat.bufDirty = false → v.fat.sect ∈ g.area → v.disk.sectors v.fat.sect = v.fat.buf

/-- The driver sees the same entries and the same data, and has done no more than to move the
buffer to a structure of its own. -/
structure Same (g : Geometry) (v w : Volume) : Prop where
  fit : w.Fit g
  link : ∀ c, g.InFat c → w.link c = v.link c
  data : Set.EqOn w.view v.view g.dataArea
  buffer : w.fat.sect ∈ g.fatSide ∨ w.fat.sect = v.fat.sect
  reads : reads w.mishaps = reads v.mishaps

/-- The driver sees the same links and the same data. -/
structure Kept (g : Geometry) (v w : Volume) : Prop where
  fit : w.Fit g
  link : ∀ c, g.InFat c → clustFlags g.clustCnt (v.link c) = some .used → w.link c = v.link c
  data : Set.EqOn w.view v.view g.dataArea
  buffer : w.fat.sect ∈ g.fatSide ∨
    w.fat.sect = v.fat.sect ∧ ∀ c, g.InFat c → w.link c = v.link c
  reads : NTux.Fat32.reads w.mishaps = NTux.Fat32.reads v.mishaps

theorem Same.refl (fit : v.Fit g) : v.Same g v :=
  ⟨fit, fun _ _ => rfl, fun _ _ => rfl, .inr rfl, rfl⟩

theorem Same.trans (first : v.Same g w) (second : w.Same g u) : v.Same g u where
  fit := second.fit
  link c inFat := (second.link c inFat).trans (first.link c inFat)
  data := second.data.trans first.data
  buffer := by
    rcases second.buffer with side | equal
    · exact .inl side
    · rw [equal]
      exact first.buffer
  reads := second.reads.trans first.reads

theorem Same.kept (same : v.Same g w) : v.Kept g w where
  fit := same.fit
  link c inFat _ := same.link c inFat
  data := same.data
  buffer := same.buffer.imp_right fun equal => ⟨equal, same.link⟩
  reads := same.reads

theorem Kept.trans (first : v.Kept g w) (second : w.Kept g u) : v.Kept g u where
  fit := second.fit
  link c inFat used := by
    have before := first.link c inFat used
    rw [second.link c inFat (before ▸ used), before]
  data := second.data.trans first.data
  buffer := by
    rcases second.buffer with side | ⟨equal, links⟩
    · exact .inl side
    · rw [equal]
      exact first.buffer.imp_right fun ⟨sect, before⟩ =>
        ⟨sect, fun c inFat => (links c inFat).trans (before c inFat)⟩
  reads := second.reads.trans first.reads

/-- What is on the disk outside the buffer's sector. -/
theorem Kept.disk (kept : v.Kept g w) {s : Nat} (data : s ∈ g.dataArea)
    (apart : v.fat.sect ≠ s) : w.fat.sect ≠ s ∧ w.disk.sectors s = v.disk.sectors s := by
  have apart' : w.fat.sect ≠ s := by
    rcases kept.buffer with side | ⟨equal, -⟩
    · rintro rfl
      exact kept.fit.layout.data_notMem data side
    · rwa [equal]
  refine ⟨apart', ?_⟩
  rw [← view_of_ne apart', ← view_of_ne apart]
  exact kept.data data

end Volume

open Volume

/-! ## Moving the buffer -/

/-- Nothing is changed that the driver sees, or a read has failed. -/
def Steady (g : Geometry) (c : FatM α) : Prop :=
  c.Obeys (fun v w => v.Fit g → v.Same g w)
    fun v _ w => v.Fit g → v.Same g w ∨ reads v.mishaps < reads w.mishaps

theorem steady_composes (g : Geometry) : Composes (fun v w : Volume => v.Fit g → v.Same g w)
    fun v (_ : Stop) w => v.Fit g → v.Same g w ∨ reads v.mishaps < reads w.mishaps where
  refl _ fit := .refl fit
  trans first second fit := (first fit).trans (second (first fit).fit)
  after same stopped fit := by
    have first := same fit
    rcases stopped first.fit with later | more
    · exact .inl (first.trans later)
    · exact .inr (first.reads ▸ more)

theorem Steady.bind {β : Type} {c : FatM α} {f : α → FatM β} (first : Steady g c)
    (second : ∀ a, Steady g (f a)) : Steady g (c >>= f) :=
  (steady_composes g).bind first second

/-- The structure of the volume is changed outside the buffer. -/
theorem same_withFat (fit : v.Fit g) {f : Fat → Fat} (geometry : (f v.fat).geometry = v.fat.geometry)
    (begins : 2 ≤ nextClust g.clustCnt (f v.fat).lastUsed) (sect : (f v.fat).sect = v.fat.sect)
    (buf : (f v.fat).buf = v.fat.buf) (bufDirty : (f v.fat).bufDirty = v.fat.bufDirty) :
    v.Same g (v.withFat f) := by
  have view : (v.withFat f).view = v.view := by
    funext s
    change (if (f v.fat).sect = s then (f v.fat).buf else _) = _
    rw [sect, buf]
    rfl
  refine ⟨⟨geometry.trans fit.geometry, fit.layout, fit.small, fit.shift, begins, ?_⟩, ?_,
    fun s _ => congrFun view s, .inr sect, rfl⟩
  · intro clean inside
    change v.disk.sectors (f v.fat).sect = (f v.fat).buf
    rw [sect, buf]
    exact fit.coherent (bufDirty ▸ clean) (sect ▸ inside)
  · intro c _
    change entryAt _ (f v.fat).geometry.fatSect c % 2 ^ 28 = _
    rw [view, geometry]
    rfl

/-- What the driver sees does not depend on the record of mishaps. -/
theorem same_note (fit : v.Fit g) {mishap : Mishap} (notRead : mishap ≠ .read) :
    v.Same g (v.note mishap) :=
  ⟨⟨fit.geometry, fit.layout, fit.small, fit.shift, fit.begins, fit.coherent⟩, fun _ _ => rfl,
    fun _ _ => rfl, .inr rfl, List.count_cons_of_ne notRead⟩

/-- The same sectors are seen, and the same fields. -/
theorem same_of_agrees (fit : v.Fit g) (agrees : v.Agrees g.area w)
    (coherent : w.fat.bufDirty = false → w.fat.sect ∈ g.area → w.disk.sectors w.fat.sect = w.fat.buf)
    (buffer : w.fat.sect ∈ g.fatSide ∨ w.fat.sect = v.fat.sect)
    (same : reads w.mishaps = reads v.mishaps) : v.Same g w where
  fit := ⟨agrees.geometry.trans fit.geometry, fit.layout, fit.small, fit.shift,
    (lastUsed_of_unbuffered agrees.unbuffered) ▸ fit.begins, coherent⟩
  link c inFat := by
    unfold Volume.link Volume.entry entryAt
    rw [agrees.geometry, fit.geometry,
      agrees.view (Geometry.fatArea_subset (Geometry.mem_fatArea inFat))]
  data := agrees.view.mono Geometry.dataArea_subset
  buffer := buffer
  reads := same

/-- `ops.write` writes a sector, or fails. -/
theorem diskWrite_cases (buf : Sector) (sect : Nat) (v : Volume) :
    (diskWrite buf sect).run v = (.ok (), { v with disk :=
        { v.disk with sectors := Function.update v.disk.sectors sect buf
                      count := v.disk.count + 1 } }) ∨
      (diskWrite buf sect).run v = (.error (.code errIo),
        { v with disk := { v.disk with count := v.disk.count + 1 } }.note .write) := by
  unfold run diskWrite Disk.write
  cases v.disk.answer v.disk.count with
  | none => exact .inl rfl
  | some _ => exact .inr rfl

/-- `ops.read` reads a sector, or fails and leaves anything. -/
theorem diskRead_cases (sect : Nat) (v : Volume) :
    (diskRead sect).run v = (.ok (true, v.disk.sectors sect),
        { v with disk := { v.disk with count := v.disk.count + 1 } }) ∨
      ∃ junk, (diskRead sect).run v = (.ok (false, junk),
        { v with disk := { v.disk with count := v.disk.count + 1 } }.note .read) := by
  unfold run diskRead Disk.read
  cases v.disk.answer v.disk.count with
  | none => exact .inl rfl
  | some junk => exact .inr ⟨junk, rfl⟩

/-- `sync_buf` leaves a clean buffer, or fails without a change. -/
theorem syncBuf_faults (fit : v.Fit g) :
    syncBuf.wp (fun _ w => v.Same g w ∧ w.fat.bufDirty = false ∧ w.fat.sect = v.fat.sect ∧
      v.Agrees g.area w) (fun _ w => v.Same g w) v := by
  unfold syncBuf wp
  rw [run_gets_bind]
  by_cases dirty : v.fat.bufDirty = true
  · rw [if_pos dirty]
    rcases diskWrite_cases v.fat.buf v.fat.sect v with written | failed
    · rw [run_bind_ok written]
      have agrees : v.Agrees g.area { v with
          fat := { v.fat with bufDirty := false }
          disk := { v.disk with sectors := Function.update v.disk.sectors v.fat.sect v.fat.buf
                                count := v.disk.count + 1 } } := by
        refine ⟨fun s _ => ?_, rfl⟩
        change (if v.fat.sect = s then v.fat.buf else
          Function.update v.disk.sectors v.fat.sect v.fat.buf s) = v.view s
        unfold Volume.view
        split
        · rfl
        · next differ => exact Function.update_of_ne (Ne.symm differ) _ _
      have coherent := Function.update_self v.fat.sect v.fat.buf v.disk.sectors
      exact ⟨same_of_agrees fit agrees (fun _ _ => coherent) (.inr rfl) rfl, rfl, rfl, agrees⟩
    · rw [run_bind_error failed]
      exact same_of_agrees fit ⟨fun _ _ => rfl, rfl⟩ fit.coherent (.inr rfl)
        (List.count_cons_of_ne (by decide))
  · rw [if_neg dirty]
    exact ⟨.refl fit, by simpa using dirty, rfl, .refl⟩

/-- `update_buf` moves the buffer, or fails without a change, or a read fails. -/
theorem updateBuf_faults (fit : v.Fit g) {sect : Nat} (side : sect ∈ g.fatSide) :
    (updateBuf sect).wp (fun _ w => v.Same g w ∧ v.Agrees g.area w ∧ w.fat.sect = sect)
      (fun _ w => v.Same g w ∨ reads v.mishaps < reads w.mishaps) v := by
  unfold updateBuf
  by_cases moved : v.fat.sect ≠ sect
  · rw [wp, run_gets_bind, if_pos moved]
    apply wp_bind
    refine (syncBuf_faults fit).mono ?_ fun _ _ same => .inl same
    rintro - w ⟨same, clean, -, agrees⟩
    rcases diskRead_cases sect w with read | ⟨junk, failed⟩
    · rw [wp, run_bind_ok read]
      have agrees' : w.Agrees g.area { w with
          fat := { w.fat with buf := w.disk.sectors sect, sect := sect }
          disk := { w.disk with count := w.disk.count + 1 } } := by
        refine ⟨fun s inside => ?_, ?_⟩
        · change (if sect = s then w.disk.sectors sect else w.disk.sectors s) = w.view s
          have seen : w.disk.sectors s = w.view s := by
            by_cases buffered : w.fat.sect = s
            · subst buffered
              rw [view_buffered]
              exact same.fit.coherent clean inside
            · exact (view_of_ne buffered).symm
          split
          · next equal => rw [equal, seen]
          · exact seen
        · unfold unbuffered
          rfl
      exact ⟨same.trans (same_of_agrees same.fit agrees' (fun _ _ => rfl) (.inl side) rfl),
        agrees.trans agrees', rfl⟩
    · rw [wp, run_bind_ok failed]
      refine .inr ?_
      change reads v.mishaps < reads (.read :: w.mishaps)
      rw [← same.reads, reads_read]
      exact Nat.lt_succ_self _
  · rw [wp, run_gets_bind, if_neg moved]
    exact ⟨.refl fit, .refl, not_not.mp moved⟩

theorem syncBuf_steady : Steady g syncBuf := by
  intro v
  by_cases fit : v.Fit g
  · exact (syncBuf_faults fit).mono (fun _ _ spec _ => spec.1) fun _ _ same _ => .inl same
  · unfold wp
    split
    · exact fun isFit => absurd isFit fit
    · exact fun isFit => absurd isFit fit

/-- A command has to be looked at only where the volume fits. -/
theorem steady_of_fit {c : FatM α}
    (law : ∀ v, v.Fit g → c.wp (fun _ w => v.Same g w)
      (fun _ w => v.Same g w ∨ reads v.mishaps < reads w.mishaps) v) : Steady g c := by
  intro v
  by_cases fit : v.Fit g
  · exact (law v fit).mono (fun _ _ same _ => same) fun _ _ stopped _ => stopped
  · unfold wp
    split
    · exact fun isFit => absurd isFit fit
    · exact fun isFit => absurd isFit fit

/-- The volume's structure with other bytes in the buffer. -/
def editFat (edit : Sector → Sector) (fat : Fat) : Fat :=
  { fat with buf := edit fat.buf, bufDirty := true }

theorem view_edited (v : Volume) (edit : Sector → Sector) :
    (v.withFat (editFat edit)).view = Function.update v.view v.fat.sect (edit v.fat.buf) := by
  obtain ⟨_, edited, -, -, view, -⟩ := @editBuf_run ∅ v edit
  cases edited
  exact view

/-- Other bytes in the buffer, outside the active copy of the FAT. -/
theorem same_editBuf (fit : v.Fit g) (side : v.fat.sect ∈ g.fatSide) (outside : v.fat.sect ∉ g.fatArea)
    (edit : Sector → Sector) :
    v.Same g (v.withFat (editFat edit)) := by
  have seen : ∀ s, s ≠ v.fat.sect → (v.withFat (editFat edit)).view s = v.view s := by
    intro s differ
    rw [view_edited, Function.update_of_ne differ]
  refine ⟨⟨fit.geometry, fit.layout, fit.small, fit.shift, fit.begins, fun clean => nomatch clean⟩,
    fun c inFat => ?_, fun s data => ?_, .inl side, rfl⟩
  · have member := Geometry.mem_fatArea inFat
    have differ : g.fatSect + c / 128 ≠ v.fat.sect := fun equal => outside (equal ▸ member)
    have geometry := fit.geometry
    unfold Volume.link Volume.entry entryAt
    rw [geometry]
    change (Volume.view _ (v.fat.geometry.fatSect + c / 128)).readLE _ 4 % 2 ^ 28 = _
    rw [geometry, seen _ differ]
  · refine seen s ?_
    rintro rfl
    exact fit.layout.data_notMem data side

theorem Geometry.Layout.info_notMem (layout : g.Layout) : g.infoSect ∉ g.fatArea := fun member =>
  layout.info (.inl member)

theorem syncFs_steady : Steady g syncFs := by
  have info : g.infoSect ∈ g.fatSide := .inr rfl
  refine syncBuf_steady.bind fun _ => steady_of_fit fun v fit => ?_
  unfold wp
  rw [run_gets_bind]
  by_cases dirty : v.fat.infoDirty = true
  · rw [if_pos dirty, fit.geometry]
    apply wp_bind
    refine (updateBuf_faults fit info).mono ?_ fun _ _ stopped => stopped
    rintro - w ⟨same, -, moved⟩
    rw [wp, run_gets_bind]
    apply wp_bind
    have edited := same_editBuf same.fit (moved ▸ info) (moved ▸ fit.layout.info_notMem)
      fun buf => (buf.writeLE 492 4 w.fat.lastUsed).writeLE 488 4 w.fat.freeCnt
    have so_far := same.trans edited
    apply wp_bind
    refine (syncBuf_faults so_far.fit).mono ?_ fun _ _ later => .inl (so_far.trans later)
    rintro - x ⟨later, -⟩
    have total := so_far.trans later
    exact total.trans (same_withFat total.fit rfl total.fit.begins rfl rfl rfl)
  · rw [if_neg dirty]
    exact .refl fit

/-! ## Reading entries -/

/-- `get_fat` gives the link of a cluster, or nothing is changed, or a read fails. -/
theorem getFat_faults (fit : v.Fit g) (inFat : g.InFat c) :
    (getFat c).wp (fun entry w => v.Same g w ∧ w.fat.sect ∈ g.fatSide ∧ entry.1 = v.link c ∧
        clustFlags g.clustCnt (v.link c) = some entry.2)
      (fun _ w => v.Same g w ∨ reads v.mishaps < reads w.mishaps) v := by
  have side : g.fatSect + c / 128 ∈ g.fatSide := .inl (.inl (Geometry.mem_fatArea inFat))
  unfold getFat wp
  rw [run_gets_bind, fit.geometry, fit.layout.fatSector inFat]
  apply wp_bind
  refine (updateBuf_faults fit side).mono ?_ fun _ _ stopped => stopped
  rintro - w ⟨same, agrees, moved⟩
  rw [wp, run_gets_bind]
  have value : w.fat.buf.readLE (4 * (c % 128)) 4 &&& 0x0FFFFFFF = v.link c := by
    have held : w.fat.buf = v.view (g.fatSect + c / 128) := by
      rw [← agrees.view (Geometry.fatSide_subset side), ← moved, view_buffered]
    unfold Volume.link Volume.entry entryAt
    rw [held, land_lower, fit.geometry]
  dsimp only
  rw [value]
  cases known : clustFlags g.clustCnt (v.link c) with
  | some flags => exact ⟨same, moved ▸ side, rfl, rfl⟩
  | none => exact .inl (same.trans (same_note same.fit (by decide)))

/-! ## Writing entries -/

/-- An entry in a copy of the FAT that is not the active one. -/
theorem putMirror_steady (mirrored : g.Mirrored) (inFat : g.InFat c) (val : Nat) :
    Steady g (putFat2 g.mirrorSect c val) := by
  refine steady_of_fit fun v fit => ?_
  have member := Geometry.mem_mirrorArea mirrored inFat
  have side : g.mirrorSect + c / 128 ∈ g.fatSide := .inl (.inr member)
  unfold putFat2
  rw [fit.layout.mirrorSector inFat]
  apply wp_bind
  refine (updateBuf_faults fit side).mono ?_ fun _ _ stopped => stopped
  rintro - w ⟨same, -, moved⟩
  have outside : w.fat.sect ∉ g.fatArea := fun inside =>
    Set.disjoint_left.mp fit.layout.copies inside (moved ▸ member)
  exact same.trans (same_editBuf same.fit (moved ▸ side) outside (putEntry c val))

/-- `put_fat` changes one link, which is not that of a cluster in the middle of a chain, or a
read fails, or the links are the same as far as they are links. -/
theorem putFat_faults (fit : v.Fit g) (inFat : g.InFat c)
    (notUsed : clustFlags g.clustCnt (v.link c) ≠ some .used) (val : Nat) :
    (putFat c val).wp (fun _ w => v.Kept g w ∧ w.fat.sect ∈ g.fatSide ∧
        ∀ d, g.InFat d → w.link d = if d = c then val % 2 ^ 28 else v.link d)
      (fun _ w => v.Kept g w ∨ reads v.mishaps < reads w.mishaps) v := by
  have active : ∀ v, v.Fit g → clustFlags g.clustCnt (v.link c) ≠ some .used →
      (putFat2 g.fatSect c val).wp (fun _ w => v.Kept g w ∧ w.fat.sect ∈ g.fatSide ∧
          ∀ d, g.InFat d → w.link d = if d = c then val % 2 ^ 28 else v.link d)
        (fun _ w => v.Kept g w ∨ reads v.mishaps < reads w.mishaps) v := by
    intro v fit notUsed
    have member := Geometry.mem_fatArea inFat
    have side : g.fatSect + c / 128 ∈ g.fatSide := .inl (.inl member)
    unfold putFat2
    rw [fit.layout.fatSector inFat]
    apply wp_bind
    refine (updateBuf_faults fit side).mono ?_ fun _ _ stopped => stopped.imp_left Same.kept
    rintro - w ⟨same, -, moved⟩
    have held : w.fat.buf = w.view (g.fatSect + c / 128) := by rw [← moved, view_buffered]
    have view := view_edited w (putEntry c val)
    have links : ∀ d, g.InFat d → (w.withFat (editFat (putEntry c val))).link d =
        if d = c then val % 2 ^ 28 else v.link d := by
      intro d inFat'
      have before := same.link d inFat'
      have entry : (w.withFat (editFat (putEntry c val))).entry d =
          if d = c then setLower val (w.entry d) else w.entry d := by
        unfold Volume.entry
        rw [view, moved, held]
        change entryAt _ w.fat.geometry.fatSect d = _
        rw [same.fit.geometry, entryAt_update]
      unfold Volume.link at before ⊢
      rw [entry]
      split
      · exact setLower_mod _ _
      · exact before
    change v.Kept g (w.withFat (editFat (putEntry c val))) ∧ _
    refine ⟨⟨⟨same.fit.geometry, same.fit.layout, same.fit.small, same.fit.shift, same.fit.begins,
      fun clean => nomatch clean⟩, ?_, ?_, .inl (moved ▸ side), same.reads⟩, moved ▸ side, links⟩
    · intro d inFat' used
      rw [links d inFat', if_neg]
      rintro rfl
      exact notUsed used
    · intro s data
      have differ : s ≠ w.fat.sect := by
        rintro rfl
        exact fit.layout.data_notMem data (moved ▸ side)
      rw [view, Function.update_of_ne differ, same.data data]
  unfold putFat wp
  rw [run_gets_bind, fit.geometry]
  by_cases mirrored : g.mirrorSect ≠ 0
  · rw [if_pos mirrored]
    apply wp_bind
    refine (putMirror_steady mirrored inFat val v).mono ?_ fun _ _ stopped =>
      (stopped fit).imp_left Same.kept
    intro _ w stays
    have same := stays fit
    refine (active w same.fit (by rwa [same.link c inFat])).mono ?_ ?_
    · rintro - x ⟨kept, side, links⟩
      refine ⟨same.kept.trans kept, side, fun d inFat' => ?_⟩
      rw [links d inFat', same.link d inFat']
    · rintro - x (kept | more)
      · exact .inl (same.kept.trans kept)
      · exact .inr (same.reads ▸ more)
  · rw [if_neg mirrored]
    exact active v fit notUsed

/-! ## Stretching -/

/-- Behind a cluster there is a cluster. -/
theorem two_le_nextClust (layout : g.Layout) (isClust : g.IsClust c) :
    2 ≤ nextClust g.clustCnt c := by
  have fits := layout.clusters.2
  have low := isClust.1
  have high := isClust.2
  have small : u32 (c + 1) = c + 1 := u32_of_lt (by omega)
  unfold nextClust
  rw [small]
  split <;> omega

/-- The search gives a free cluster, and changes nothing. -/
theorem scanFree_faults (fuel : Nat) : ∀ {v : Volume} {turns clust : Nat}
    {flags : Option ClustFlags}, v.Fit g → 2 ≤ nextClust g.clustCnt clust →
    (scanFree fuel turns clust flags).wp
      (fun c w => v.Same g w ∧ w.fat.sect ∈ g.fatSide ∧ v.link c = 0 ∧ g.IsClust c)
      (fun _ w => v.Same g w ∨ reads v.mishaps < reads w.mishaps) v := by
  induction fuel with
  | zero =>
      intro v turns clust flags fit _
      unfold scanFree wp
      rw [run_gets_bind]
      have noted : v.Same g (v.note .full) := same_note fit (by decide)
      by_cases long : v.fat.geometry.clustCnt < turns
      · rw [if_pos long]
        exact .inl (noted.trans (same_note noted.fit (by decide)))
      · rw [if_neg long]
        exact .inl (.refl fit)
  | succ fuel ih =>
      intro v turns clust flags fit low
      have isClust : g.IsClust (nextClust g.clustCnt clust) :=
        ⟨low, nextClust_lt fit.layout.clusters.1 clust⟩
      unfold wp
      rw [scanFree, run_gets_bind, fit.geometry]
      dsimp only
      by_cases round : nextClust g.clustCnt clust = v.fat.lastUsed
      · rw [if_pos round]
        exact .inl (same_note fit (by decide))
      · rw [if_neg round, run_bind, run_attempt]
        have looked := getFat_faults fit isClust.inFat
        unfold wp at looked
        generalize (getFat (nextClust g.clustCnt clust)).run v = ended at looked ⊢
        obtain ⟨(_ | _ | _) | ⟨val, next⟩, w⟩ := ended
        · dsimp only at looked ⊢
          rw [returnFlags_run]
          have notRead : reads (w.note .lost).mishaps = reads w.mishaps :=
            List.count_cons_of_ne (by decide)
          rcases looked with same | more
          · exact .inl (same.trans (same_note same.fit (by decide)))
          · exact .inr (notRead ▸ more)
        · exact looked
        · exact looked
        · obtain ⟨same, side, rfl, known⟩ := looked
          have later := @ih _ (turns + 1) _ (some next) same.fit
            (two_le_nextClust fit.layout isClust)
          have rest : (scanFree fuel (turns + 1) (nextClust g.clustCnt clust) (some next)).wp
              (fun c u => v.Same g u ∧ u.fat.sect ∈ g.fatSide ∧ v.link c = 0 ∧ g.IsClust c)
              (fun _ u => v.Same g u ∨ reads v.mishaps < reads u.mishaps) w := by
            refine later.mono ?_ ?_
            · rintro c u ⟨same', side', free, isClust'⟩
              exact ⟨same.trans same', side', (same.link c isClust'.inFat) ▸ free, isClust'⟩
            · rintro - u (same' | more)
              · exact .inl (same.trans same')
              · exact .inr (same.reads ▸ more)
          cases next with
          | free => exact ⟨same, side, clustFlags_free.mp known, isClust⟩
          | used => exact rest
          | last => exact rest
          | bad => exact rest

/-- Behind the end of a chain there is a free cluster, or one is searched. -/
theorem findFree_faults (fuel : Nat) (fit : v.Fit g) (isClust : g.IsClust c) :
    (findFree fuel c).wp
      (fun d w => v.Same g w ∧ w.fat.sect ∈ g.fatSide ∧ v.link d = 0 ∧ g.IsClust d)
      (fun _ w => v.Same g w ∨ reads v.mishaps < reads w.mishaps) v := by
  have nonzero : c ≠ 0 := by
    have low := isClust.1
    omega
  have isClust' : g.IsClust (nextClust g.clustCnt c) :=
    ⟨two_le_nextClust fit.layout isClust, nextClust_lt fit.layout.clusters.1 c⟩
  unfold findFree wp
  rw [run_gets_bind, if_pos nonzero]
  dsimp only
  rw [fit.geometry]
  apply wp_bind
  refine (getFat_faults fit isClust'.inFat).mono ?_ fun _ _ stopped => stopped
  rintro ⟨val, flags⟩ w ⟨same, side, -, known⟩
  unfold wp
  dsimp only at known ⊢
  by_cases free : flags = .free
  · subst free
    exact ⟨same, side, clustFlags_free.mp known, isClust'⟩
  · rw [if_neg free]
    refine (scanFree_faults fuel same.fit fit.begins).mono ?_ ?_
    · rintro d u ⟨same', side', zero, isClust''⟩
      exact ⟨same.trans same', side', (same.link d isClust''.inFat) ▸ zero, isClust''⟩
    · rintro - u (same' | more)
      · exact .inl (same.trans same')
      · exact .inr (same.reads ▸ more)

/-- **Stretching.** `stretch_chain` at the end of a chain links a free cluster to it, and no
link of a chain is changed, unless a read fails. -/
theorem stretchChain_faults (fuel : Nat) (fit : v.Fit g) (isClust : g.IsClust c)
    (ends : clustFlags g.clustCnt (v.link c) = some .last) :
    (stretchChain fuel c).wp
      (fun d w => v.Kept g w ∧ w.fat.sect ∈ g.fatSide ∧ g.IsClust d ∧ w.link c = d)
      (fun _ w => v.Kept g w ∨ reads v.mishaps < reads w.mishaps) v := by
  have nonzero : c ≠ 0 := by
    have low := isClust.1
    omega
  have marked : v.Same g (v.withFat fun fat => { fat with infoDirty := true }) :=
    same_withFat fit rfl fit.begins rfl rfl rfl
  unfold stretchChain wp
  rw [run_modifyFat_bind]
  apply wp_bind
  refine (findFree_faults fuel marked.fit isClust).mono ?_ ?_
  · rintro d w ⟨same', side, free, isClust'⟩
    have same := marked.trans same'
    have isFree : w.link d = 0 := by
      rw [same'.link d isClust'.inFat]
      exact free
    have apart : c ≠ d := by
      rintro rfl
      rw [marked.link c isClust.inFat] at free
      rw [free, clustFlags_free.mpr rfl] at ends
      cases ends
    have small : d % 2 ^ 28 = d := Nat.mod_eq_of_lt (by
      have := isClust'.2
      have := fit.small
      omega)
    apply wp_bind
    have notUsed : clustFlags g.clustCnt (w.link d) ≠ some .used := by
      rw [isFree, clustFlags_free.mpr rfl]
      decide
    refine (putFat_faults same.fit isClust'.inFat notUsed 0x0FFFFFFF).mono ?_ ?_
    · rintro - x ⟨kept, -, links⟩
      have stillEnds : x.link c = v.link c := by
        rw [links c isClust.inFat, if_neg apart, same.link c isClust.inFat]
      unfold linkFrom
      apply wp_bind
      rw [if_pos nonzero]
      refine (putFat_faults kept.fit isClust.inFat (by rw [stillEnds, ends]; decide) d).mono ?_ ?_
      · rintro - y ⟨kept', side', links'⟩
        have linked : y.link c = d := by rw [links' c isClust.inFat, if_pos rfl, small]
        have so_far := (same.kept.trans kept).trans kept'
        have counted : y.Same g (y.withFat fun fat =>
            { fat with lastUsed := d, freeCnt := sub32 fat.freeCnt 1 }) :=
          same_withFat kept'.fit rfl (two_le_nextClust fit.layout isClust') rfl rfl rfl
        unfold wp
        rw [run_modifyFat_bind]
        apply wp_bind
        refine (syncFs_steady (g := g) _).mono ?_ ?_
        · intro _ z synced
          have last := counted.trans (synced counted.fit)
          refine ⟨so_far.trans last.kept, ?_, isClust', ?_⟩
          · rcases last.buffer with inside | equal
            · exact inside
            · exact equal ▸ side'
          · rw [last.link c isClust.inFat, linked]
        · intro _ z stopped
          rcases stopped counted.fit with synced | more
          · exact .inl (so_far.trans (counted.trans synced).kept)
          · exact .inr (by rwa [← so_far.reads])
      · rintro - y (kept' | more)
        · exact .inl ((same.kept.trans kept).trans kept')
        · exact .inr (by rwa [← (same.kept.trans kept).reads])
    · rintro - x (kept | more)
      · exact .inl (same.kept.trans kept)
      · exact .inr (by rwa [← same.reads])
  · rintro - w (same' | more)
    · exact .inl (marked.trans same').kept
    · exact .inr more

end NTux.Fat32
